import TensorCast.ByteRange.ProgramCache
import TensorCast.Lib.Slice

/-!
# Reading through a byte-range program

`ByteRangeMappedSource` presents the destination of a map as a source: a read walks over the runs of
the program and takes each piece from a base source.  A strided run is served from a block of rows
that is kept between calls, by copying rows from the memory of the base source, or row by row.  Base
reads and allocations may fail at any time: they are functions of a counter of the events so far,
`tick`.
-/

namespace TensorCast.Source

open Core Lib ByteRange

/-- A base source: its size, what its reads return, and its memory if it has one. -/
structure BaseSource where
  totalBytes : UInt64
  readAt : ℕ → UInt64 → UInt64 → StatusOr (List UInt8)
  cpuBasePtr : Option (ℕ → UInt8) := none

/-- `CpuMemorySource`: reads copy from the memory and stop at its end. -/
def cpuMemorySource (memory : ℕ → UInt8) (totalSize : UInt64) : BaseSource where
  totalBytes := totalSize
  readAt _ offset bytes :=
    if totalSize ≤ offset ∨ bytes = 0 then .ok []
    else .ok (slice memory offset.toNat (min bytes (totalSize - offset)).toNat)
  cpuBasePtr := some memory

/-- The options of a mapped source that reading consults. -/
structure Options where
  directGatherMinRowLenBytes : UInt64 := 4 * 1024
  directGatherMinTotalBytes : UInt64 := 4 * 1024 * 1024
  directGatherMaxRowsTouched : UInt64 := 12 * 1024

/-- A mapped source, with the allocations it will be granted. -/
structure ByteRangeMappedSource where
  program : ByteRangeProgram
  sources : List BaseSource
  options : Options := {}
  allocates : ℕ → UInt64 → Bool := fun _ _ => true

def validateSources (sources : List BaseSource) : List ByteRangeSegment → StatusOr Unit
  | [] => .ok ()
  | seg :: rest =>
    match seg.kind with
    | .pad => validateSources sources rest
    | .data =>
      match sources[seg.sourceIndex.toNat]? with
      | none => .error (.invalidArgument "ByteRangeMappedSource source index out of range")
      | some source =>
        if source.totalBytes < seg.srcOffset ∨ source.totalBytes - seg.srcOffset < seg.length then
          .error (.invalidArgument
            "ByteRangeMappedSource map references out-of-bounds source bytes")
        else validateSources sources rest

def create (map : ByteRangeMap) (program : ByteRangeProgram) (sources : List BaseSource)
    (options : Options) (allocates : ℕ → UInt64 → Bool) : StatusOr ByteRangeMappedSource :=
  if map.totalBytes ≠ program.totalBytes then
    .error (.invalidArgument "ByteRangeMappedSource map/program total_bytes mismatch")
  else if sources.length < map.numSources.toNat then
    .error (.invalidArgument "ByteRangeMappedSource missing sources for map")
  else do
    validateSources sources map.segments
    .ok { program := program, sources := sources, options := options, allocates := allocates }

/-! ## The state between calls -/

/-- A block of rows of one strided run, loaded by one base read. -/
structure StridedBlock where
  runIndex : ℕ
  firstRow : UInt64
  rows : UInt64
  srcBegin : UInt64
  data : List UInt8
  /-- The bytes that the buffer can hold without a new allocation. -/
  capacity : UInt64
deriving DecidableEq, Repr

structure ReadState where
  tick : ℕ := 0
  /-- The block that is kept between calls. -/
  block : Option StridedBlock := none
  /-- The runs whose blocks could not be allocated. -/
  disabled : List ℕ := []
deriving DecidableEq, Repr

def ReadState.next (s : ReadState) : ReadState := { s with tick := s.tick + 1 }

/-! ## Reading base sources -/

namespace ByteRangeMappedSource

variable (m : ByteRangeMappedSource)

def readBase (sourceIndex : UInt32) (offset bytes : UInt64) (s : ReadState) :
    StatusOr (List UInt8) × ReadState :=
  if bytes = 0 then (.ok [], s)
  else
    match m.sources[sourceIndex.toNat]? with
    | none => (.error (.invalidArgument "ByteRangeMappedSource source index out of range"), s)
    | some source =>
      match source.readAt s.tick offset bytes with
      | .error status => (.error status, s.next)
      | .ok data =>
        if data.length ≠ bytes.toNat then
          (.error (.dataLoss "short read while executing byte range program"), s.next)
        else (.ok data, s.next)

/-- The loop over the rows of a strided run.  The row copy and the direct gather differ in how they
fetch the bytes of a row.  A round takes at least one byte. -/
def copyRows (fetch : UInt64 → UInt64 → ReadState → StatusOr (List UInt8) × ReadState)
    (run : ByteRangeRun) :
    ℕ → UInt64 → UInt64 → UInt64 → ReadState → StatusOr (List UInt8) × ReadState
  | 0, _, _, _, s => (.ok [], s)
  | fuel + 1, row, rowOffset, remaining, s =>
    if remaining = 0 ∨ run.rows ≤ row then (.ok [], s)
    else
      let take := min remaining (run.rowLen - rowOffset)
      let srcOffset := run.srcBase + row * run.stride + rowOffset
      match fetch srcOffset take s with
      | (.error status, s) => (.error status, s)
      | (.ok data, s) =>
        match copyRows fetch run fuel (row + 1) 0 (remaining - take) s with
        | (.error status, s) => (.error status, s)
        | (.ok rest, s) => (.ok (data ++ rest), s)

def readRow (source : BaseSource) (srcOffset take : UInt64) (s : ReadState) :
    StatusOr (List UInt8) × ReadState :=
  match source.readAt s.tick srcOffset take with
  | .error status => (.error status, s.next)
  | .ok data =>
    if data.length ≠ take.toNat then
      (.error (.dataLoss "short read while executing strided row copy"), s.next)
    else (.ok data, s.next)

def gatherRow (source : BaseSource) (base : ℕ → UInt8) (srcOffset take : UInt64)
    (s : ReadState) : StatusOr (List UInt8) × ReadState :=
  if source.totalBytes < srcOffset ∨ source.totalBytes - srcOffset < take then
    (.error (.outOfRange "direct gather source range out of bounds"), s)
  else (.ok (slice base srcOffset.toNat take.toNat), s)

def copyFromStridedRows (run : ByteRangeRun) (runOffset bytes : UInt64) (s : ReadState) :
    StatusOr (List UInt8) × ReadState :=
  if bytes = 0 then (.ok [], s)
  else
    match m.sources[run.sourceIndex.toNat]? with
    | none => (.error (.invalidArgument "ByteRangeMappedSource source index out of range"), s)
    | some source =>
      if run.rowLen = 0 then (.error (.internal "invalid strided run row length"), s)
      else copyRows (readRow source) run bytes.toNat (runOffset / run.rowLen)
        (runOffset % run.rowLen) bytes s

/-! ## Blocks of rows -/

/-- The loop of `load_block` after a miss: a block that is too large or cannot be allocated is halved.
Calls do not overlap, so the buffer of a kept block is taken over. -/
def loadRows (runIndex : ℕ) (run : ByteRangeRun) (firstRow : UInt64) :
    ℕ → UInt64 → ReadState → StatusOr StridedBlock × ReadState
  | 0, _, s => (.error (.resourceExhausted "unable to allocate strided block buffer"), s)
  | fuel + 1, blockRows, s =>
    if blockRows = 0 then
      (.error (.resourceExhausted "unable to allocate strided block buffer"), s)
    else
      let blockBytes := (blockRows - 1) * run.stride + run.rowLen
      if m.program.stridedBlockMaxBytes < blockBytes then
        loadRows runIndex run firstRow fuel (blockRows / 2) s
      else
        let capacity := (s.block.map (·.capacity)).getD 0
        let s := { s with block := none }
        if capacity < blockBytes ∧ m.allocates s.tick blockBytes = false then
          loadRows runIndex run firstRow fuel (blockRows / 2) s.next
        else
          let srcBegin := run.srcBase + firstRow * run.stride
          match m.readBase run.sourceIndex srcBegin blockBytes s with
          | (.error status, s) => (.error status, s)
          | (.ok data, s) =>
            let block : StridedBlock :=
              { runIndex := runIndex, firstRow := firstRow, rows := blockRows,
                srcBegin := srcBegin, data := data, capacity := max capacity blockBytes }
            (.ok block, { s with block := some block })

/-- The kept block if it holds the row, otherwise a new one.  Halving ends within as many rounds as
there are rows. -/
def loadBlock (runIndex : ℕ) (run : ByteRangeRun) (row : UInt64) (s : ReadState) :
    StatusOr StridedBlock × ReadState :=
  let rowsPerBlock := max run.rowsPerBlock 1
  let firstRow := row - row % rowsPerBlock
  let blockRows := min rowsPerBlock (run.rows - firstRow)
  match s.block with
  | some cached =>
    if cached.runIndex = runIndex ∧ cached.firstRow ≤ row ∧
        row < cached.firstRow + cached.rows then (.ok cached, s)
    else m.loadRows runIndex run firstRow (blockRows.toNat + 1) blockRows s
  | none => m.loadRows runIndex run firstRow (blockRows.toNat + 1) blockRows s

def packRows (block : StridedBlock) (run : ByteRangeRun) :
    ℕ → UInt64 → UInt64 → UInt64 → List UInt8
  | 0, _, _, _ => []
  | fuel + 1, activeRow, rowOffset, remaining =>
    if remaining = 0 ∨ block.firstRow + block.rows ≤ activeRow then []
    else
      let take := min remaining (run.rowLen - rowOffset)
      let blockOffset := (activeRow - block.firstRow) * run.stride + rowOffset
      let bytes := (block.data.drop blockOffset.toNat).take take.toNat
      let rowOffset := rowOffset + take
      bytes ++
        if rowOffset = run.rowLen then
          packRows block run fuel (activeRow + 1) 0 (remaining - take)
        else packRows block run fuel activeRow rowOffset (remaining - take)

/-- The bytes that a loop has copied, in front of what the rest of it copies. -/
def prepend (first : List UInt8) :
    Option (StatusOr (List UInt8) × ReadState) → Option (StatusOr (List UInt8) × ReadState)
  | none => none
  | some (.error status, s) => some (.error status, s)
  | some (.ok rest, s) => some (.ok (first ++ rest), s)

/-- The loop of `fill_strided_run` over blocks.  A block that was halved may end before the row it was
loaded for; the loop then makes no progress, and runs out of any fuel: `none`. -/
def fillBlocks (runIndex : ℕ) (run : ByteRangeRun) :
    ℕ → UInt64 → UInt64 → ReadState → Option (StatusOr (List UInt8) × ReadState)
  | 0, _, remaining, s => if remaining = 0 then some (.ok [], s) else none
  | fuel + 1, localOffset, remaining, s =>
    if remaining = 0 then some (.ok [], s)
    else
      let row := localOffset / run.rowLen
      let rowOffset := localOffset % run.rowLen
      if run.rows ≤ row then some (.error (.internal "strided run offset out of range"), s)
      else
        match m.loadBlock runIndex run row s with
        | (.error status, s) =>
          if status.code = .resourceExhausted then
            some (m.copyFromStridedRows run localOffset remaining
              { s with disabled := runIndex :: s.disabled })
          else some (.error status, s)
        | (.ok block, s) =>
          let packed := packRows block run remaining.toNat row rowOffset remaining
          let taken := UInt64.ofNat packed.length
          prepend packed (fillBlocks runIndex run fuel (localOffset + taken) (remaining - taken) s)

def rowsTouched (run : ByteRangeRun) (runOffset bytes : UInt64) : UInt64 :=
  let firstRow := runOffset / run.rowLen
  let lastRowExclusive := (runOffset + bytes + run.rowLen - 1) / run.rowLen
  if firstRow < lastRowExclusive then lastRowExclusive - firstRow else 0

def directGatherCandidate (run : ByteRangeRun) (runOffset bytes : UInt64) : Prop :=
  run.rowLen < run.stride ∧ m.options.directGatherMinRowLenBytes ≤ run.rowLen ∧
    m.options.directGatherMinTotalBytes ≤ bytes ∧
    rowsTouched run runOffset bytes ≤ m.options.directGatherMaxRowsTouched

instance (run : ByteRangeRun) (runOffset bytes : UInt64) :
    Decidable (m.directGatherCandidate run runOffset bytes) :=
  inferInstanceAs (Decidable (_ ∧ _))

def fillStridedRun (fuel runIndex : ℕ) (run : ByteRangeRun) (runOffset bytes : UInt64)
    (s : ReadState) : Option (StatusOr (List UInt8) × ReadState) :=
  if bytes = 0 then some (.ok [], s)
  else if m.program.hasStridedRuns = false then
    some (m.copyFromStridedRows run runOffset bytes s)
  else if runIndex ∈ s.disabled then some (m.copyFromStridedRows run runOffset bytes s)
  else if run.rowLen = 0 ∨ run.rows = 0 then some (.error (.internal "invalid strided run"), s)
  else
    match m.sources[run.sourceIndex.toNat]? with
    | none =>
      -- the code reads past the end of its sources here; `create` has ruled it out
      some (.error (.invalidArgument "ByteRangeMappedSource source index out of range"), s)
    | some source =>
      match source.cpuBasePtr with
      | some base =>
        if m.directGatherCandidate run runOffset bytes then
          match copyRows (gatherRow source base) run bytes.toNat (runOffset / run.rowLen)
              (runOffset % run.rowLen) bytes s with
          | (.error status, s) => some (.error status, s)
          | (.ok copied, s) =>
            if copied.length ≠ bytes.toNat then
              some (.error (.dataLoss "direct gather short copy"), s)
            else some (.ok copied, s)
        else m.fillBlocks runIndex run fuel runOffset bytes s
      | none => m.fillBlocks runIndex run fuel runOffset bytes s

/-! ## Reading the mapped bytes -/

def findRunIndex (offset : UInt64) : ℕ := upperBound m.program.runStarts offset - 1

def readRun (fuel runIndex : ℕ) (run : ByteRangeRun) (runOffset chunk : UInt64) (s : ReadState) :
    Option (StatusOr (List UInt8) × ReadState) :=
  match run.kind with
  | .pad => some (.ok (List.replicate chunk.toNat 0), s)
  | .contiguous => some (m.readBase run.sourceIndex (run.srcBegin + runOffset) chunk s)
  | .strided => m.fillStridedRun fuel runIndex run runOffset chunk s

def readRuns (fuel : ℕ) : List ByteRangeRun → ℕ → UInt64 → UInt64 → ReadState →
    Option (StatusOr (List UInt8) × ReadState)
  | [], _, _, _, s => some (.ok [], s)
  | run :: rest, runIndex, cursor, remaining, s =>
    if remaining = 0 then some (.ok [], s)
    else if run.dstEnd ≤ cursor then readRuns fuel rest (runIndex + 1) cursor remaining s
    else if cursor < run.dstBegin then
      some (.error (.internal "byte range program contains uncovered gaps"), s)
    else
      let chunk := min remaining (run.dstEnd - cursor)
      match m.readRun fuel runIndex run (cursor - run.dstBegin) chunk s with
      | none => none
      | some (.error status, s) => some (.error status, s)
      | some (.ok bytes, s) =>
        if bytes = [] then some (.ok [], s)
        else
          let copied := UInt64.ofNat bytes.length
          prepend bytes (readRuns fuel rest (runIndex + 1) (cursor + copied) (remaining - copied) s)

/-- `read_at`; `none` if the call did not return within the fuel. -/
def readAt (fuel : ℕ) (offset bytes : UInt64) (s : ReadState) :
    Option (StatusOr (List UInt8) × ReadState) :=
  if m.program.totalBytes ≤ offset ∨ bytes = 0 then some (.ok [], s)
  else
    let toCopy := min bytes (m.program.totalBytes - offset)
    m.readRuns fuel (m.program.runs.drop (m.findRunIndex offset)) (m.findRunIndex offset) offset
      toCopy s

/-- The outcomes of a sequence of calls.  A call that does not return ends the sequence. -/
def readAtCalls (fuel : ℕ) : List (UInt64 × UInt64) → ReadState → List (StatusOr (List UInt8))
  | [], _ => []
  | (offset, bytes) :: rest, s =>
    match m.readAt fuel offset bytes s with
    | none => []
    | some (result, s) => result :: readAtCalls fuel rest s

end ByteRangeMappedSource

end TensorCast.Source
