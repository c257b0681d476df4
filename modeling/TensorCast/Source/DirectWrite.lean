import TensorCast.Source.MappedSource
import TensorCast.Lib.Writes

/-!
# Direct writes through a byte-range program

A direct write moves bytes of a source into memory.  The memory is named by offsets of a virtual
address space (va), and a grant lists windows of the space with the local addresses behind them.

`readv_into_at` of a mapped source checks every operation against the program and the grant and lowers
it over the runs: a step fills a piece of padding with zeros, or hands pieces that lie next to each
other in the list and come from one base source to that source as one batch.  Then it executes the
steps in order.  A base source that refuses a batch is asked for the pieces one by one.
-/

namespace TensorCast.Source

open Core Lib ByteRange

/-- The memory behind the local addresses. -/
abbrev Memory := UInt64 → UInt8

/-! ## Grants -/

/-- A window of the va space and the local address of its start. -/
structure Window where
  vaOffset : UInt64
  localAddr : UInt64
  length : UInt64
deriving DecidableEq, Repr

namespace Window

/-- The test of the code: the end of the window is computed modulo `2 ^ 64`. -/
def Contains (w : Window) (va : UInt64) : Prop := w.vaOffset ≤ va ∧ va < w.vaOffset + w.length

instance (w : Window) (va : UInt64) : Decidable (w.Contains va) :=
  inferInstanceAs (Decidable (_ ∧ _))

def address (w : Window) (va : UInt64) : UInt64 := w.localAddr + (va - w.vaOffset)

end Window

/-- A grant.  Its windows describe one memory: where two of them overlap, they agree. -/
structure DirectWriteGrant where
  windows : List Window
  coherent : ∀ w ∈ windows, ∀ w' ∈ windows, ∀ va, w.Contains va → w'.Contains va →
    w.address va = w'.address va

namespace DirectWriteGrant

/-- The window that the code uses for a va: the first one that contains it. -/
def window? (grant : DirectWriteGrant) (va : UInt64) : Option Window :=
  grant.windows.find? fun w => w.Contains va

def validateRange (grant : DirectWriteGrant) : ℕ → UInt64 → UInt64 → StatusOr Unit
  | 0, _, _ => .ok ()
  | fuel + 1, cursor, remaining =>
    if remaining = 0 then .ok ()
    else
      match grant.window? cursor with
      | none => .error (.invalidArgument "No direct-write window covers requested range")
      | some target =>
        let windowOffset := cursor - target.vaOffset
        let available := target.length - windowOffset
        let take := min remaining available
        validateRange grant fuel (cursor + take) (remaining - take)

def validateDirectWriteGrantRange (grant : DirectWriteGrant) (destVaOffset bytes : UInt64) :
    StatusOr Unit :=
  grant.validateRange bytes.toNat destVaOffset bytes

def zeroFill (grant : DirectWriteGrant) : ℕ → UInt64 → UInt64 → Memory → StatusOr Unit × Memory
  | 0, _, _, memory => (.ok (), memory)
  | fuel + 1, cursor, remaining, memory =>
    if remaining = 0 then (.ok (), memory)
    else
      match grant.window? cursor with
      | none => (.error (.invalidArgument "No direct-write window covers requested range"), memory)
      | some target =>
        let windowOffset := cursor - target.vaOffset
        let available := target.length - windowOffset
        let take := min remaining available
        let zeros := (List.range take.toNat).map fun k =>
          (target.localAddr + windowOffset + UInt64.ofNat k, (0 : UInt8))
        zeroFill grant fuel (cursor + take) (remaining - take) (writeAll zeros memory)

def zeroFillToGrant (grant : DirectWriteGrant) (destVaOffset bytes : UInt64) (memory : Memory) :
    StatusOr Unit × Memory :=
  grant.zeroFill bytes.toNat destVaOffset bytes memory

end DirectWriteGrant

/-! ## Base sources that write -/

structure DirectWriteOp where
  srcOffset : UInt64 := 0
  destVaOffset : UInt64 := 0
  bytes : UInt64 := 0
deriving DecidableEq, Repr

/-- `readv_into_at` of `SeekableSource`: the operations one after the other. -/
def readvLoop (readIntoAt : UInt64 → UInt64 → UInt64 → DirectWriteGrant → Memory →
    StatusOr UInt64 × Memory) (grant : DirectWriteGrant) :
    List DirectWriteOp → UInt64 → Memory → StatusOr UInt64 × Memory
  | [], totalBytes, memory => (.ok totalBytes, memory)
  | op :: rest, totalBytes, memory =>
    if op.bytes = 0 then readvLoop readIntoAt grant rest totalBytes memory
    else
      match readIntoAt op.srcOffset op.destVaOffset op.bytes grant memory with
      | (.error status, memory) => (.error status, memory)
      | (.ok wrote, memory) =>
        if wrote ≠ op.bytes then
          (.error (.dataLoss "direct write batch short write"), memory)
        else readvLoop readIntoAt grant rest (totalBytes + wrote) memory

/-- A base source with the direct writes of `SeekableSource`.  A write returns a byte count and the
memory that it leaves, and depends on how many calls went before. -/
structure DirectSource extends BaseSource where
  supportsDirectWriteAt : Bool := false
  supportsBatchedDirectWriteAt : Bool := false
  readIntoAt : ℕ → UInt64 → UInt64 → UInt64 → DirectWriteGrant → Memory →
      StatusOr UInt64 × Memory :=
    fun _ _ _ _ _ memory => (.error (.unimplemented "direct write not supported"), memory)
  readvIntoAt : ℕ → List DirectWriteOp → DirectWriteGrant → Memory → StatusOr UInt64 × Memory :=
    fun tick ops grant memory => readvLoop (readIntoAt tick) grant ops 0 memory

/-- `InlineSeekableSource`: a buffer, copied into the one window that holds the destination. -/
def inlineSeekableSource (data : ℕ → UInt8) (size : UInt64) : DirectSource where
  totalBytes := size
  readAt _ offset bytes :=
    if size ≤ offset ∨ bytes = 0 then .ok []
    else .ok (slice data offset.toNat (min bytes (size - offset)).toNat)
  supportsDirectWriteAt := true
  readIntoAt _ srcOffset destVaOffset bytes grant memory :=
    if bytes = 0 then (.ok 0, memory)
    else if size ≤ srcOffset then (.ok 0, memory)
    else
      let toCopy := min bytes (size - srcOffset)
      match grant.windows.find? fun w =>
          w.vaOffset ≤ destVaOffset ∧ destVaOffset + toCopy ≤ w.vaOffset + w.length with
      | none =>
        (.error (.invalidArgument "No direct-write window covers requested inline range"), memory)
      | some target =>
        let dst := target.localAddr + (destVaOffset - target.vaOffset)
        (.ok toCopy, writeAll ((List.range toCopy.toNat).map fun k =>
          (dst + UInt64.ofNat k, data (srcOffset.toNat + k))) memory)

/-- The memory, and the number of calls to base sources so far. -/
structure WriteState where
  tick : ℕ := 0
  memory : Memory

structure DirectMappedSource where
  program : ByteRangeProgram
  sources : List DirectSource
  options : Options := {}
  allocates : ℕ → UInt64 → Bool := fun _ _ => true
  directWriteSupported : Bool

/-- The capability that `Create` computes. -/
def supportsDirectWrite (enableDirectWriteAt : Bool) (program : ByteRangeProgram)
    (sources : List DirectSource) : Bool :=
  enableDirectWriteAt && !program.hasStridedRuns &&
    program.runs.all fun run =>
      match run.kind with
      | .contiguous =>
        match sources[run.sourceIndex.toNat]? with
        | none => false
        | some source => source.supportsDirectWriteAt
      | _ => true

def createDirect (map : ByteRangeMap) (program : ByteRangeProgram) (sources : List DirectSource)
    (options : Options) (enableDirectWriteAt : Bool) (allocates : ℕ → UInt64 → Bool) :
    StatusOr DirectMappedSource := do
  let _ ← create map program (sources.map (·.toBaseSource)) options allocates
  .ok { program := program, sources := sources, options := options, allocates := allocates
        directWriteSupported := supportsDirectWrite enableDirectWriteAt program sources }

namespace DirectMappedSource

variable (m : DirectMappedSource)

def toMappedSource : ByteRangeMappedSource where
  program := m.program
  sources := m.sources.map (·.toBaseSource)
  options := m.options
  allocates := m.allocates

end DirectMappedSource

/-! ## Lowering -/

inductive LoweredDirectWriteStep
  | pad (destVaOffset bytes : UInt64)
  | sourceGroup (sourceIndex : UInt32) (ops : List DirectWriteOp)
deriving DecidableEq, Repr

/-- The steps so far and the group that is still being filled. -/
structure Lowering where
  loweredSteps : List LoweredDirectWriteStep := []
  pendingSourceIndex : Option UInt32 := none
  pendingGroupOps : List DirectWriteOp := []
deriving DecidableEq, Repr

namespace Lowering

def flushPendingGroup (l : Lowering) : Lowering :=
  match l.pendingSourceIndex with
  | none => l
  | some sourceIndex =>
    if l.pendingGroupOps = [] then l
    else { loweredSteps := l.loweredSteps ++ [.sourceGroup sourceIndex l.pendingGroupOps] }

/-- A step of padding, after the pending group. -/
def pushPad (l : Lowering) (destVaOffset bytes : UInt64) : Lowering :=
  let l := l.flushPendingGroup
  { l with loweredSteps := l.loweredSteps ++ [.pad destVaOffset bytes] }

/-- An operation on a base source, in the pending group if that is the group of the source. -/
def pushOp (l : Lowering) (sourceIndex : UInt32) (op : DirectWriteOp) : Lowering :=
  let l := if l.pendingSourceIndex = some sourceIndex then l
    else { l.flushPendingGroup with pendingSourceIndex := some sourceIndex }
  { l with pendingGroupOps := l.pendingGroupOps ++ [op] }

end Lowering

namespace DirectMappedSource

variable (m : DirectMappedSource)

/-- One operation over the runs, with the bytes lowered.  A run that is not used up is the last. -/
def lowerRuns (destVaOffset toCopy : UInt64) :
    List ByteRangeRun → UInt64 → UInt64 → Lowering → StatusOr (UInt64 × Lowering)
  | [], _, copied, l => .ok (copied, l)
  | run :: rest, cursor, copied, l =>
    if toCopy ≤ copied then .ok (copied, l)
    else if run.dstEnd ≤ cursor then lowerRuns destVaOffset toCopy rest cursor copied l
    else if cursor < run.dstBegin then
      .error (.internal "byte range program contains uncovered gaps")
    else
      let runOffset := cursor - run.dstBegin
      let available := run.dstEnd - cursor
      let chunk := min (toCopy - copied) available
      match run.kind with
      | .pad =>
        lowerRuns destVaOffset toCopy rest (cursor + chunk) (copied + chunk)
          (l.pushPad (destVaOffset + copied) chunk)
      | .contiguous =>
        lowerRuns destVaOffset toCopy rest (cursor + chunk) (copied + chunk)
          (l.pushOp run.sourceIndex
            { srcOffset := run.srcBegin + runOffset, destVaOffset := destVaOffset + copied
              bytes := chunk })
      | .strided => .error (.unimplemented "direct write not supported for strided runs")

def lowerOp (grant : DirectWriteGrant) (op : DirectWriteOp) (l : Lowering) : StatusOr Lowering :=
  if op.bytes = 0 then .ok l
  else if m.program.totalBytes ≤ op.srcOffset then
    .error (.dataLoss "byte range direct-write op starts beyond EOF")
  else if m.program.totalBytes - op.srcOffset < op.bytes then
    .error (.dataLoss "byte range direct-write op extends beyond EOF")
  else do
    grant.validateDirectWriteGrantRange op.destVaOffset op.bytes
    let runIndex := m.toMappedSource.findRunIndex op.srcOffset
    let (copied, l) ← lowerRuns op.destVaOffset op.bytes (m.program.runs.drop runIndex)
      op.srcOffset 0 l
    if copied ≠ op.bytes then .error (.dataLoss "byte range direct-write batch short write")
    else .ok l

def lowerOps (grant : DirectWriteGrant) : List DirectWriteOp → Lowering → StatusOr Lowering
  | [], l => .ok l.flushPendingGroup
  | op :: rest, l => do
    let l ← m.lowerOp grant op l
    lowerOps grant rest l

/-- The sum of the sizes, which has to fit in a word. -/
def expectedOutputBytes : List DirectWriteOp → UInt64 → StatusOr UInt64
  | [], expected => .ok expected
  | op :: rest, expected =>
    if 0xffffffffffffffff - op.bytes < expected then
      .error (.invalidArgument "byte range direct-write batch exceeds size_t range")
    else expectedOutputBytes rest (expected + op.bytes)

/-! ## Execution -/

def executeFallback (source : DirectSource) (grant : DirectWriteGrant) :
    List DirectWriteOp → UInt64 → WriteState → StatusOr UInt64 × WriteState
  | [], wroteBytes, s => (.ok wroteBytes, s)
  | op :: rest, wroteBytes, s =>
    match source.readIntoAt s.tick op.srcOffset op.destVaOffset op.bytes grant s.memory with
    | (.error status, memory) => (.error status, { tick := s.tick + 1, memory := memory })
    | (.ok wrote, memory) =>
      if wrote ≠ op.bytes then
        (.error (.dataLoss "short direct-write fallback while executing byte range program"),
          { tick := s.tick + 1, memory := memory })
      else executeFallback source grant rest (wroteBytes + wrote)
        { tick := s.tick + 1, memory := memory }

/-- A status that a batch may be refused with. -/
def isPreIssueDirectWriteCapabilityMiss (status : Status) : Bool :=
  status.code = .unimplemented ∨ status.code = .failedPrecondition

def executeGroupedDirectWrite (sourceIndex : UInt32) (ops : List DirectWriteOp)
    (grant : DirectWriteGrant) (s : WriteState) : StatusOr UInt64 × WriteState :=
  if ops = [] then (.ok 0, s)
  else
    match m.sources[sourceIndex.toNat]? with
    | none => (.error (.invalidArgument "ByteRangeMappedSource source index out of range"), s)
    | some source =>
      let expectedBytes := (ops.map (·.bytes)).sum
      if source.supportsBatchedDirectWriteAt = false then executeFallback source grant ops 0 s
      else
        match source.readvIntoAt s.tick ops grant s.memory with
        | (.error status, memory) =>
          let s : WriteState := { tick := s.tick + 1, memory := memory }
          if isPreIssueDirectWriteCapabilityMiss status then executeFallback source grant ops 0 s
          else (.error status, s)
        | (.ok wrote, memory) =>
          let s : WriteState := { tick := s.tick + 1, memory := memory }
          if wrote ≠ expectedBytes then
            (.error (.dataLoss "short grouped direct write while executing byte range program"), s)
          else (.ok wrote, s)

/-- The loop over the steps, with the bytes that sources and padding have put out. -/
def executeSteps (grant : DirectWriteGrant) :
    List LoweredDirectWriteStep → UInt64 → UInt64 → WriteState →
      StatusOr (UInt64 × UInt64) × WriteState
  | [], sourceBytes, padBytes, s => (.ok (sourceBytes, padBytes), s)
  | .pad destVaOffset bytes :: rest, sourceBytes, padBytes, s =>
    match grant.zeroFillToGrant destVaOffset bytes s.memory with
    | (.error status, memory) => (.error status, { s with memory := memory })
    | (.ok _, memory) =>
      executeSteps grant rest sourceBytes (padBytes + bytes) { s with memory := memory }
  | .sourceGroup sourceIndex ops :: rest, sourceBytes, padBytes, s =>
    match m.executeGroupedDirectWrite sourceIndex ops grant s with
    | (.error status, s) => (.error status, s)
    | (.ok wrote, s) => executeSteps grant rest (sourceBytes + wrote) padBytes s

/-- The first phase of `readv_into_at`: how many bytes the steps put out, and the steps. -/
def lower (grant : DirectWriteGrant) (ops : List DirectWriteOp) :
    StatusOr (UInt64 × List LoweredDirectWriteStep) := do
  let expected ← expectedOutputBytes ops 0
  let l ← m.lowerOps grant ops {}
  .ok (expected, l.loweredSteps)

def readvIntoAt (ops : List DirectWriteOp) (grant : DirectWriteGrant) (s : WriteState) :
    StatusOr UInt64 × WriteState :=
  if m.directWriteSupported = false then
    (.error (.unimplemented "direct write not supported for byte range program"), s)
  else if ops = [] then (.ok 0, s)
  else
    match m.lower grant ops with
    | .error status => (.error status, s)
    | .ok (expected, steps) =>
      match m.executeSteps grant steps 0 0 s with
      | (.error status, s) => (.error status, s)
      | (.ok (sourceBytes, padBytes), s) =>
        if sourceBytes + padBytes ≠ expected then
          (.error (.internal "byte range direct-write batch accounting mismatch"), s)
        else (.ok expected, s)

end DirectMappedSource

end TensorCast.Source
