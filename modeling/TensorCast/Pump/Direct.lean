import TensorCast.Pump.Coverage
import TensorCast.Source.DirectWrite

/-!
# The direct pump

When the source can write into the destination by itself, `pump_ranges` cuts the ranges into
operations of at most a window, collects them into batches, asks the destination for a grant for each
batch and hands the batch to the source.  A batch without a grant is copied through a staging buffer.
A direct write is judged by the bytes that it puts at offsets of the destination.
-/

namespace TensorCast.Pump

open Core Lib Sink Source

structure PumpDirectWriteOptions where
  directWriteBatchBytes : UInt64 := 0
  directWriteBatchOps : UInt64 := 0
deriving DecidableEq, Repr

def maxSize : UInt64 := UInt64.ofNat (2 ^ 64 - 1)

def saturatingMul (lhs rhs : UInt64) : UInt64 :=
  if lhs = 0 ∨ rhs = 0 then 0
  else if maxSize / rhs < lhs then maxSize
  else lhs * rhs

def resolveDirectWriteBatchBytes (windowBytes : UInt64) (options : PumpDirectWriteOptions) :
    UInt64 :=
  let requested := options.directWriteBatchBytes
  if 0 < requested then max windowBytes requested
  else max windowBytes (saturatingMul windowBytes 8)

def resolveDirectWriteBatchOps (options : PumpDirectWriteOptions) : UInt64 :=
  max 1 (if 0 < options.directWriteBatchOps then options.directWriteBatchOps else 8)

/-- `readv_into_at` returns a byte count and the bytes that it has written. -/
structure DirectEnv extends Env where
  planDirectWrite : ℕ → List (UInt64 × UInt64) → StatusOr Unit := fun _ _ => .ok ()
  readvIntoAt : ℕ → List DirectWriteOp → StatusOr UInt64 × List SinkWrite

/-- The batch and the bytes written so far. -/
structure Direct where
  tick : ℕ := 0
  batchOps : List DirectWriteOp := []
  batchBytes : UInt64 := 0
  writes : List SinkWrite := []
deriving DecidableEq, Repr

namespace Direct

def clearBatch (d : Direct) : Direct := { d with batchOps := [], batchBytes := 0 }

def batchRanges (d : Direct) : List (UInt64 × UInt64) :=
  d.batchOps.map fun op => (op.destVaOffset, op.bytes)

def push (d : Direct) (off step : UInt64) : Direct :=
  { d with
    batchOps := d.batchOps ++ [{ srcOffset := off, destVaOffset := off, bytes := step }]
    batchBytes := d.batchBytes + step }

end Direct

variable (env : DirectEnv)

/-- The loop over one operation of `staged_copy_direct_write_batch`; `none` if a source returns more
than it is asked for and the loop does not end. -/
def stagedCopyOp (stagingBytes : UInt64) :
    ℕ → UInt64 → UInt64 → UInt64 → Direct → Option (StatusOr Unit × Direct)
  | fuel, srcOffset, destOffset, remaining, d =>
    if remaining = 0 then some (.ok (), d)
    else
      match fuel with
      | 0 => none
      | fuel + 1 =>
        let chunk := min remaining stagingBytes
        match env.readAt d.tick srcOffset chunk with
        | .error status => some (.error status, { d with tick := d.tick + 1 })
        | .ok data =>
          if data.length = 0 then
            some (.error (.outOfRange "EOF during staged direct-write fallback"),
              { d with tick := d.tick + 1 })
          else
            let got := UInt64.ofNat data.length
            let d' := { d with tick := d.tick + 2, writes := d.writes ++ [⟨destOffset, data⟩] }
            match env.writeAt (d.tick + 1) destOffset data with
            | .error status => some (.error status, d')
            | .ok () =>
              stagedCopyOp stagingBytes fuel (srcOffset + got) (destOffset + got)
                (remaining - got) d'

/-- The loop over the operations. -/
def stagedCopyOps (stagingBytes : UInt64) :
    List DirectWriteOp → Direct → Option (StatusOr Unit × Direct)
  | [], d => some (.ok (), d)
  | op :: rest, d =>
    match stagedCopyOp env stagingBytes op.bytes.toNat op.srcOffset op.destVaOffset op.bytes d with
    | none => none
    | some (.error status, d) => some (.error status, d)
    | some (.ok (), d) => stagedCopyOps stagingBytes rest d

def stagedCopyDirectWriteBatch (stagingBytes : UInt64) (ops : List DirectWriteOp) (d : Direct) :
    Option (StatusOr Unit × Direct) :=
  if ops = [] then some (.ok (), d)
  else if stagingBytes = 0 then
    some (.error (.invalidArgument "staging chunk bytes must be positive"), d)
  else stagedCopyOps env stagingBytes ops d

def flushBatch (windowBytes : UInt64) (d : Direct) : Option (StatusOr Unit × Direct) :=
  if d.batchOps = [] then some (.ok (), d)
  else
    match env.planDirectWrite d.tick d.batchRanges with
    | .error _ =>
      (stagedCopyDirectWriteBatch env windowBytes d.batchOps { d with tick := d.tick + 1 }).map
        fun (status, d) => (status, d.clearBatch)
    | .ok () =>
      match env.readvIntoAt (d.tick + 1) d.batchOps with
      | (result, writes) =>
        let d' := { d with tick := d.tick + 2, writes := d.writes ++ writes }
        match result with
        | .error status => some (.error status, d')
        | .ok got =>
          if got ≠ d.batchBytes then
            some (.error (.dataLoss "Short direct write batch"), d')
          else some (.ok (), d'.clearBatch)

/-- Whether the batch has to go before an operation can come in.  The sum is one of machine
words. -/
def limitHit (batchBytesLimit batchOpsLimit : UInt64) (d : Direct) (step : UInt64) : Bool :=
  d.batchOps ≠ [] ∧
    (batchBytesLimit < d.batchBytes + step ∨ batchOpsLimit.toNat ≤ d.batchOps.length)

/-- The loop over a range; a round moves at least one byte on. -/
def batchRange (windowBytes batchBytesLimit batchOpsLimit rangeEnd : UInt64) :
    ℕ → UInt64 → Direct → Option (StatusOr Unit × Direct)
  | 0, _, d => some (.ok (), d)
  | fuel + 1, off, d =>
    if off < rangeEnd then
      let step := min windowBytes (rangeEnd - off)
      if limitHit batchBytesLimit batchOpsLimit d step = true then
        match flushBatch env windowBytes d with
        | none => none
        | some (.error status, d) => some (.error status, d)
        | some (.ok (), d) =>
          batchRange windowBytes batchBytesLimit batchOpsLimit rangeEnd fuel (off + step)
            (d.push off step)
      else
        batchRange windowBytes batchBytesLimit batchOpsLimit rangeEnd fuel (off + step)
          (d.push off step)
    else some (.ok (), d)

/-- The loop over the ranges.  The end of a range is computed modulo `2 ^ 64`. -/
def batchRanges (windowBytes batchBytesLimit batchOpsLimit : UInt64) :
    List Range → Direct → Option (StatusOr Unit × Direct)
  | [], d => some (.ok (), d)
  | r :: rest, d =>
    let rangeEnd := r.offset + r.size
    match batchRange env windowBytes batchBytesLimit batchOpsLimit rangeEnd
        (rangeEnd - r.offset).toNat r.offset d with
    | none => none
    | some (.error status, d) => some (.error status, d)
    | some (.ok (), d) => batchRanges windowBytes batchBytesLimit batchOpsLimit rest d

def pumpRangesDirectWrite (ranges : List Range) (windowBytes : UInt64)
    (options : PumpDirectWriteOptions) : Option (StatusOr Unit × Direct) :=
  if windowBytes = 0 then
    some (.error (.invalidArgument "pump_ranges_direct_write requires window_bytes > 0"), {})
  else
    match batchRanges env windowBytes (resolveDirectWriteBatchBytes windowBytes options)
        (resolveDirectWriteBatchOps options) ranges {} with
    | none => none
    | some (.error status, d) => some (.error status, d)
    | some (.ok (), d) => flushBatch env windowBytes d

end TensorCast.Pump
