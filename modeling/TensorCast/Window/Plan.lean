import TensorCast.Source.MappedSource

/-!
# Planning reads in source order

`SourceWindowScheduler` sorts the data segments of the normalized map by source and source offset,
merges neighbours into windows when the gap between them is small and the bytes read stay within a
multiple of the bytes used, and cuts the windows to the size of its buffers.  Each window is one read
of a base source; its slices say where the bytes go.
-/

namespace TensorCast.Window

open Core ByteRange Source

structure WindowSlice where
  srcOffset : UInt64 := 0
  dstOffset : UInt64 := 0
  length : UInt64 := 0
deriving DecidableEq, Repr

structure SourceWindow where
  sourceIndex : UInt32 := 0
  srcOffset : UInt64 := 0
  length : UInt64 := 0
  payloadBytes : UInt64 := 0
  slices : List WindowSlice := []
deriving DecidableEq, Repr

structure SourceSegment where
  sourceIndex : UInt32 := 0
  srcOffset : UInt64 := 0
  dstOffset : UInt64 := 0
  length : UInt64 := 0
deriving DecidableEq, Repr

/-- The options of the scheduler; its constructor raises a prefetch depth of zero to one. -/
structure SchedulerOptions where
  mergeMaxGapBytes : UInt64 := 0
  mergeMaxAmplification : UInt32 := 0
  prefetchDepth : UInt32 := 1
  windowCapBytes : UInt64 := 0
deriving DecidableEq, Repr

/-! ## Segments in source order -/

def dataSegments (segs : List ByteRangeSegment) : List SourceSegment :=
  (segs.filter fun seg => seg.length ≠ 0 ∧ seg.kind = .data).map fun seg =>
    { sourceIndex := seg.sourceIndex, srcOffset := seg.srcOffset, dstOffset := seg.dstOffset
      length := seg.length }

/-- The padding of the map. -/
def padSegments (segs : List ByteRangeSegment) : List ByteRangeSegment :=
  segs.filter fun seg => seg.length ≠ 0 ∧ seg.kind = .pad

/-- The order of the sort. -/
def srcLe (a b : SourceSegment) : Prop :=
  a.sourceIndex < b.sourceIndex ∨ a.sourceIndex = b.sourceIndex ∧ a.srcOffset ≤ b.srcOffset

instance : DecidableRel srcLe := fun _ _ => inferInstanceAs (Decidable (_ ∨ _ ∧ _))

def validateSegments (sources : List BaseSource) : List SourceSegment → StatusOr Unit
  | [] => .ok ()
  | seg :: rest =>
    if seg.length = 0 then validateSegments sources rest
    else
      match sources[seg.sourceIndex.toNat]? with
      | none =>
        .error (.invalidArgument "source index out of range for source-ordered scheduler")
      | some source =>
        if source.totalBytes < seg.srcOffset ∨
            source.totalBytes - seg.srcOffset < seg.length then
          .error (.invalidArgument "source-ordered scheduler segment out of bounds")
        else validateSegments sources rest

/-! ## Merging -/

def SourceSegment.slice (seg : SourceSegment) : WindowSlice where
  srcOffset := seg.srcOffset
  dstOffset := seg.dstOffset
  length := seg.length

def SourceSegment.window (seg : SourceSegment) : SourceWindow where
  sourceIndex := seg.sourceIndex
  srcOffset := seg.srcOffset
  length := seg.length
  payloadBytes := seg.length
  slices := [seg.slice]

/-- The candidate of the loop: the window, extended to the end of a segment behind it. -/
def SourceWindow.extend (current : SourceWindow) (seg : SourceSegment) : SourceWindow :=
  { current with
    length := seg.srcOffset + seg.length - current.srcOffset
    payloadBytes := current.payloadBytes + seg.length
    slices := current.slices ++ [seg.slice] }

/-- The loop over the sorted segments, with the current window and its end. -/
def mergeSegments (options : SchedulerOptions) :
    SourceWindow → UInt64 → List SourceSegment → StatusOr (List SourceWindow)
  | current, _, [] => .ok [current]
  | current, currentEnd, seg :: rest =>
    if seg.sourceIndex ≠ current.sourceIndex then do
      let windows ← mergeSegments options seg.window (seg.srcOffset + seg.length) rest
      .ok (current :: windows)
    else if seg.srcOffset < currentEnd then
      .error (.invalidArgument "source-ordered scheduler found overlapping segments")
    else
      let gap := seg.srcOffset - currentEnd
      let candidate := current.extend seg
      if gap ≤ options.mergeMaxGapBytes ∧
          amplificationWithinLimit candidate.length candidate.payloadBytes
            options.mergeMaxAmplification = true then
        mergeSegments options candidate (seg.srcOffset + seg.length) rest
      else do
        let windows ← mergeSegments options seg.window (seg.srcOffset + seg.length) rest
        .ok (current :: windows)

def mergeWindows (options : SchedulerOptions) : List SourceSegment → StatusOr (List SourceWindow)
  | [] => .ok []
  | seg :: rest => mergeSegments options seg.window (seg.srcOffset + seg.length) rest

/-- What is settled before the first byte moves: the padding and the merged windows. -/
def planWindows (options : SchedulerOptions) (sources : List BaseSource) (map : ByteRangeMap) :
    StatusOr (List ByteRangeSegment × List SourceWindow) := do
  let normalized ← normalizeByteRangeMap map
  let segments := (dataSegments normalized.segments).insertionSort srcLe
  validateSegments sources segments
  let windows ← mergeWindows options segments
  .ok (padSegments normalized.segments, windows)

/-! ## Cutting -/

def chunkSlice (chunkStart chunkEnd : UInt64) (slice : WindowSlice) : Option WindowSlice :=
  let sliceEnd := slice.srcOffset + slice.length
  let overlapStart := max slice.srcOffset chunkStart
  let overlapEnd := min sliceEnd chunkEnd
  if overlapEnd ≤ overlapStart then none
  else some
    { srcOffset := overlapStart
      dstOffset := slice.dstOffset + (overlapStart - slice.srcOffset)
      length := overlapEnd - overlapStart }

def windowChunk (win : SourceWindow) (chunkStart chunkEnd : UInt64) : SourceWindow :=
  let slices := win.slices.filterMap (chunkSlice chunkStart chunkEnd)
  { sourceIndex := win.sourceIndex, srcOffset := chunkStart, length := chunkEnd - chunkStart
    payloadBytes := (slices.map (·.length)).sum, slices := slices }

/-- The loop over the chunks of a window.  Its counter wraps, so it may not end: `none`. -/
def splitChunks (capBytes : UInt64) (win : SourceWindow) :
    ℕ → UInt64 → Option (List SourceWindow)
  | fuel, chunkStart =>
    let winEnd := win.srcOffset + win.length
    if chunkStart < winEnd then
      match fuel with
      | 0 => none
      | fuel + 1 =>
        let chunk := windowChunk win chunkStart (min (chunkStart + capBytes) winEnd)
        (splitChunks capBytes win fuel (chunkStart + capBytes)).map fun rest =>
          if 0 < chunk.payloadBytes then chunk :: rest else rest
    else some []

def splitWindows (capBytes : UInt64) (fuel : ℕ) : List SourceWindow → Option (List SourceWindow)
  | [] => some []
  | win :: rest =>
    if capBytes = 0 ∨ win.length ≤ capBytes then
      (splitWindows capBytes fuel rest).map fun out => win :: out
    else
      match splitChunks capBytes win fuel win.srcOffset with
      | none => none
      | some chunks => (splitWindows capBytes fuel rest).map fun out => chunks ++ out

end TensorCast.Window
