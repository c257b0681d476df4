import TensorCast.Core.Status
import TensorCast.Lib.Tiling

/-!
# Byte-range maps and their normalization

A byte-range map says, for each byte of a destination space, where it comes from: a segment pads its
bytes with zeros or takes them from consecutive offsets of one source.  `normalizeByteRangeMap` drops
the empty segments, sorts the rest by destination, merges neighbours that continue each other and
rejects a map that does not cover its destination exactly.  Offsets are 64-bit, and the source offset
of a byte is computed modulo `2 ^ 64`.
-/

namespace TensorCast.ByteRange

open Core Lib

inductive SegmentKind
  | data
  | pad
deriving DecidableEq, Repr

/-- A segment of a map: `length` destination bytes from `dstOffset` on. -/
structure ByteRangeSegment where
  kind : SegmentKind := .pad
  dstOffset : UInt64 := 0
  length : UInt64 := 0
  srcOffset : UInt64 := 0
  sourceIndex : UInt32 := 0
deriving DecidableEq, Repr

/-- A map of `totalBytes` destination bytes into `numSources` sources. -/
structure ByteRangeMap where
  totalBytes : UInt64 := 0
  numSources : UInt32 := 0
  segments : List ByteRangeSegment := []
deriving DecidableEq, Repr

/-! ## Normalization -/

def validateTotalBytes (map : ByteRangeMap) : StatusOr Unit :=
  if map.totalBytes = 0 then
    if map.segments ≠ [] then
      .error (.invalidArgument "byte range map total_bytes is zero with non-empty segments")
    else .ok ()
  else if map.numSources = 0 then
    .error (.invalidArgument "byte range map num_sources must be > 0")
  else .ok ()

/-- The first loop of `normalize_byte_range_map`: empty segments are dropped, padding loses its source
fields, and a data segment must name one of the sources. -/
def filterSegments (numSources : UInt32) : List ByteRangeSegment → StatusOr (List ByteRangeSegment)
  | [] => .ok []
  | seg :: rest =>
    if seg.length = 0 then filterSegments numSources rest
    else
      match seg.kind with
      | .pad => do
        let filtered ← filterSegments numSources rest
        .ok ({ seg with srcOffset := 0, sourceIndex := 0 } :: filtered)
      | .data =>
        if numSources = 0 ∨ numSources ≤ seg.sourceIndex then
          .error (.invalidArgument "byte range map segment source_index out of range")
        else do
          let filtered ← filterSegments numSources rest
          .ok (seg :: filtered)

/-- The comparison of the sort. -/
def dstLe (a b : ByteRangeSegment) : Prop := a.dstOffset ≤ b.dstOffset

instance : DecidableRel dstLe := fun a b => inferInstanceAs (Decidable (a.dstOffset ≤ b.dstOffset))

/-- It is of the same kind and, for data, starts in the same source where the previous one ends. -/
def continues (prev seg : ByteRangeSegment) : Prop :=
  seg.kind = prev.kind ∧
    (seg.kind = .pad ∨
      (seg.sourceIndex = prev.sourceIndex ∧ seg.srcOffset = prev.srcOffset + prev.length))

instance (prev seg : ByteRangeSegment) : Decidable (continues prev seg) :=
  inferInstanceAs (Decidable (_ ∧ _))

/-- The merging loop.  `merged` is the list built so far with its last segment first. -/
def mergeSegments (totalBytes : UInt64) :
    List ByteRangeSegment → List ByteRangeSegment → StatusOr (List ByteRangeSegment)
  | merged, [] => .ok merged.reverse
  | merged, seg :: rest =>
    if totalBytes ≤ seg.dstOffset then
      .error (.invalidArgument "byte range map segment dst_offset out of bounds")
    else if totalBytes - seg.dstOffset < seg.length then
      .error (.invalidArgument "byte range map segment length out of bounds")
    else
      match merged with
      | [] => mergeSegments totalBytes [seg] rest
      | prev :: done =>
        if seg.dstOffset < prev.dstOffset + prev.length then
          .error (.invalidArgument "byte range map contains overlapping segments")
        else if seg.dstOffset = prev.dstOffset + prev.length ∧ continues prev seg then
          mergeSegments totalBytes ({ prev with length := prev.length + seg.length } :: done) rest
        else mergeSegments totalBytes (seg :: prev :: done) rest

/-- The last loop: the merged segments follow each other from `cursor` without a gap. -/
def checkCoverage (totalBytes : UInt64) : UInt64 → List ByteRangeSegment → StatusOr Unit
  | cursor, [] =>
    if cursor ≠ totalBytes then
      .error (.invalidArgument "byte range map does not cover total_bytes")
    else .ok ()
  | cursor, seg :: rest =>
    if seg.dstOffset ≠ cursor then
      .error (.invalidArgument "byte range map contains destination gaps")
    else checkCoverage totalBytes (seg.dstOffset + seg.length) rest

def normalizeByteRangeMap (map : ByteRangeMap) : StatusOr ByteRangeMap := do
  validateTotalBytes map
  let filtered ← filterSegments map.numSources map.segments
  if map.totalBytes = 0 then
    .ok { map with segments := [] }
  else do
    let merged ← mergeSegments map.totalBytes [] (filtered.insertionSort dstLe)
    checkCoverage map.totalBytes 0 merged
    .ok { map with segments := merged }

/-! ## What a map denotes -/

/-- The origin of a destination byte: zero padding, or the byte at a 64-bit offset of a
source. -/
inductive Cell
  | pad
  | data (source : UInt32) (offset : UInt64)
deriving DecidableEq, Repr

namespace Cell

/-- The origin of the byte `n` positions further on in the same segment. -/
def advance : Cell → ℕ → Cell
  | .pad, _ => .pad
  | .data source offset, n => .data source (offset + UInt64.ofNat n)

@[simp] lemma advance_zero (c : Cell) : c.advance 0 = c := by
  cases c <;> simp [advance]

lemma advance_add (c : Cell) (m n : ℕ) : c.advance (m + n) = (c.advance m).advance n := by
  cases c <;> simp [advance, add_assoc]

end Cell

namespace ByteRangeSegment

/-- The destination interval of a segment. -/
def extent : Extent ByteRangeSegment where
  lo s := s.dstOffset.toNat
  hi s := s.dstOffset.toNat + s.length.toNat

@[simp] lemma extent_lo (s : ByteRangeSegment) : extent.lo s = s.dstOffset.toNat := rfl

@[simp] lemma extent_hi (s : ByteRangeSegment) :
    extent.hi s = s.dstOffset.toNat + s.length.toNat := rfl

def firstCell (s : ByteRangeSegment) : Cell :=
  match s.kind with
  | .pad => .pad
  | .data => .data s.sourceIndex s.srcOffset

def cell (s : ByteRangeSegment) (d : ℕ) : Cell := s.firstCell.advance (d - s.dstOffset.toNat)

end ByteRangeSegment

open ByteRangeSegment

namespace ByteRangeMap

def denote (map : ByteRangeMap) (d : ℕ) : Option Cell := extent.denote cell map.segments d

def live (map : ByteRangeMap) : List ByteRangeSegment :=
  map.segments.filter fun s => s.length ≠ 0

/-- An empty map, or one whose nonempty segments cover the destination exactly once and name existing
sources. -/
def Accepted (map : ByteRangeMap) : Prop :=
  (map.totalBytes = 0 ∧ map.segments = []) ∨
    (0 < map.totalBytes ∧ 0 < map.numSources ∧
      extent.Tiles 0 map.totalBytes.toNat map.live ∧
      ∀ s ∈ map.live, s.kind = .data → s.sourceIndex < map.numSources)

end ByteRangeMap

end TensorCast.ByteRange
