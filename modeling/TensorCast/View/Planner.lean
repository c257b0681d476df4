import TensorCast.ByteRange.Map

/-!
# The view planner

A canonical index says where each tensor of an artifact lies: the offset and size of its storage, its
shape, its strides and its storage offset.  A view spec narrows or transposes some of the tensors.
The planner turns the two into a byte-range map from the view to the artifact, a write plan for the
way back, and the transforms that permute dimensions.  Sums and products wrap as the code's do; the
span of a strided tensor is computed in 128 bits.
-/

namespace TensorCast.View

open Core ByteRange

def kAlignmentBytes : UInt64 := 8

/-- A tensor of an index.  An empty list of strides stands for compact strides. -/
structure CanonicalEntry where
  offset : UInt64 := 0
  sizeBytes : UInt64 := 0
  shape : List Int64 := []
  stride : List Int64 := []
  dtype : String := ""
  storageOffset : UInt64 := 0
deriving DecidableEq, Repr

structure NarrowOp where
  dim : Int32 := 0
  start : Int64 := 0
  length : UInt64 := 0
deriving DecidableEq, Repr

structure TransposeOp where
  dim0 : Int32 := 0
  dim1 : Int32 := 1
deriving DecidableEq, Repr

inductive ViewOp
  | narrow (op : NarrowOp)
  | transpose (op : TransposeOp)
deriving DecidableEq, Repr

/-- A `std::map` keyed by tensor names: its entries in the order of iteration. -/
structure NameMap (α : Type) where
  entries : List (String × α) := []
  nodup : (entries.map Prod.fst).Nodup := by decide

def NameMap.find {α : Type} (m : NameMap α) (name : String) : Option α := m.entries.lookup name

abbrev CanonicalIndex := NameMap CanonicalEntry

abbrev ViewSpec := NameMap (List ViewOp)

/-! ## Validation -/

/-- The kind of operation that `validate_ops` has seen so far. -/
inductive Mode
  | none
  | narrow
  | transpose
deriving DecidableEq

def validateOpsFrom : Mode → Bool → List ViewOp → StatusOr Unit
  | _, _, [] => .ok ()
  | mode, seenNarrow, .narrow _ :: rest =>
    if mode = .transpose then
      .error (.invalidArgument "mixing transpose and narrow in the same tensor is not supported")
    else if seenNarrow then
      .error (.invalidArgument "multiple narrow ops per tensor are not supported")
    else validateOpsFrom .narrow true rest
  | mode, seenNarrow, .transpose op :: rest =>
    if mode = .narrow then
      .error (.invalidArgument "mixing transpose and narrow in the same tensor is not supported")
    else if op.dim0 = op.dim1 then
      .error (.invalidArgument "transpose dims must be different")
    else validateOpsFrom .transpose seenNarrow rest

def validateOps (ops : List ViewOp) : StatusOr Unit := validateOpsFrom .none false ops

def validateSpec (index : CanonicalIndex) : List (String × List ViewOp) → StatusOr Unit
  | [] => .ok ()
  | (name, ops) :: rest =>
    if (index.find name).isNone then
      .error (.invalidArgument ("ViewSpec references unknown tensor: " ++ name))
    else do
      validateOps ops
      validateSpec index rest

def validateSubset (index : CanonicalIndex) : List String → StatusOr Unit
  | [] => .ok ()
  | name :: rest =>
    if (index.find name).isNone then
      .error (.invalidArgument ("View subset references unknown tensor: " ++ name))
    else validateSubset index rest

/-! ## Shapes -/

def dtypeSizes : List (String × UInt64) :=
  [("torch.float16", 2), ("torch.bfloat16", 2), ("torch.float8_e4m3fn", 1),
    ("torch.float8_e5m2", 1), ("torch.float32", 4), ("torch.float64", 8), ("torch.int8", 1),
    ("torch.uint8", 1), ("torch.int16", 2), ("torch.int32", 4), ("torch.int64", 8),
    ("torch.bool", 1), ("torch.float", 4), ("torch.double", 8)]

def dtypeElementSize (dtype : String) : StatusOr UInt64 :=
  match dtypeSizes.lookup dtype with
  | some size => .ok size
  | none => .error (.invalidArgument ("unsupported dtype in canonical index: " ++ dtype))

/-- `product` over a range of the extents, given as the list of that range. -/
def product : List Int64 → UInt64
  | [] => 1
  | v :: rest => if v ≤ 0 then 0 else v.toUInt64 * product rest

/-- The accumulator of `compute_compact_stride` in front of the given extents. -/
def strideAcc : List Int64 → Int64
  | [] => 1
  | n :: rest => n * strideAcc rest

def computeCompactStride : List Int64 → List Int64
  | [] => []
  | _ :: rest => strideAcc rest :: computeCompactStride rest

def CanonicalEntry.entryStride (entry : CanonicalEntry) : List Int64 :=
  if entry.stride = [] then computeCompactStride entry.shape else entry.stride

structure TensorStorageSpan where
  sourceByteOffset : UInt64
  normalizedStorageOffset : UInt64
  spanBytes : UInt64
deriving DecidableEq, Repr

/-- The value that an `__int128` holds after an operation with this result. -/
def i128 (x : ℤ) : ℤ := x.bmod (2 ^ 128)

/-- The loop of `compute_tensor_storage_span`: the relative positions of the first and last element,
or nothing for a tensor without elements. -/
def storageReach (tensorName : String) :
    List (Int64 × Int64) → ℤ → ℤ → StatusOr (Option (ℤ × ℤ))
  | [], minRelative, maxRelative => .ok (some (minRelative, maxRelative))
  | (dim, stride) :: rest, minRelative, maxRelative =>
    if dim < 0 then
      .error (.invalidArgument ("negative shape dimension for tensor " ++ tensorName))
    else if dim = 0 then .ok none
    else
      let lastStep := i128 ((dim - 1).toInt * stride.toInt)
      if lastStep < 0 then
        storageReach tensorName rest (i128 (minRelative + lastStep)) maxRelative
      else storageReach tensorName rest minRelative (i128 (maxRelative + lastStep))

def computeTensorStorageSpan (entry : CanonicalEntry) (stride : List Int64) (elementSize : UInt64)
    (tensorName : String) : StatusOr TensorStorageSpan :=
  if elementSize = 0 then .error (.invalidArgument "element size must be non-zero")
  else if entry.shape.length ≠ stride.length then
    .error (.invalidArgument ("shape/stride rank mismatch for tensor " ++ tensorName))
  else if entry.shape = [] then .ok ⟨entry.storageOffset, 0, elementSize⟩
  else
    match storageReach tensorName (entry.shape.zip stride) 0 0 with
    | .error status => .error status
    | .ok none => .ok ⟨entry.storageOffset, 0, 0⟩
    | .ok (some (minRelative, maxRelative)) =>
      let base : ℤ := entry.storageOffset.toNat
      let first := i128 (base + i128 (minRelative * elementSize.toNat))
      let last := i128 (base + i128 (maxRelative * elementSize.toNat))
      if first < 0 ∨ last < first then
        .error (.invalidArgument ("tensor storage span is out of bounds for tensor " ++ tensorName))
      else
        let spanBytes := i128 (i128 (last - first) + elementSize.toNat)
        if 2 ^ 64 ≤ first ∨ 2 ^ 64 ≤ spanBytes then
          .error (.outOfRange ("tensor storage span overflows for tensor " ++ tensorName))
        else .ok ⟨.ofInt first, .ofInt (i128 (base - first)), .ofInt spanBytes⟩

/-! ## Plans -/

def makeDataSegment (src dst len : UInt64) : ByteRangeSegment :=
  { kind := .data, srcOffset := src, dstOffset := dst, length := len, sourceIndex := 0 }

def makePadSegment (dst len : UInt64) : ByteRangeSegment :=
  { kind := .pad, srcOffset := 0, dstOffset := dst, length := len, sourceIndex := 0 }

structure TensorTransformPlan where
  tensorName : String
  dstOffset : UInt64 := 0
  canonicalOffset : UInt64 := 0
  storageOffsetElements : UInt64 := 0
  canonicalShape : List Int64 := []
  canonicalStride : List Int64 := []
  viewShape : List Int64 := []
  viewStride : List Int64 := []
  permutation : List ℕ := []
  dtype : String := ""
  elementSizeBytes : UInt64 := 0
deriving DecidableEq, Repr

structure TransformPlan where
  tensors : List TensorTransformPlan := []
  requiresMaterialization : Bool := false
deriving DecidableEq, Repr

structure SelectionPlan where
  map : ByteRangeMap
  isContiguous : Bool := false
  isSegmentAligned : Bool := false
  requiresMaterialization : Bool := false
deriving DecidableEq, Repr

/-- A plan for the bytes of a view.  `viewIndex` is the index that is written out as
`view_index_json`. -/
structure ViewPlan where
  isIdentity : Bool := true
  viewSizeBytes : UInt64 := 0
  viewIndex : List (String × CanonicalEntry) := []
  selection : SelectionPlan
  transform : TransformPlan := {}
deriving DecidableEq, Repr

structure WriteChunk where
  canonicalOffset : UInt64
  viewOffset : UInt64
  length : UInt64
  segmentAligned : Bool
deriving DecidableEq, Repr

structure BidirectionalViewPlan where
  forward : ViewPlan
  write : List WriteChunk := []
  inverseTransform : TransformPlan := {}
deriving DecidableEq, Repr

def isMultipleOf (value align : UInt64) : Bool :=
  if align = 0 then value = 0 else value % align = 0

/-- The loop of `finalize_selection_plan`: whether the destinations follow each other, the number of
data segments, and their alignment. -/
def selectionFlags : UInt64 → Bool → Bool → ℕ → List ByteRangeSegment → Bool × Bool × ℕ
  | _, contiguous, aligned, dataSegments, [] => (contiguous, aligned, dataSegments)
  | expectedDst, contiguous, aligned, dataSegments, seg :: rest =>
    let contiguous := contiguous && decide (seg.dstOffset = expectedDst)
    let expectedDst := seg.dstOffset + seg.length
    match seg.kind with
    | .pad => selectionFlags expectedDst contiguous aligned dataSegments rest
    | .data =>
      let aligned := aligned && isMultipleOf seg.srcOffset kAlignmentBytes &&
        isMultipleOf seg.length kAlignmentBytes
      selectionFlags expectedDst contiguous aligned (dataSegments + 1) rest

def finalizeSelectionPlan (map : ByteRangeMap) (requiresMaterialization : Bool) :
    StatusOr SelectionPlan := do
  let map ← normalizeByteRangeMap map
  let (contiguous, aligned, dataSegments) := selectionFlags 0 true true 0 map.segments
  let isContiguous := contiguous && decide (dataSegments ≤ 1)
  .ok { map, isContiguous, isSegmentAligned := isContiguous && aligned, requiresMaterialization }

def buildViewWritePlan (selection : SelectionPlan) : List WriteChunk :=
  (selection.map.segments.filter fun seg => seg.kind = .data).map fun seg =>
    { canonicalOffset := seg.srcOffset
      viewOffset := seg.dstOffset
      length := seg.length
      segmentAligned := isMultipleOf seg.srcOffset kAlignmentBytes &&
        isMultipleOf seg.length kAlignmentBytes }

/-- The loop of `compute_inverse_permutation` over a permutation of length `n`. -/
def inverseLoop (tensorName : String) (n : ℕ) :
    ℕ → List ℕ → List ℕ → List Bool → StatusOr (List ℕ)
  | _, [], inverse, _ => .ok inverse
  | idx, value :: rest, inverse, seen =>
    if n ≤ value then
      .error (.invalidArgument
        ("transpose permutation entry out of range for tensor " ++ tensorName))
    else if seen[value]? = some true then
      .error (.invalidArgument
        ("transpose permutation repeats dimension for tensor " ++ tensorName))
    else inverseLoop tensorName n (idx + 1) rest (inverse.set value idx) (seen.set value true)

def computeInversePermutation (permutation : List ℕ) (tensorName : String) :
    StatusOr (List ℕ) :=
  let n := permutation.length
  inverseLoop tensorName n 0 permutation (List.replicate n 0) (List.replicate n false)

def inverseTensorPlan (canonicalOffsets : List (String × UInt64)) (plan : TensorTransformPlan) :
    StatusOr TensorTransformPlan :=
  match canonicalOffsets.lookup plan.tensorName with
  | none => .error (.invalidArgument ("missing canonical offset for tensor " ++ plan.tensorName))
  | some offset => do
    let inverse ← computeInversePermutation plan.permutation plan.tensorName
    .ok { plan with dstOffset := offset, canonicalOffset := offset, permutation := inverse }

def inverseTensorPlans (canonicalOffsets : List (String × UInt64)) :
    List TensorTransformPlan → StatusOr (List TensorTransformPlan)
  | [] => .ok []
  | plan :: rest => do
    let inverse ← inverseTensorPlan canonicalOffsets plan
    let inverses ← inverseTensorPlans canonicalOffsets rest
    .ok (inverse :: inverses)

def buildInverseTransform (forward : TransformPlan) (canonicalOffsets : List (String × UInt64)) :
    StatusOr TransformPlan := do
  let tensors ← inverseTensorPlans canonicalOffsets forward.tensors
  .ok { tensors, requiresMaterialization := forward.requiresMaterialization }

/-! ## One tensor -/

/-- The segments appended for one tensor, the cursor behind them, its entry of the view, and the
transform that it needs. -/
structure TensorPlan where
  segments : List ByteRangeSegment
  cursor : UInt64
  view : CanonicalEntry
  hasTransform : Bool := false
  transform : Option TensorTransformPlan := none
deriving DecidableEq, Repr

/-- A tensor that the view leaves as it is: its storage, or with a subset the span of its
elements. -/
def planIdentity (subsetEnabled : Bool) (name : String) (entry : CanonicalEntry)
    (elementSize cursor : UInt64) (hasTransform : Bool) : StatusOr TensorPlan :=
  let view := { entry with offset := cursor, stride := entry.entryStride }
  if subsetEnabled then do
    let span ← computeTensorStorageSpan entry entry.entryStride elementSize name
    .ok { segments := [makeDataSegment (entry.offset + span.sourceByteOffset) cursor span.spanBytes]
          cursor := cursor + span.spanBytes
          view := { view with
            sizeBytes := span.spanBytes, storageOffset := span.normalizedStorageOffset }
          hasTransform }
  else
    .ok { segments := [makeDataSegment entry.offset cursor entry.sizeBytes]
          cursor := cursor + entry.sizeBytes
          view
          hasTransform }

/-- The extents in front of `dim`, from the inside out, with the strides that there are. -/
def outerDims (entry : CanonicalEntry) (dim : ℕ) : List (Int64 × Option Int64) :=
  ((entry.shape.take dim).zipIdx.map fun (n, i) => (n, entry.entryStride[i]?)).reverse

/-- The digits of an outer index, each times its stride. -/
def prefixElements (name : String) :
    List (Int64 × Option Int64) → UInt64 → UInt64 → StatusOr UInt64
  | [], _, elements => .ok elements
  | (n, stride) :: rest, tmp, elements =>
    let extent := n.toUInt64
    if extent = 0 then prefixElements name rest tmp elements
    else
      match stride with
      | none => .error (.invalidArgument ("stride missing for tensor " ++ name))
      | some s =>
        prefixElements name rest (tmp / extent) (elements + s.toUInt64 * (tmp % extent))

/-- The numbers of a narrow that selects a part of its dimension. -/
structure NarrowBlocks where
  name : String
  entry : CanonicalEntry
  dim : ℕ
  /-- The start, counted from the front. -/
  start : Int64
  length : Int64
  elementSize : UInt64
deriving DecidableEq, Repr

namespace NarrowBlocks

def inner (b : NarrowBlocks) : UInt64 := product (b.entry.shape.drop (b.dim + 1))

def outer (b : NarrowBlocks) : UInt64 := product (b.entry.shape.take b.dim)

def blockBytes (b : NarrowBlocks) : UInt64 := b.length.toUInt64 * b.inner * b.elementSize

def strideDim (b : NarrowBlocks) : UInt64 :=
  match b.entry.entryStride[b.dim]? with
  | some s => s.toUInt64
  | none => b.inner

def outerCount (b : NarrowBlocks) : UInt64 := max 1 b.outer

def outerElements (b : NarrowBlocks) (outerIndex : UInt64) : StatusOr UInt64 :=
  if 1 < b.outerCount then prefixElements b.name (outerDims b.entry b.dim) outerIndex 0 else .ok 0

def byteOffset (b : NarrowBlocks) (outerIndex : UInt64) : StatusOr UInt64 := do
  let elements ← b.outerElements outerIndex
  let startElements := elements + b.start.toUInt64 * b.strideDim
  .ok (b.entry.offset + b.entry.storageOffset + startElements * b.elementSize)

/-- The loop over the outer indices, with the number of rounds that are left. -/
def segments (b : NarrowBlocks) : ℕ → UInt64 → UInt64 → StatusOr (List ByteRangeSegment × UInt64)
  | 0, _, cursor => .ok ([], cursor)
  | rounds + 1, outerIndex, cursor => do
    let byteOffset ← b.byteOffset outerIndex
    let (rest, cursor') ← b.segments rounds (outerIndex + 1) (cursor + b.blockBytes)
    .ok (makeDataSegment byteOffset cursor b.blockBytes :: rest, cursor')

def viewShape (b : NarrowBlocks) : List Int64 := b.entry.shape.set b.dim b.length

def plan (b : NarrowBlocks) (cursor : UInt64) : StatusOr TensorPlan := do
  let (segments, cursor') ← b.segments b.outerCount.toNat 0 cursor
  .ok { segments
        cursor := cursor'
        view := { offset := cursor, sizeBytes := b.blockBytes * b.outerCount, shape := b.viewShape,
                  stride := computeCompactStride b.viewShape, dtype := b.entry.dtype,
                  storageOffset := 0 }
        hasTransform := true }

end NarrowBlocks

/-- The start of a narrow, counted from the front of the dimension. -/
def normalizedStart (start dimExtent : Int64) : Int64 :=
  if start < 0 then start + dimExtent else start

def planNarrow (subsetEnabled : Bool) (name : String) (entry : CanonicalEntry)
    (narrow : NarrowOp) (rest : List ViewOp) (elementSize cursor : UInt64) :
    StatusOr TensorPlan :=
  if narrow.length = 0 then
    .error (.invalidArgument ("narrow length must be > 0 for tensor " ++ name))
  else if narrow.dim < 0 ∨ Int32.ofNat entry.shape.length ≤ narrow.dim then
    .error (.invalidArgument ("narrow dim out of range for tensor " ++ name))
  else if rest ≠ [] then
    .error (.invalidArgument ("multiple narrow ops per tensor are not supported: " ++ name))
  else
    let dim := narrow.dim.toNatClampNeg
    let dimExtent := entry.shape.getD dim 0
    if dimExtent ≤ 0 then
      .error (.invalidArgument ("invalid dimension extent in canonical index for tensor " ++ name))
    else if Int64.maxValue.toUInt64 < narrow.length then
      .error (.invalidArgument "narrow length exceeds supported range")
    else
      let start := normalizedStart narrow.start dimExtent
      if start < 0 ∨ dimExtent ≤ start then
        .error (.invalidArgument ("narrow start out of range for tensor " ++ name))
      else
        let length := narrow.length.toInt64
        if dimExtent < start + length then
          .error (.invalidArgument ("narrow length exceeds dimension for tensor " ++ name))
        else if start = 0 ∧ length = dimExtent then
          planIdentity subsetEnabled name entry elementSize cursor false
        else NarrowBlocks.plan { name, entry, dim, start, length, elementSize } cursor

def swapEntries (permutation : List ℕ) (i j : ℕ) : List ℕ :=
  (permutation.set i (permutation.getD j 0)).set j (permutation.getD i 0)

def applyTransposes (name : String) : List ViewOp → List ℕ → StatusOr (List ℕ)
  | [], permutation => .ok permutation
  | .narrow _ :: _, _ =>
    .error (.invalidArgument "mixed operations per tensor are not supported")
  | .transpose op :: rest, permutation =>
    let rank := Int32.ofNat permutation.length
    if op.dim0 < 0 ∨ op.dim1 < 0 ∨ rank ≤ op.dim0 ∨ rank ≤ op.dim1 then
      .error (.invalidArgument ("transpose dims out of range for tensor " ++ name))
    else
      applyTransposes name rest
        (swapEntries permutation op.dim0.toNatClampNeg op.dim1.toNatClampNeg)

def planTranspose (subsetEnabled : Bool) (name : String) (entry : CanonicalEntry)
    (ops : List ViewOp) (elementSize cursor : UInt64) : StatusOr TensorPlan := do
  let permutation ← applyTransposes name ops (List.range entry.shape.length)
  if permutation = List.range permutation.length then
    planIdentity subsetEnabled name entry elementSize cursor true
  else
    let viewShape := permutation.map fun p => entry.shape.getD p 0
    let viewStride := computeCompactStride viewShape
    if entry.storageOffset % elementSize ≠ 0 then
      .error (.invalidArgument ("storage_offset must be element-size aligned for tensor " ++ name))
    else
      .ok { segments := [makeDataSegment entry.offset cursor entry.sizeBytes]
            cursor := cursor + entry.sizeBytes
            view := { entry with
              offset := cursor, shape := viewShape, stride := viewStride, storageOffset := 0 }
            hasTransform := true
            transform := some {
              tensorName := name
              dstOffset := cursor
              canonicalOffset := entry.offset
              storageOffsetElements := entry.storageOffset / elementSize
              canonicalShape := entry.shape
              canonicalStride := entry.entryStride
              viewShape, viewStride, permutation
              dtype := entry.dtype
              elementSizeBytes := elementSize } }

def planTensor (subsetEnabled : Bool) (name : String) (entry : CanonicalEntry)
    (ops : List ViewOp) (cursor : UInt64) : StatusOr TensorPlan := do
  let elementSize ← dtypeElementSize entry.dtype
  match ops with
  | [] => planIdentity subsetEnabled name entry elementSize cursor false
  | .narrow narrow :: rest =>
    planNarrow subsetEnabled name entry narrow rest elementSize cursor
  | .transpose _ :: _ => planTranspose subsetEnabled name entry ops elementSize cursor

/-! ## All tensors -/

/-- The variables of the planner's loop.  `views` holds the offset, size and meta data of each
planned tensor. -/
structure PlanState where
  cursor : UInt64 := 0
  segments : List ByteRangeSegment := []
  views : List (String × CanonicalEntry) := []
  canonicalOffsets : List (String × UInt64) := []
  transforms : List TensorTransformPlan := []
  hasTransform : Bool := false
deriving DecidableEq, Repr

namespace PlanState

/-- Pads the view up to the next aligned offset. -/
def align (st : PlanState) : PlanState :=
  let alignedStart := (st.cursor + (kAlignmentBytes - 1)) / kAlignmentBytes * kAlignmentBytes
  if st.cursor < alignedStart then
    { st with
      segments := st.segments ++ [makePadSegment st.cursor (alignedStart - st.cursor)]
      cursor := alignedStart }
  else st

def push (st : PlanState) (name : String) (canonicalOffset : UInt64) (p : TensorPlan) :
    PlanState where
  cursor := p.cursor
  segments := st.segments ++ p.segments
  views := st.views ++ [(name, p.view)]
  canonicalOffsets := st.canonicalOffsets ++ [(name, canonicalOffset)]
  transforms := st.transforms ++ p.transform.toList
  hasTransform := st.hasTransform || p.hasTransform

end PlanState

def planNames (index : CanonicalIndex) (spec : ViewSpec) (subsetEnabled : Bool) :
    List String → PlanState → StatusOr PlanState
  | [], st => .ok st
  | name :: rest, st =>
    match index.find name with
    | none => planNames index spec subsetEnabled rest st
    | some entry => do
      let st := st.align
      let ops := (spec.find name).getD []
      let p ← planTensor subsetEnabled name entry ops st.cursor
      planNames index spec subsetEnabled rest (st.push name entry.offset p)

/-- The names without those that were seen before. -/
def firstOccurrences : List String → List String → List String
  | _, [] => []
  | seen, name :: rest =>
    if name ∈ seen then firstOccurrences seen rest
    else name :: firstOccurrences (name :: seen) rest

def orderedNames (index : CanonicalIndex) (subsetNames : List String) : List String :=
  if subsetNames = [] then index.entries.map Prod.fst else firstOccurrences [] subsetNames

/-- The checks of the spec and the loop over the tensors. -/
def planViews (index : CanonicalIndex) (spec : ViewSpec) (subsetNames : List String) :
    StatusOr PlanState := do
  validateSpec index spec.entries
  validateSubset index subsetNames
  planNames index spec (subsetNames ≠ []) (orderedNames index subsetNames) {}

/-- The raw map of the planner's loop. -/
def PlanState.map (st : PlanState) : ByteRangeMap :=
  { totalBytes := st.cursor, numSources := 1, segments := st.segments }

def computeBidirectionalInternal (index : CanonicalIndex) (spec : ViewSpec)
    (subsetNames : List String) : StatusOr BidirectionalViewPlan := do
  let st ← planViews index spec subsetNames
  let requiresMaterialization := decide (st.transforms ≠ [])
  let selection ← finalizeSelectionPlan st.map requiresMaterialization
  let isIdentity := !st.hasTransform && decide (subsetNames = [])
  let transform : TransformPlan := { tensors := st.transforms, requiresMaterialization }
  let forward : ViewPlan :=
    { isIdentity
      viewSizeBytes := st.cursor
      viewIndex := if isIdentity then index.entries else st.views
      selection, transform }
  let inverseTransform ← buildInverseTransform transform st.canonicalOffsets
  .ok { forward, write := buildViewWritePlan selection, inverseTransform }

end TensorCast.View
