import TensorCast.View.Narrow

/-!
# The planner's narrows

A narrow of a part of its dimension is right exactly if the strides from that dimension on are
compact, no extent is zero (or the surplus block is empty) and nothing passes `2 ^ 64`.  A narrow of
the whole dimension is right exactly if the elements of the tensor lie in its storage.  The planner
checks none of this, and its check of `start + length` wraps.
-/

namespace TensorCast.View

open Core Lib ByteRange CanonicalEntry List

/-! ## A narrow of the whole dimension -/

section Kept

variable {subset : Bool} {name : String} {entry : CanonicalEntry} {op : NarrowOp}
  {extent start : Int64} {es cursor : UInt64} {p : TensorPlan} {map : ByteRangeMap}
  {hasTransform : Bool} {c : ℤ}

lemma bytes_of_isFull (hacc : AcceptedNarrow entry op extent start) (hfull : op.IsFull entry) :
    op.bytes entry = entry.bytes := by
  have hget : entry.extents[op.dimension]? = some op.length.toNat := by
    have hext := hacc.extent_eq
    rw [extents, getElem?_map, NarrowOp.dimension, hext, Option.map_some,
      hacc.toInt_extent, ← hfull.2, Int.toNat_natCast]
  have hset : entry.extents.set op.dimension op.length.toNat = entry.extents := by
    obtain ⟨h, hget⟩ := List.getElem?_eq_some_iff.mp hget
    rw [← hget, set_getElem_self]
  rw [NarrowOp.bytes, hset, NarrowOp.narrowBase, hfull.1, bytes]
  simp

variable {view : CanonicalEntry}

lemma viewOrder_kept {entry : CanonicalEntry} {offset size so : UInt64} (hview : view =
      { entry with offset, sizeBytes := size, stride := entry.entryStride, storageOffset := so }) :
    viewOrder view = elementBytes entry.elementSize so.toNat entry.extents entry.strides := by
  subst hview
  have hidem : entryStride { entry with stride := entry.entryStride } = entry.entryStride := by
    rw [entryStride, entryStride]
    split_ifs <;> simp_all
  exact congrArg _ (congrArg _ hidem)

lemma map_selected_eq {src dst len : UInt64} (hsrc : src = UInt64.ofInt c) :
    (([makeDataSegment src dst len].flatMap selected).map fun a => some (Cell.data 0 a)) =
      (List.range len.toNat).map fun k : ℕ => some (.data 0 (UInt64.ofInt (c + k))) := by
  rw [flatMap_singleton, selected, makeDataSegment, map_map]
  refine map_congr_left fun k _ => ?_
  rw [Function.comp_apply, hsrc, ofNat_eq_ofInt, UInt64.ofInt_add]

lemma map_selected_self {src dst len : UInt64} :
    (([makeDataSegment src dst len].flatMap selected).map fun a => some (Cell.data 0 a)) =
      (List.range len.toNat).map fun k : ℕ => some (.data 0 (UInt64.ofInt (src.toNat + k))) :=
  map_selected_eq (ofInt_toNat _).symm

lemma shows_of_mem_range {n k : ℕ} (h0 : 0 ≤ c) (hend : c + n ≤ 2 ^ 64) (hk : k < n) :
    Shows (some (.data 0 (UInt64.ofInt (c + k)))) (c + k) :=
  shows_ofInt_iff.mpr ⟨rfl, by omega, by omega⟩

lemma reads_of_segment {part : List (Option Cell)} {n : ℕ}
    (hpart : part = (List.range n).map fun k : ℕ => some (.data 0 (UInt64.ofInt (c + k))))
    (h0 : 0 ≤ c) (hend : c + n ≤ 2 ^ 64) {order : List ℤ} (horder : ∀ q ∈ order, 0 ≤ q ∧ q < n) :
    List.Forall₂ (fun q t => 0 ≤ q ∧ ∃ cell, part[q.toNat]? = some cell ∧ Shows cell t) order
      (order.map (c + ·)) := by
  rw [forall₂_map_right_iff, forall₂_same]
  intro q hq
  obtain ⟨hq0, _⟩ := horder q hq
  have hk : q.toNat < n := by omega
  have hshow := shows_of_mem_range h0 hend hk
  rw [Int.toNat_of_nonneg hq0] at hshow
  refine ⟨hq0, _, ?_, hshow⟩
  rw [hpart, getElem?_map, getElem?_range hk, Option.map_some, Int.toNat_of_nonneg hq0]

/-- What the planner gets right about a kept tensor, by the segment that it selects. -/
lemma narrowSelects_of_segment {n : ℕ}
    (hsound : NarrowSound subset entry op) (hfull : op.IsFull entry)
    (hpart : viewPart map view =
      (List.range n).map fun k : ℕ => some (.data 0 (UInt64.ofInt (c + k))))
    (h0 : 0 ≤ c) (hend : c + n ≤ 2 ^ 64) (horder : ∀ q ∈ viewOrder view, 0 ≤ q ∧ q < n)
    (hbytes : op.bytes entry = (viewOrder view).map (c + ·))
    (hin : ∀ k : ℕ, k < n → entry.InStorage (c + k)) : NarrowSelects entry op map view where
  isTensor := hsound.isTensor
  within := hsound.within
  inStorage cell hcell := by
    rw [hpart] at hcell
    obtain ⟨k, hk, rfl⟩ := mem_map.mp hcell
    have hk := mem_range.mp hk
    exact ⟨c + k, shows_of_mem_range h0 hend hk, hin k hk⟩
  elements hnot := absurd hfull hnot
  kept _ := by
    rw [hbytes]
    exact reads_of_segment hpart h0 hend horder

lemma NarrowSelects.inStorage_of_shows {cell : Option Cell} {t : ℤ}
    (h : NarrowSelects entry op map view) (hcell : cell ∈ viewPart map view)
    (hshow : Shows cell t) : entry.InStorage t ∧ t < 2 ^ 64 := by
  obtain ⟨_, hshow', hin⟩ := h.inStorage cell hcell
  obtain rfl := hshow.eq hshow'
  obtain ⟨a, -, rfl⟩ := hshow
  exact ⟨hin, by exact_mod_cast a.toNat_lt⟩

lemma fits_of_kept (h : NarrowSelects entry op map view)
    (hfull : op.IsFull entry) : ∀ t ∈ op.bytes entry, entry.InStorage t ∧ t < 2 ^ 64 := by
  intro t ht
  obtain ⟨k, hk⟩ := mem_iff_getElem?.mp ht
  have hreads := forall₂_iff_getElem?.mp (h.kept hfull)
  have hlt : k < (viewOrder view).length := by
    rw [hreads.1]
    exact (List.getElem?_eq_some_iff.mp hk).1
  obtain ⟨-, _, hcell, hshow⟩ := hreads.2 k _ t (getElem?_eq_getElem hlt) hk
  exact h.inStorage_of_shows (mem_of_getElem? hcell) hshow

lemma planIdentity_storage (hp : planIdentity false name entry es cursor hasTransform = .ok p) :
    p.segments = [makeDataSegment entry.offset cursor entry.sizeBytes] ∧
      viewOrder p.view =
        elementBytes entry.elementSize entry.storageOffset.toNat entry.extents entry.strides := by
  cases hp
  exact ⟨rfl, viewOrder_kept rfl⟩

lemma planIdentity_span (hp : planIdentity true name entry es cursor hasTransform = .ok p) :
    ∃ span, computeTensorStorageSpan entry entry.entryStride es name = .ok span ∧
      p.segments = [makeDataSegment (entry.offset + span.sourceByteOffset) cursor span.spanBytes] ∧
      viewOrder p.view = elementBytes entry.elementSize span.normalizedStorageOffset.toNat
        entry.extents entry.strides := by
  obtain ⟨span, hspan, hp⟩ := bind_eq_ok.mp hp
  cases hp
  exact ⟨span, hspan, rfl, viewOrder_kept rfl⟩

section

variable (hpart : viewPart map p.view =
  (p.segments.flatMap selected).map fun a => some (.data 0 a)) (hfull : op.IsFull entry)

include hpart hfull

lemma kept_of_storage (h : NarrowSound false entry op) (hbytes : op.bytes entry = entry.bytes)
    (hp : planIdentity false name entry es cursor false = .ok p) :
    NarrowSelects entry op map p.view := by
  have hend := h.storage hfull rfl
  obtain ⟨hsegs, horder⟩ := planIdentity_storage hp
  rw [hsegs, map_selected_self] at hpart
  have hmap : op.bytes entry = (viewOrder p.view).map ((entry.offset.toNat : ℤ) + ·) := by
    rw [hbytes, horder, ← elementBytes_add]
    rfl
  refine narrowSelects_of_segment h hfull hpart (by omega) (by exact_mod_cast hend) ?_ hmap
    fun k hk => ⟨by omega, by omega⟩
  intro q hq
  have := h.fits _ (hmap ▸ mem_map_of_mem hq)
  rw [CanonicalEntry.InStorage] at this
  omega

lemma kept_of_span (h : NarrowSound true entry op) (hbytes : op.bytes entry = entry.bytes)
    (hes : es.toNat = entry.elementSize) (hes0 : 0 < entry.elementSize)
    (hp : planIdentity true name entry es cursor false = .ok p) :
    NarrowSelects entry op map p.view := by
  obtain ⟨span, hspan, hsegs, horder⟩ := planIdentity_span hp
  by_cases hzero : entry.extents.prod = 0
  · -- a tensor without elements selects nothing
    have hlen : ∀ base, elementBytes entry.elementSize base entry.extents entry.strides = [] :=
      fun base => eq_nil_of_length_eq_zero (by rw [length_elementBytes, hzero, zero_mul])
    rw [hsegs, spanBytes_eq_zero hspan hzero, map_selected_self] at hpart
    refine narrowSelects_of_segment h hfull hpart (by omega) ?_ ?_ ?_ fun k hk => ?_
    · have := (entry.offset + span.sourceByteOffset).toNat_lt
      simp only [UInt64.toNat_zero]
      omega
    · rw [horder, hlen]
      simp
    · rw [horder, hlen, hbytes, bytes, hlen, map_nil]
    · simp at hk
  · have hfits : ∀ t ∈ entry.bytes, entry.InStorage t ∧ t < 2 ^ 64 := hbytes ▸ h.fits
    have hpos := entry.extents_pos hzero
    have hrank := h.isTensor.length_strides
    -- the first and the last byte of the span belong to elements
    have hlow := hfits _ (mem_elementBytes.mpr ⟨_, lowest_mem hrank hpos, 0, hes0, rfl⟩)
    have hhigh := hfits _ (mem_elementBytes.mpr ⟨_, highest_mem hrank hpos,
      entry.elementSize - 1, by omega, rfl⟩)
    rw [CanonicalEntry.InStorage, base] at hlow hhigh
    obtain ⟨hfirst, hnorm, _⟩ := computeTensorStorageSpan_eq hspan hzero
      (by rw [← CanonicalEntry.strides, hes]) (by rw [← CanonicalEntry.strides, hes]) (by omega)
    have hsrc : entry.offset + span.sourceByteOffset =
        UInt64.ofInt ((entry.offset.toNat : ℤ) + span.sourceByteOffset.toNat) := by
      rw [UInt64.ofInt_add, ofInt_toNat, ofInt_toNat]
    rw [hsegs, map_selected_eq hsrc] at hpart
    have hmap : op.bytes entry = (viewOrder p.view).map
        ((entry.offset.toNat : ℤ) + span.sourceByteOffset.toNat + ·) := by
      rw [hbytes, horder, ← elementBytes_add, bytes, base, hfirst, hnorm]
      ring
    refine narrowSelects_of_segment h hfull hpart (by omega) (by omega) ?_ hmap
      fun k hk => ⟨by omega, by omega⟩
    intro q hq
    rw [horder] at hq
    obtain ⟨a, ha, b, _, rfl⟩ := mem_elementBytes.mp hq
    obtain ⟨hlo, hhi⟩ := addrs_bounds ha hrank
    have hE : (0 : ℤ) ≤ entry.elementSize := Int.natCast_nonneg _
    have hloE := mul_le_mul_of_nonneg_right hlo hE
    have hhiE := mul_le_mul_of_nonneg_right hhi hE
    omega

/-- **A narrow of the whole dimension.** -/
lemma kept_iff (hacc : AcceptedNarrow entry op extent start)
    (hes : es.toNat = entry.elementSize) (hes0 : 0 < entry.elementSize)
    (hp : planIdentity subset name entry es cursor false = .ok p) :
    NarrowSelects entry op map p.view ↔ NarrowSound subset entry op := by
  have hbytes := bytes_of_isFull hacc hfull
  constructor
  · intro h
    refine ⟨h.isTensor, h.within, fits_of_kept h hfull, fun _ hsub => ?_, (absurd hfull ·),
      (absurd hfull ·), (absurd hfull ·)⟩
    -- the last byte of the storage is selected, and shows an address behind the offset
    subst hsub
    rw [(planIdentity_storage hp).1, map_selected_self] at hpart
    by_contra hover
    have hoff := entry.offset.toNat_lt
    obtain ⟨t, hshow, hin⟩ := h.inStorage _ (by
      rw [hpart]
      exact mem_map.mpr ⟨entry.sizeBytes.toNat - 1, mem_range.mpr (by omega), rfl⟩)
    obtain ⟨hmod, -, _⟩ := shows_ofInt_iff.mp hshow
    have hsize := entry.sizeBytes.toNat_lt
    rw [CanonicalEntry.InStorage] at hin
    rw [Int.ModEq] at hmod
    omega
  · intro h
    cases subset with
    | false => exact kept_of_storage hpart hfull h hbytes hp
    | true => exact kept_of_span hpart hfull h hbytes hes hes0 hp

end

end Kept

/-! ## A narrow of a part of the dimension -/

section Proper

variable {subset : Bool} {name : String} {entry : CanonicalEntry} {op : NarrowOp}
  {extent start : Int64} {es cursor : UInt64} {p : TensorPlan} {map : ByteRangeMap}

section

variable (hacc : AcceptedNarrow entry op extent start)

include hacc

lemma bytes_eq_nil (hzero : entry.extents.prod = 0) : op.bytes entry = [] := by
  have hextent := hacc.getD_extents
  have hpos := hacc.extent_pos'
  rw [eq_take_append_getD_cons_drop hacc.dimension_lt_extents 0, prod_append, prod_cons] at hzero
  refine eq_nil_of_length_eq_zero ?_
  rw [length_bytes op hacc.dimension_lt, prod_blockShape]
  rcases mul_eq_zero.mp hzero with h | h
  · rw [h, zero_mul]
  · rw [(mul_eq_zero.mp h).resolve_left (by omega)]
    ring

lemma shows_proper_iff (ht : entry.IsTensor) (hes : es.toNat = entry.elementSize)
    (hes0 : 0 < entry.elementSize) (hp : (narrowBlocks name entry op start es).plan cursor = .ok p)
    (hsmall : totalLength p.segments < 2 ^ 64) :
    List.Forall₂ Shows ((p.segments.flatMap selected).map fun a => some (.data 0 a))
      (op.bytes entry) ↔
    (entry.extents.prod = 0 → 2 ^ 64 ∣ (op.blockShape entry).prod) ∧
      (op.bytes entry).length < 2 ^ 64 ∧
      (entry.extents.prod ≠ 0 → CompactMod (2 ^ 64) (op.blockShape entry) (op.blockStride entry)) ∧
      ∀ t ∈ op.bytes entry, 0 ≤ t ∧ t < 2 ^ 64 := by
  obtain ⟨⟨segs, c⟩, hsegs, hp⟩ := bind_eq_ok.mp hp
  cases hp
  by_cases hzero : entry.extents.prod = 0
  · -- no element is meant, and the blocks are as long as one of them says
    have hcount : 0 < (narrowBlocks name entry op start es).outerCount.toNat := by
      rw [NarrowBlocks.outerCount, UInt64.toNat_max]
      exact lt_of_lt_of_le one_pos (le_max_left _ _)
    have hlength : (segs.flatMap selected).length =
        (narrowBlocks name entry op start es).outerCount.toNat *
          ((op.blockShape entry).prod % 2 ^ 64) := by
      rw [length_flatMap_selected, (NarrowBlocks.segments_regular hsegs).2.2,
        toNat_blockBytes name hacc ht hes]
    rw [bytes_eq_nil hacc hzero, forall₂_nil_right_iff, map_eq_nil_iff, ← length_eq_zero_iff]
    rw [hlength, mul_eq_zero]
    simp only [forall_const, false_implies, length_nil, not_mem_nil, and_true]
    omega
  · refine (shows_blocks_iff hacc ht hes hes0 hzero hsegs hsmall).trans ?_
    simp [hzero]

lemma proper_iff (hnot : ¬ op.IsFull entry)
    (hes : es.toNat = entry.elementSize) (hes0 : 0 < entry.elementSize)
    (hp : (narrowBlocks name entry op start es).plan cursor = .ok p)
    (hpart : viewPart map p.view = (p.segments.flatMap selected).map fun a => some (.data 0 a))
    (hsmall : totalLength p.segments < 2 ^ 64) :
    NarrowSelects entry op map p.view ↔ NarrowSound subset entry op := by
  have hiff := fun ht => shows_proper_iff hacc ht hes hes0 hp hsmall
  rw [← hpart] at hiff
  constructor
  · intro h
    have hshow := h.elements hnot
    obtain ⟨hempty, hcount, hcompact, -⟩ := (hiff h.isTensor).mp hshow
    refine ⟨h.isTensor, h.within, fun t hmem => ?_, fun hfull => absurd hfull hnot,
      fun _ => hempty, fun _ => hcount, fun _ => hcompact⟩
    obtain ⟨cell, hcell, hshows⟩ := exists_of_forall₂ hshow.flip hmem
    exact h.inStorage_of_shows hcell hshows
  · intro h
    have hshow := (hiff h.isTensor).mpr ⟨h.empty hnot, h.count hnot, h.compact hnot,
      fun t hmem => ⟨(Int.natCast_nonneg _).trans (h.fits t hmem).1.1, (h.fits t hmem).2⟩⟩
    refine ⟨h.isTensor, h.within, fun cell hcell => ?_, fun _ => hshow,
      fun hfull => absurd hfull hnot⟩
    obtain ⟨t, hmem, hshows⟩ := exists_of_forall₂ hshow hcell
    exact ⟨t, hshows, (h.fits t hmem).1⟩

end

end Proper

/-! ## All narrows -/

def PlannedNarrow (subset : Bool) (name : String) (entry : CanonicalEntry) (op : NarrowOp)
    (view : CanonicalEntry) (part : List (Option Cell)) : Prop :=
  ∃ (es : UInt64) (extent start : Int64) (cursor : UInt64) (p : TensorPlan), p.view = view ∧
    es.toNat = entry.elementSize ∧ 0 < entry.elementSize ∧
    AcceptedNarrow entry op extent start ∧ totalLength p.segments < 2 ^ 64 ∧
    (part = (p.segments.flatMap selected).map fun a => some (.data 0 a)) ∧
    ((op.IsFull entry ∧ planIdentity subset name entry es cursor false = .ok p) ∨
      (¬ op.IsFull entry ∧ (narrowBlocks name entry op start es).plan cursor = .ok p))

section

variable {index : CanonicalIndex} {spec : ViewSpec} {subsetNames : List String} {st : PlanState}
  {plan : BidirectionalViewPlan} {name : String} {entry view : CanonicalEntry} {op : NarrowOp}
  {rest : List ViewOp} (hst : planViews index spec subsetNames = .ok st)
  (hplan : computeBidirectionalInternal index spec subsetNames = .ok plan)
  (hentry : index.find name = some entry) (hops : spec.find name = some (.narrow op :: rest))
  (hview : (name, view) ∈ st.views)

include hst hplan hentry hops hview

lemma planned_narrow :
    PlannedNarrow (subsetNames ≠ []) name entry op view
      (viewPart plan.forward.selection.map view) := by
  obtain ⟨st', _, hst', hlaid, hmap, -⟩ := computeBidirectional_cases hplan
  obtain rfl : st = st' := Except.ok.inj (hst.symm.trans hst')
  rw [hlaid.views, mem_map] at hview
  obtain ⟨t, ht, hview⟩ := hview
  cases hview
  obtain ⟨hfind, htops, hp⟩ := hlaid.planned ht
  obtain ⟨hsmall, hpart⟩ := hlaid.viewPart_eq hmap ht
  rw [hentry] at hfind
  cases hfind
  rw [hops] at htops
  rw [htops] at hp
  obtain ⟨es, hes, hp⟩ := bind_eq_ok.mp hp
  obtain ⟨hes, hes0⟩ := dtypeElementSize_eq_ok hes
  obtain ⟨extent, start, hacc, hcases⟩ := planNarrow_cases hp
  refine ⟨es, extent, start, t.cursor, t.plan, rfl, hes, hes0, hacc, hsmall, hpart, ?_⟩
  rw [hacc.isFull_iff]
  rcases hcases with ⟨hstart, hlen, hp⟩ | ⟨hnot, hp⟩
  · exact .inl ⟨⟨hstart, hlen⟩, hp⟩
  · exact .inr ⟨hnot, hp⟩

/-- **Which narrows select the right elements.**  For every index, spec and subset that the planner
accepts, and every tensor that the spec narrows, the plan is right exactly under `NarrowSound`. -/
theorem narrow_selects_iff_sound :
    NarrowSelects entry op plan.forward.selection.map view ↔
      NarrowSound (subsetNames ≠ []) entry op := by
  obtain ⟨_, _, _, _, p, rfl, hes, hes0, hacc, hsmall, hpart, hcases⟩ :=
    planned_narrow hst hplan hentry hops hview
  rcases hcases with ⟨hfull, hp⟩ | ⟨hnot, hp⟩
  · exact kept_iff hpart hfull hacc hes hes0 hp
  · exact proper_iff hacc hnot hes hes0 hp hpart hsmall

end

/-! ## Two narrows that go wrong, and one that does not -/

def oneTensor (entry : CanonicalEntry) : CanonicalIndex where
  entries := [("t", entry)]
  nodup := by simp

def oneNarrow (op : NarrowOp) : ViewSpec where
  entries := [("t", [.narrow op])]
  nodup := by simp

/-- Four rows of two columns, stored column by column. -/
def columnMajor : CanonicalEntry :=
  { sizeBytes := 8, shape := [4, 2], stride := [1, 4], dtype := "torch.uint8" }

def firstRows : NarrowOp := { dim := 0, start := 0, length := 2 }

/-- No rows of four columns. -/
def noRows : CanonicalEntry := { shape := [0, 4], dtype := "torch.uint8" }

def firstColumns : NarrowOp := { dim := 1, start := 0, length := 2 }

/-- The first two rows of a tensor that is stored by columns: the bytes 0, 4, 1, 5 are meant, and 0, 1,
2, 3 selected.  Two columns of a tensor without rows: no byte is meant, and two bytes that are not the
tensor's are selected. -/
theorem narrow_selects_wrong_bytes :
    (∃ st plan view, planViews (oneTensor columnMajor) (oneNarrow firstRows) [] = .ok st ∧
      computeBidirectionalInternal (oneTensor columnMajor) (oneNarrow firstRows) [] = .ok plan ∧
      st.views = [("t", view)] ∧ firstRows.bytes columnMajor = [0, 4, 1, 5] ∧
      viewPart plan.forward.selection.map view =
        [some (.data 0 0), some (.data 0 1), some (.data 0 2), some (.data 0 3)] ∧
      ¬ NarrowSelects columnMajor firstRows plan.forward.selection.map view) ∧
    ∃ st plan view, planViews (oneTensor noRows) (oneNarrow firstColumns) [] = .ok st ∧
      computeBidirectionalInternal (oneTensor noRows) (oneNarrow firstColumns) [] = .ok plan ∧
      st.views = [("t", view)] ∧ firstColumns.bytes noRows = [] ∧
      viewPart plan.forward.selection.map view = [some (.data 0 0), some (.data 0 1)] ∧
      ¬ NarrowSelects noRows firstColumns plan.forward.selection.map view := by
  refine ⟨⟨_, _, _, rfl, rfl, rfl, by decide, by decide, fun h => ?_⟩,
    ⟨_, _, _, rfl, rfl, rfl, by decide, by decide, fun h => ?_⟩⟩
  · have hshow := h.elements (by unfold NarrowOp.IsFull; decide)
    obtain ⟨a, ha, hat⟩ :=
      (forall₂_iff_getElem?.mp hshow).2 1 (some (.data 0 1)) 4 (by decide) (by decide)
    cases ha
    exact absurd hat (by decide)
  · have hshow := h.elements (by unfold NarrowOp.IsFull; decide)
    exact absurd hshow.length_eq (by decide)

/-- Two rows of four columns, stored row by row. -/
def rowMajorEntry : CanonicalEntry :=
  { offset := 16, sizeBytes := 32, shape := [2, 4], dtype := "torch.float32" }

def middleColumns : NarrowOp := { dim := 1, start := -3, length := 2 }

/-- The middle columns of a compact tensor are selected as they should be. -/
theorem narrow_selects_middle_columns :
    ∃ st plan view, planViews (oneTensor rowMajorEntry) (oneNarrow middleColumns) [] = .ok st ∧
      computeBidirectionalInternal (oneTensor rowMajorEntry) (oneNarrow middleColumns) [] =
        .ok plan ∧
      ("t", view) ∈ st.views ∧
      NarrowSelects rowMajorEntry middleColumns plan.forward.selection.map view := by
  obtain ⟨st, hst, view, hviews⟩ : ∃ st,
      planViews (oneTensor rowMajorEntry) (oneNarrow middleColumns) [] = .ok st ∧
      ∃ view, st.views = [("t", view)] := ⟨_, rfl, _, rfl⟩
  obtain ⟨plan, hplan⟩ : ∃ plan, computeBidirectionalInternal (oneTensor rowMajorEntry)
      (oneNarrow middleColumns) [] = .ok plan := ⟨_, rfl⟩
  have hview : ("t", view) ∈ st.views := by simp [hviews]
  refine ⟨st, plan, view, hst, hplan, hview, ?_⟩
  refine (narrow_selects_iff_sound hst hplan rfl rfl hview).mpr ?_
  exact
    { isTensor := ⟨by decide, by simp [rowMajorEntry]⟩
      within := by decide
      fits := by
        have hbytes : ∀ t ∈ middleColumns.bytes rowMajorEntry, 16 ≤ t ∧ t < 48 := by decide
        intro t ht
        obtain ⟨h₁, h₂⟩ := hbytes t ht
        exact ⟨⟨h₁, h₂⟩, by omega⟩
      storage := fun _ _ => by decide
      empty := fun _ h => absurd h (by decide)
      count := fun _ => by decide
      compact := fun _ _ => ⟨fun _ => rfl, fun _ => rfl, trivial⟩ }

end TensorCast.View
