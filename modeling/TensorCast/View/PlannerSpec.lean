import TensorCast.ByteRange.Canonical
import TensorCast.Lib.Slice
import TensorCast.Lib.Strided
import TensorCast.View.Planner

/-!
# The layout of a view

The planner appends the segments of one tensor after the other and moves a 64-bit cursor behind them.
Normalization accepts the map only if the segments cover the view exactly once, so the cursor never
wrapped.  Each tensor owns an interval of the view, and the bytes selected there are those of its own
segments (`LaidOut.part_eq`).
-/

namespace TensorCast.View

open Core Lib ByteRange ByteRangeSegment List UInt64 Nat Int64

/-! ## Segments behind each other -/

/-- The segments take the cursor from `c` to `c'`, in wrapping arithmetic. -/
def Chained : UInt64 → List ByteRangeSegment → UInt64 → Prop
  | c, [], c' => c = c'
  | c, s :: rest, c' => s.dstOffset = c ∧ Chained (c + s.length) rest c'

variable {c c' : UInt64}

@[simp] lemma chained_nil : Chained c [] c' ↔ c = c' := Iff.rfl

variable {s : ByteRangeSegment}

@[simp] lemma chained_cons {rest : List ByteRangeSegment} :
    Chained c (s :: rest) c' ↔ s.dstOffset = c ∧ Chained (c + s.length) rest c' := Iff.rfl

lemma chained_append {xs ys : List ByteRangeSegment} :
    Chained c (xs ++ ys) c' ↔ ∃ m, Chained c xs m ∧ Chained m ys c' := by
  induction xs generalizing c with
  | nil => simp
  | cons s xs ih =>
    simp only [cons_append, chained_cons, ih]
    constructor
    · rintro ⟨hs, m, h⟩
      exact ⟨m, ⟨hs, h.1⟩, h.2⟩
    · rintro ⟨m, ⟨hs, h⟩, h'⟩
      exact ⟨hs, m, h, h'⟩

variable {segs : List ByteRangeSegment}

/-- The number of bytes of the segments. -/
def totalLength (segs : List ByteRangeSegment) : ℕ := (segs.map fun s => s.length.toNat).sum

@[simp] lemma totalLength_nil : totalLength [] = 0 := rfl

@[simp] lemma totalLength_cons (s : ByteRangeSegment) (segs : List ByteRangeSegment) :
    totalLength (s :: segs) = s.length.toNat + totalLength segs := by simp [totalLength]

@[simp] lemma totalLength_append (xs ys : List ByteRangeSegment) :
    totalLength (xs ++ ys) = totalLength xs + totalLength ys := by simp [totalLength]

lemma totalLength_of_tiled {a b : ℕ} (h : extent.Tiled a segs b) : a + totalLength segs = b := by
  induction segs generalizing a with
  | nil => exact h
  | cons s segs ih =>
    obtain ⟨hlo, -, hrest⟩ := h
    have := ih hrest
    rw [extent_lo] at hlo
    rw [extent_hi] at this
    rw [totalLength_cons]
    omega

/-- A chain whose lengths fit into the address space did not wrap: its nonempty segments tile. -/
lemma Chained.tiled (h : Chained c segs c') (hfit : c.toNat + totalLength segs < 2 ^ 64) :
    c'.toNat = c.toNat + totalLength segs ∧
      extent.Tiled c.toNat (segs.filter fun s => s.length ≠ 0) c'.toNat := by
  induction segs generalizing c with
  | nil =>
    obtain rfl := chained_nil.mp h
    exact ⟨rfl, rfl⟩
  | cons s segs ih =>
    obtain ⟨hdst, hrest⟩ := chained_cons.mp h
    rw [totalLength_cons] at hfit
    have hadd : (c + s.length).toNat = c.toNat + s.length.toNat := toNat_add_of_lt (by omega)
    obtain ⟨_, htiled⟩ := ih hrest (by omega)
    refine ⟨by rw [totalLength_cons]; omega, ?_⟩
    by_cases h0 : s.length = 0
    · rw [filter_cons_of_neg (by simp [h0])]
      rwa [hadd, h0, UInt64.toNat_zero, add_zero] at htiled
    · have hpos := toNat_pos h0
      rw [filter_cons_of_pos (by simp [h0])]
      refine ⟨by rw [extent_lo, hdst], by rw [extent_hi, hdst]; omega, ?_⟩
      rwa [extent_hi, hdst, ← hadd]

/-! ## The bytes of a segment -/

/-- The offsets that a data segment selects, in the order of the view. -/
def selected (s : ByteRangeSegment) : List UInt64 :=
  (List.range s.length.toNat).map fun k => s.srcOffset + UInt64.ofNat k

@[simp] lemma length_selected (s : ByteRangeSegment) :
    (selected s).length = s.length.toNat := by simp [selected]

lemma selected_eq_nil (h : s.length = 0) : selected s = [] := by
  simp [selected, h]

lemma flatMap_selected_filter (segs : List ByteRangeSegment) :
    (segs.filter fun s => s.length ≠ 0).flatMap selected = segs.flatMap selected := by
  rw [flatMap_filter_eq]
  refine flatMap_congr fun s _ => ?_
  split_ifs with h
  · rfl
  · exact (selected_eq_nil (by simpa using h)).symm

lemma length_flatMap_selected (segs : List ByteRangeSegment) :
    (segs.flatMap selected).length = totalLength segs := by
  simp [totalLength]

lemma totalLength_of_accepted {map : ByteRangeMap} (h : map.Accepted) :
    totalLength map.segments = map.totalBytes.toNat := by
  rcases h with ⟨h0, hs⟩ | ⟨-, -, ht, -⟩
  · rw [h0, hs]
    rfl
  · have hsorted := totalLength_of_tiled ((tiled_sorted_iff map).mpr ht)
    have hperm : totalLength (sorted map) = totalLength (map.live.map cleaned) :=
      ((sorted_perm map).symm.map _).sum_eq
    have hclean : totalLength (map.live.map cleaned) = totalLength map.live := by
      simp [totalLength, Function.comp_def]
    have hlive : totalLength map.live = totalLength map.segments := by
      rw [← length_flatMap_selected, ByteRangeMap.live, flatMap_selected_filter,
        length_flatMap_selected]
    omega

/-- A segment of the artifact, as the planner makes them for tensors. -/
def IsData (s : ByteRangeSegment) : Prop := s.kind = .data ∧ s.sourceIndex = 0

lemma slice_cell_of_isData (h : IsData s) :
    slice (fun d => some (s.cell d)) s.dstOffset.toNat s.length.toNat =
      (selected s).map fun a => some (.data 0 a) := by
  rw [slice, selected, map_map]
  refine map_congr_left fun k _ => ?_
  rw [cell, firstCell, h.1, h.2, Nat.add_sub_cancel_left]
  rfl

/-- The bytes of a tensor in the view, by their origins. -/
def viewPart (map : ByteRangeMap) (view : CanonicalEntry) : List (Option Cell) :=
  slice map.denote view.offset.toNat view.sizeBytes.toNat

/-! ## One tensor -/

section OneTensor

variable {subset : Bool} {name : String} {entry : CanonicalEntry} {cursor : UInt64}
  {p : TensorPlan}

/-- The segments of a planned tensor start at the cursor, lead to the next one, and take their
bytes from the artifact. -/
structure TensorPlan.Regular (p : TensorPlan) (cursor : UInt64) : Prop where
  offset : p.view.offset = cursor
  chained : Chained cursor p.segments p.cursor
  data : ∀ s ∈ p.segments, IsData s

lemma isData_makeDataSegment (src dst len : UInt64) : IsData (makeDataSegment src dst len) :=
  ⟨rfl, rfl⟩

variable {es : UInt64}

/-- The size of such a tensor in the view is the number of its bytes, unless that wraps. -/
structure TensorPlan.Sized (p : TensorPlan) (cursor : UInt64) : Prop extends p.Regular cursor where
  size : totalLength p.segments < 2 ^ 64 → p.view.sizeBytes.toNat = totalLength p.segments

lemma sized_of_segment {src len : UInt64} (hsegs : p.segments = [makeDataSegment src cursor len])
    (hc : p.cursor = cursor + len) (hoff : p.view.offset = cursor)
    (hsize : p.view.sizeBytes = len) : p.Sized cursor := by
  refine ⟨⟨hoff, ?_, ?_⟩, fun _ => ?_⟩
  · rw [hsegs, hc]
    exact ⟨rfl, rfl⟩
  · rw [hsegs]
    exact forall_mem_singleton.mpr (isData_makeDataSegment ..)
  · rw [hsegs, hsize]
    simp [makeDataSegment]

lemma planIdentity_sized {hasTransform : Bool}
    (h : planIdentity subset name entry es cursor hasTransform = .ok p) : p.Sized cursor := by
  cases subset with
  | false =>
    cases h
    exact sized_of_segment rfl rfl rfl rfl
  | true =>
    obtain ⟨_, -, hp⟩ := bind_eq_ok.mp h
    cases hp
    exact sized_of_segment rfl rfl rfl rfl

variable {b : NarrowBlocks} {segs : List ByteRangeSegment}

lemma NarrowBlocks.segments_regular {rounds : ℕ} {outerIndex cursor : UInt64} {cursor' : UInt64}
    (h : b.segments rounds outerIndex cursor = .ok (segs, cursor')) :
    Chained cursor segs cursor' ∧ (∀ s ∈ segs, IsData s) ∧
      totalLength segs = rounds * b.blockBytes.toNat := by
  induction rounds generalizing outerIndex cursor segs with
  | zero =>
    cases h
    exact ⟨rfl, by simp, by simp⟩
  | succ rounds ih =>
    obtain ⟨offset, -, h⟩ := bind_eq_ok.mp h
    obtain ⟨⟨_, c⟩, hrest, h⟩ := bind_eq_ok.mp h
    cases h
    obtain ⟨hchain, hdata, hlen⟩ := ih hrest
    refine ⟨⟨rfl, hchain⟩, by simpa [isData_makeDataSegment] using hdata, ?_⟩
    rw [totalLength_cons, hlen, makeDataSegment, add_one_mul, add_comm]

lemma NarrowBlocks.plan_sized (h : b.plan cursor = .ok p) : p.Sized cursor := by
  obtain ⟨⟨_, c⟩, hsegs, h⟩ := bind_eq_ok.mp h
  cases h
  obtain ⟨hchain, hdata, hlen⟩ := NarrowBlocks.segments_regular hsegs
  refine ⟨⟨rfl, hchain, hdata⟩, fun hfit => ?_⟩
  rw [hlen] at hfit
  rw [hlen, UInt64.toNat_mul, mul_comm, mod_eq_of_lt hfit]

/-- `extent` is the extent of the dimension and `start` the start counted from the front. -/
structure AcceptedNarrow (entry : CanonicalEntry) (op : NarrowOp) (extent start : Int64) :
    Prop where
  length_ne : op.length ≠ 0
  length_lt : op.length.toNat < 2 ^ 63
  extent_eq : entry.shape[op.dim.toNatClampNeg]? = some extent
  extent_pos : 0 < extent
  start_eq : start = normalizedStart op.start extent
  start_nonneg : 0 ≤ start
  start_lt : start < extent
  within : ¬ extent < start + op.length.toInt64

lemma ofNat_le_of_dim {d : Int32} {n : ℕ} (h : ¬ (d < 0 ∨ Int32.ofNat n ≤ d)) :
    d.toNatClampNeg < n := by
  rw [Int32.lt_iff_toInt_lt, Int32.le_iff_toInt_le, Int32.toInt_ofNat'] at h
  have hd : (d.toNatClampNeg : ℤ) = max d.toInt 0 := by
    rw [Int32.toNatClampNeg, Int.toNat_eq_max]
  have hbmod : (n : ℤ).bmod (2 ^ 32) ≤ n := by
    rw [Int.bmod_def]
    split <;> omega
  have h0 : Int32.toInt 0 = 0 := rfl
  have hsize : Int32.size = 2 ^ 32 := rfl
  rw [hsize] at h
  omega

lemma planNarrow_cases {op : NarrowOp} {rest : List ViewOp}
    (h : planNarrow subset name entry op rest es cursor = .ok p) :
    ∃ extent start, AcceptedNarrow entry op extent start ∧
      ((start = 0 ∧ op.length.toInt64 = extent ∧
          planIdentity subset name entry es cursor false = .ok p) ∨
        (¬ (start = 0 ∧ op.length.toInt64 = extent) ∧
          NarrowBlocks.plan ⟨name, entry, op.dim.toNatClampNeg, start, op.length.toInt64, es⟩
            cursor = .ok p)) := by
  rw [planNarrow] at h
  dsimp only at h
  split_ifs at h with h1 h2 h3 h4 h5 h6 h7 h8
  all_goals
    have hdim := ofNat_le_of_dim h2
    have hget : entry.shape.getD op.dim.toNatClampNeg 0 = entry.shape[op.dim.toNatClampNeg] := by
      simp [hdim]
    rw [not_or] at h6
    have hacc : AcceptedNarrow entry op (entry.shape.getD op.dim.toNatClampNeg 0)
        (normalizedStart op.start (entry.shape.getD op.dim.toNatClampNeg 0)) :=
      { length_ne := h1
        length_lt := by
          have : maxValue.toUInt64.toNat = 2 ^ 63 - 1 := by decide
          rw [lt_iff_toNat_lt] at h5
          omega
        extent_eq := by rw [hget, getElem?_eq_getElem hdim]
        extent_pos := Int64.not_le.mp h4
        start_eq := rfl
        start_nonneg := Int64.not_lt.mp h6.1
        start_lt := Int64.not_le.mp h6.2
        within := h7 }
  · exact ⟨_, _, hacc, .inl ⟨h8.1, h8.2, h⟩⟩
  · exact ⟨_, _, hacc, .inr ⟨h8, h⟩⟩

variable {ops : List ViewOp}

lemma planTranspose_sized (h : planTranspose subset name entry ops es cursor = .ok p) :
    p.Sized cursor := by
  obtain ⟨_, -, h⟩ := bind_eq_ok.mp h
  split_ifs at h
  · exact planIdentity_sized h
  · cases h
    exact sized_of_segment rfl rfl rfl rfl

lemma planTensor_sized (h : planTensor subset name entry ops cursor = .ok p) : p.Sized cursor := by
  obtain ⟨_, -, h⟩ := bind_eq_ok.mp h
  cases ops with
  | nil => exact planIdentity_sized h
  | cons op rest =>
    cases op with
    | narrow op =>
      obtain ⟨-, _, -, ⟨-, -, h⟩ | ⟨-, h⟩⟩ := planNarrow_cases h
      · exact planIdentity_sized h
      · exact NarrowBlocks.plan_sized h
    | transpose op => exact planTranspose_sized h

end OneTensor

/-! ## All tensors -/

lemma chained_align {st : PlanState} (h : Chained 0 st.segments st.cursor) :
    Chained 0 st.align.segments st.align.cursor := by
  rw [PlanState.align]
  split_ifs with hlt
  · refine chained_append.mpr ⟨st.cursor, h, rfl, ?_⟩
    rw [chained_nil, makePadSegment]
    rw [add_comm, sub_add_cancel]
  · exact h

/-- A tensor of a plan: its operations, the cursor that it was planned at, and what was planned
for it. -/
structure Placed where
  name : String
  entry : CanonicalEntry
  ops : List ViewOp
  cursor : UInt64
  plan : TensorPlan

/-- The planner's loop has planned these tensors, in this order. -/
inductive LaidOut (index : CanonicalIndex) (spec : ViewSpec) (subset : Bool) :
    PlanState → List Placed → Prop
  | nil : LaidOut index spec subset {} []
  | snoc {st : PlanState} {ts : List Placed} (t : Placed) :
      LaidOut index spec subset st ts → index.find t.name = some t.entry →
      t.ops = (spec.find t.name).getD [] → t.cursor = st.align.cursor →
      planTensor subset t.name t.entry t.ops t.cursor = .ok t.plan →
      LaidOut index spec subset (st.align.push t.name t.entry.offset t.plan) (ts ++ [t])

section Layout

variable {index : CanonicalIndex} {spec : ViewSpec} {subset : Bool} {st st' : PlanState}
  {ts : List Placed}

lemma LaidOut.planNames {names : List String} (h : LaidOut index spec subset st ts)
    (hplan : planNames index spec subset names st = .ok st') :
    ∃ ts', LaidOut index spec subset st' (ts ++ ts') := by
  induction names generalizing st ts with
  | nil =>
    cases hplan
    exact ⟨[], by simpa using h⟩
  | cons name names ih =>
    rw [View.planNames] at hplan
    cases hfind : index.find name with
    | none =>
      rw [hfind] at hplan
      exact ih h hplan
    | some entry =>
      rw [hfind] at hplan
      obtain ⟨p, hp, hplan⟩ := bind_eq_ok.mp hplan
      let t : Placed := ⟨name, entry, (spec.find name).getD [], st.align.cursor, p⟩
      obtain ⟨ts', hts'⟩ := ih (h.snoc t hfind rfl rfl hp) hplan
      exact ⟨t :: ts', by simpa using hts'⟩

namespace LaidOut

variable (h : LaidOut index spec subset st ts)

include h

lemma chained : Chained 0 st.segments st.cursor := by
  induction h with
  | nil => rfl
  | snoc t _ _ _ hc hp ih =>
    refine chained_append.mpr ⟨_, chained_align ih, ?_⟩
    rw [← hc]
    exact (planTensor_sized hp).chained

lemma views : st.views = ts.map fun t => (t.name, t.plan.view) := by
  have halign : ∀ st : PlanState, st.align.views = st.views := fun st => by
    rw [PlanState.align]
    split_ifs <;> rfl
  induction h with
  | nil => rfl
  | snoc t _ _ _ _ _ ih => simp [PlanState.push, halign, ih]

variable {t : Placed}

lemma planned (ht : t ∈ ts) :
    index.find t.name = some t.entry ∧ t.ops = (spec.find t.name).getD [] ∧
      planTensor subset t.name t.entry t.ops t.cursor = .ok t.plan := by
  induction h with
  | nil => simp at ht
  | snoc t' _ hfind hops _ hp ih =>
    rcases mem_append.mp ht with ht | ht
    · exact ih ht
    · obtain rfl := mem_singleton.mp ht
      exact ⟨hfind, hops, hp⟩

/-- The segments of a tensor stand together, between those of the tensors before it and behind
it. -/
lemma split (ht : t ∈ ts) :
    ∃ pre post, st.segments = pre ++ t.plan.segments ++ post ∧ Chained 0 pre t.cursor ∧
      Chained t.cursor t.plan.segments t.plan.cursor := by
  induction h with
  | nil => simp at ht
  | @snoc st ts t' hts _ _ hc hp ih =>
    have hreg := planTensor_sized hp
    rcases mem_append.mp ht with ht | ht
    · obtain ⟨pre, post, hsegs, hpre, hmid⟩ := ih ht
      -- the padding and the new segments extend what follows the tensor
      obtain ⟨pad, hpad⟩ : ∃ pad, st.align.segments = st.segments ++ pad := by
        rw [PlanState.align]
        split_ifs
        · exact ⟨_, rfl⟩
        · exact ⟨[], by simp⟩
      refine ⟨pre, post ++ pad ++ t'.plan.segments, ?_, hpre, hmid⟩
      simp [PlanState.push, hpad, hsegs]
    · obtain rfl := mem_singleton.mp ht
      refine ⟨st.align.segments, [], by simp [PlanState.push], ?_, hreg.chained⟩
      rw [hc]
      exact chained_align hts.chained

variable {map : ByteRangeMap}

section

variable (h : LaidOut index spec subset st ts) (hmap : normalizeByteRangeMap st.map = .ok map)
  (ht : t ∈ ts)

include h hmap ht

/-- **Each tensor owns an interval of the view, and the bytes selected there are those of its
own segments.** -/
lemma part_eq :
    t.cursor.toNat + totalLength t.plan.segments ≤ map.totalBytes.toNat ∧
    slice map.denote t.cursor.toNat (totalLength t.plan.segments) =
      (t.plan.segments.flatMap selected).map fun a => some (.data 0 a) := by
  obtain ⟨pre, post, hsegs, hpre, hmid⟩ := h.split ht
  have hspec := normalize_spec hmap
  have hsum := totalLength_of_accepted ((isOk_normalize_iff st.map).mp ⟨map, hmap⟩)
  have hfits := st.map.totalBytes.toNat_lt
  rw [show st.map.segments = pre ++ t.plan.segments ++ post from hsegs, totalLength_append,
    totalLength_append] at hsum
  have hzero : (0 : UInt64).toNat = 0 := rfl
  obtain ⟨_, -⟩ := hpre.tiled (by omega)
  have hall : Chained 0 st.map.segments st.map.totalBytes := h.chained
  obtain ⟨-, htiled⟩ := hall.tiled (by
    rw [show st.map.segments = pre ++ t.plan.segments ++ post from hsegs, totalLength_append,
      totalLength_append]
    omega)
  obtain ⟨_, hmidt⟩ := hmid.tiled (by omega)
  refine ⟨by rw [hspec.totalBytes]; omega, ?_⟩
  have hdenote : ∀ s ∈ t.plan.segments.filter fun s => s.length ≠ 0, ∀ d, extent.Covers s d →
      map.denote d = some (s.cell d) := by
    intro s hs d hd
    rw [hspec.denote_eq, ByteRangeMap.denote, ← denote_filter_live]
    refine htiled.denote_of_mem ?_ hd
    rw [show st.map.segments = pre ++ t.plan.segments ++ post from hsegs, filter_append,
      filter_append]
    exact mem_append_left _ (mem_append_right _ hs)
  have hdata := (planTensor_sized (h.planned ht).2.2).data
  have hlen : totalLength t.plan.segments = t.plan.cursor.toNat - t.cursor.toNat := by omega
  rw [hlen, ← hmidt.flatMap_slice, ← flatMap_selected_filter, map_flatMap]
  refine flatMap_congr fun s hs => ?_
  rw [← slice_cell_of_isData (hdata s (mem_of_mem_filter hs)), extent_lo, extent_hi,
    Nat.add_sub_cancel_left]
  refine slice_congr fun k hk => hdenote s hs _ ⟨?_, ?_⟩
  · rw [extent_lo]
    omega
  · rw [extent_hi]
    omega

lemma viewPart_eq :
    totalLength t.plan.segments < 2 ^ 64 ∧
      viewPart map t.plan.view =
        (t.plan.segments.flatMap selected).map fun a => some (.data 0 a) := by
  obtain ⟨_, hpart⟩ := h.part_eq hmap ht
  have hfit : totalLength t.plan.segments < 2 ^ 64 := by
    have := map.totalBytes.toNat_lt
    omega
  have hplan := planTensor_sized (h.planned ht).2.2
  refine ⟨hfit, ?_⟩
  rw [viewPart, hplan.size hfit, hplan.offset, hpart]

lemma view_inside :
    t.plan.view.offset.toNat + t.plan.view.sizeBytes.toNat ≤ map.totalBytes.toNat := by
  have hplan := planTensor_sized (h.planned ht).2.2
  rw [hplan.size (h.viewPart_eq hmap ht).1, hplan.offset]
  exact (h.part_eq hmap ht).1

end

end LaidOut

/-- What a successful call returns. -/
lemma computeBidirectional_cases {subsetNames : List String} {plan : BidirectionalViewPlan}
    (h : computeBidirectionalInternal index spec subsetNames = .ok plan) :
    ∃ st ts, planViews index spec subsetNames = .ok st ∧
      LaidOut index spec (subsetNames ≠ []) st ts ∧
      normalizeByteRangeMap st.map = .ok plan.forward.selection.map ∧
      plan.write = buildViewWritePlan plan.forward.selection := by
  obtain ⟨st, hst, h⟩ := bind_eq_ok.mp h
  obtain ⟨selection, hsel, h⟩ := bind_eq_ok.mp h
  obtain ⟨_, -, h⟩ := bind_eq_ok.mp h
  cases h
  obtain ⟨map, hmap, hsel⟩ := bind_eq_ok.mp hsel
  cases hsel
  have hplan := hst
  obtain ⟨⟨⟩, -, hplan⟩ := bind_eq_ok.mp hplan
  obtain ⟨⟨⟩, -, hplan⟩ := bind_eq_ok.mp hplan
  obtain ⟨ts, hts⟩ := LaidOut.nil.planNames hplan
  exact ⟨st, ts, hst, by simpa using hts, hmap, rfl⟩

end Layout

end TensorCast.View
