import TensorCast.Lib.Writes
import TensorCast.View.NarrowSpec

/-!
# Shards of a tensor

A tensor is sharded by narrows of one dimension to consecutive intervals.  The shards reassemble it if
no byte is selected twice, the bytes selected are the tensor's, and writing the bytes of every shard
back through its write plan restores them in any buffer and changes nothing else.  With compact
strides the bytes repeat in periods of one step of the dimensions in front of the sharded one, and a
shard selects the same interval of every period.
-/

namespace TensorCast.View

open Core Lib ByteRange ByteRangeSegment CanonicalEntry CanonicalEntry List

/-! ## Writing a view back -/

/-- The byte with the given origin: a byte of the artifact, or zero for padding. -/
def cellByte (artifact : ℕ → UInt8) : Option Cell → UInt8
  | some (.data _ a) => artifact a.toNat
  | _ => 0

def viewByte (map : ByteRangeMap) (artifact : ℕ → UInt8) (p : ℕ) : UInt8 :=
  cellByte artifact (map.denote p)

def WriteChunk.writes (view : ℕ → UInt8) (lo hi : ℕ) (c : WriteChunk) : List (ℕ × UInt8) :=
  ((List.range c.length.toNat).filter fun k =>
    lo ≤ c.viewOffset.toNat + k ∧ c.viewOffset.toNat + k < hi).map fun k =>
      ((c.canonicalOffset + UInt64.ofNat k).toNat, view (c.viewOffset.toNat + k))

def cellWrite (byte : UInt8) : Option Cell → List (ℕ × UInt8)
  | some (.data _ a) => [(a.toNat, byte)]
  | _ => []

lemma writes_buildViewWritePlan {selection : SelectionPlan} (hmap : selection.map.Canonical)
    (view : ℕ → UInt8) {lo n : ℕ} (hin : lo + n ≤ selection.map.totalBytes.toNat) :
    (buildViewWritePlan selection).flatMap (WriteChunk.writes view lo (lo + n)) =
      (List.range n).flatMap fun k =>
        cellWrite (view (lo + k)) (selection.map.denote (lo + k)) := by
  -- the writes for the byte at each position of the view
  let write : ℕ → List (ℕ × UInt8) := fun p =>
    if lo ≤ p ∧ p < lo + n then cellWrite (view p) (selection.map.denote p) else []
  have hchunks : (buildViewWritePlan selection).flatMap (WriteChunk.writes view lo (lo + n)) =
      selection.map.segments.flatMap fun s =>
        (slice write (extent.lo s) (extent.hi s - extent.lo s)).flatMap id := by
    rw [buildViewWritePlan, flatMap_map, flatMap_filter_eq]
    refine flatMap_congr fun s hs => ?_
    have hcell : ∀ k < s.length.toNat,
        selection.map.denote (s.dstOffset.toNat + k) = some (s.firstCell.advance k) := by
      intro k hk
      rw [ByteRangeMap.denote, hmap.tiled.denote_of_mem hs ⟨by simp, by simp [hk]⟩, cell,
        Nat.add_sub_cancel_left]
    rw [extent_lo, extent_hi, Nat.add_sub_cancel_left, slice, flatMap_map]
    cases hk : s.kind with
    | pad =>
      refine (flatMap_eq_nil_iff.mpr fun k hmem => ?_).symm
      simp only [write, id_eq, hcell k (mem_range.mp hmem), firstCell, hk, Cell.advance,
        cellWrite, ite_self]
    | data =>
      rw [WriteChunk.writes, map_eq_flatMap, flatMap_filter_eq]
      refine flatMap_congr fun k hmem => ?_
      simp only [write, id_eq, hcell k (mem_range.mp hmem), firstCell, hk, Cell.advance,
        cellWrite, decide_eq_true_eq]
  have hslice := hmap.tiled.flatMap_slice (f := write)
  rw [Nat.sub_zero] at hslice
  obtain ⟨r, hr⟩ := Nat.exists_eq_add_of_le hin
  have hout : ∀ a m, (∀ k < m, ¬ (lo ≤ a + k ∧ a + k < lo + n)) →
      (slice write a m).flatMap id = [] := by
    intro a m hno
    rw [slice, flatMap_map]
    exact flatMap_eq_nil_iff.mpr fun k hk => if_neg (hno k (mem_range.mp hk))
  rw [hchunks, ← flatMap_assoc, hslice, hr, slice_add, slice_add, flatMap_append,
    flatMap_append, hout 0 lo (fun k hk => by omega), hout _ r (fun k hk => by omega),
    append_nil, slice, flatMap_map]
  refine flatMap_congr fun k hk => ?_
  have := mem_range.mp hk
  simp only [zero_add]
  exact if_pos (by omega)

/-! ## Shards -/

/-- The offset of a byte that comes from the artifact. -/
def cellOffset : Option Cell → Option ℕ
  | some (.data _ a) => some a.toNat
  | _ => none

/-- A plan for one shard of a tensor. -/
structure Shard where
  spec : ViewSpec
  subsetNames : List String
  op : NarrowOp
  st : PlanState
  plan : BidirectionalViewPlan
  /-- The entry of the tensor in the view. -/
  view : CanonicalEntry

namespace Shard

/-- The planner made this plan, and the spec narrows the tensor. -/
structure PlannedFor (s : Shard) (index : CanonicalIndex) (name : String) : Prop where
  views : planViews index s.spec s.subsetNames = .ok s.st
  accepted : computeBidirectionalInternal index s.spec s.subsetNames = .ok s.plan
  narrows : s.spec.find name = some [.narrow s.op]
  placed : (name, s.view) ∈ s.st.views

/-- The bytes of the tensor in the view of the shard, by their origins. -/
def part (s : Shard) : List (Option Cell) := viewPart s.plan.forward.selection.map s.view

def offsets (s : Shard) : List ℕ := s.part.filterMap cellOffset

/-- Writing the shard's part of the view back through its write plan. -/
def writes (s : Shard) (artifact : ℕ → UInt8) : List (ℕ × UInt8) :=
  s.plan.write.flatMap (WriteChunk.writes (viewByte s.plan.forward.selection.map artifact)
    s.view.offset.toNat (s.view.offset.toNat + s.view.sizeBytes.toNat))

end Shard

/-- The shards take consecutive intervals of a dimension, from `a` to `n`. -/
def Consecutive (entry : CanonicalEntry) (d : ℕ) : ℤ → List Shard → ℤ → Prop
  | a, [], n => a = n
  | a, s :: rest, n => s.op.dimension = d ∧ s.op.startFrom entry = a ∧
      Consecutive entry d (a + s.op.length.toNat) rest n

/-- The strides are those of the row-major order; a tensor without elements may have any. -/
structure CanonicalEntry.IsCompact (entry : CanonicalEntry) : Prop where
  isTensor : entry.IsTensor
  compact : entry.extents.prod ≠ 0 → CompactMod 0 entry.extents entry.strides

structure Reassemble (entry : CanonicalEntry) (shards : List Shard) : Prop where
  disjoint : (shards.flatMap Shard.offsets).Nodup
  union : ∀ t : ℤ, t ∈ entry.bytes ↔ ∃ o ∈ shards.flatMap Shard.offsets, (o : ℤ) = t
  restored : ∀ (artifact buffer : ℕ → UInt8) (a : ℕ),
    writeAll (shards.flatMap fun s => s.writes artifact) buffer a =
      if (a : ℤ) ∈ entry.bytes then artifact a else buffer a

/-- The inputs for which they do. -/
structure ShardsSound (entry : CanonicalEntry) (shards : List Shard) : Prop where
  /-- The tensor ends below `2 ^ 64`. -/
  fits : entry.extents.prod ≠ 0 → entry.base + entry.extents.prod * entry.elementSize ≤ 2 ^ 64
  /-- A single shard that takes the whole storage takes the tensor only. -/
  kept : ∀ s ∈ shards, s.op.IsFull entry → s.subsetNames = [] →
    entry.sizeBytes.toNat = entry.extents.prod * entry.elementSize ∧
      (entry.extents.prod ≠ 0 → entry.storageOffset = 0)
  /-- The block that is taken of a tensor without elements has no bytes. -/
  empty : entry.extents.prod = 0 → ∀ s ∈ shards, ¬ s.op.IsFull entry →
    2 ^ 64 ∣ (s.op.blockShape entry).prod

/-! ## What a shard selects -/

section OneShard

variable {index : CanonicalIndex} {name : String} {entry : CanonicalEntry} {s : Shard}

lemma offsets_of_selected {sel : List UInt64}
    (h : s.part = sel.map fun a => some (.data 0 a)) : s.offsets = sel.map UInt64.toNat := by
  rw [Shard.offsets, h, filterMap_map]
  change sel.filterMap (some ∘ UInt64.toNat) = _
  rw [filterMap_eq_map]

lemma offsets_eq_of_shows (h : List.Forall₂ Shows s.part (s.op.bytes entry)) :
    (s.offsets.map fun o : ℕ => (o : ℤ)) = s.op.bytes entry := by
  rw [Shard.offsets]
  generalize s.part = part, s.op.bytes entry = ts at h
  induction h with
  | nil => rfl
  | cons hc _ ih =>
    obtain ⟨a, rfl, rfl⟩ := hc
    rw [filterMap_cons_some (show cellOffset _ = some a.toNat from rfl), map_cons, ih]

lemma lt_of_mem_offsets {o : ℕ} (h : o ∈ s.offsets) : o < 2 ^ 64 := by
  obtain ⟨c, -, hc⟩ := mem_filterMap.mp h
  rw [cellOffset.eq_def] at hc
  split at hc
  · cases hc
    exact UInt64.toNat_lt _
  · simp at hc

/-- Writing a shard back writes each selected byte to its place. -/
lemma writes_eq (h : s.PlannedFor index name) {sel : List UInt64}
    (hpart : s.part = sel.map fun a => some (.data 0 a)) (artifact : ℕ → UInt8) :
    s.writes artifact = s.offsets.map fun o => (o, artifact o) := by
  obtain ⟨st', _, hst', hlaid, hmap, hwrite⟩ := computeBidirectional_cases h.accepted
  obtain rfl : s.st = st' := Except.ok.inj (h.views.symm.trans hst')
  have hplaced := h.placed
  rw [hlaid.views, mem_map] at hplaced
  obtain ⟨t, ht, hview⟩ := hplaced
  obtain ⟨-, hview⟩ := Prod.mk.inj hview
  have hin := hlaid.view_inside hmap ht
  rw [hview] at hin
  rw [Shard.writes, hwrite, writes_buildViewWritePlan (normalize_spec hmap).canonical _ hin,
    offsets_of_selected hpart, map_map, map_eq_flatMap]
  have hcells : s.part.flatMap (fun c => cellWrite (cellByte artifact c) c) =
      sel.flatMap fun a => [(a.toNat, artifact a.toNat)] := by
    rw [hpart, flatMap_map]
    rfl
  rw [Shard.part, viewPart, slice, flatMap_map] at hcells
  exact hcells

lemma Shard.PlannedFor.cases (h : s.PlannedFor index name) (hentry : index.find name = some entry) :
    PlannedNarrow (s.subsetNames ≠ []) name entry s.op s.view s.part :=
  planned_narrow h.views h.accepted hentry h.narrows h.placed

end OneShard

/-! ## Compact tensors -/

namespace CanonicalEntry.IsCompact

variable {entry : CanonicalEntry} {op : NarrowOp} {extent start : Int64}

lemma bytes_eq (h : entry.IsCompact) (hne : entry.extents.prod ≠ 0) (hes0 : 0 < entry.elementSize) :
    entry.bytes = (List.range (entry.extents.prod * entry.elementSize)).map
      fun k : ℕ => entry.base + k :=
  elementBytes_of_compact _ h.isTensor.length_strides (entry.extents_pos hne) hes0 (h.compact hne)

/-- The bytes of one step of the dimension `d`. -/
def step (entry : CanonicalEntry) (d : ℕ) : ℕ :=
  (entry.extents.drop (d + 1)).prod * entry.elementSize

/-- The bytes of one step of the dimensions in front of `d`. -/
def period (entry : CanonicalEntry) (d : ℕ) : ℕ := entry.extents.getD d 0 * step entry d

lemma prod_eq_periods {d : ℕ} (hd : d < entry.extents.length) :
    entry.extents.prod * entry.elementSize = (entry.extents.take d).prod * period entry d := by
  conv_lhs => rw [eq_take_append_getD_cons_drop hd 0]
  rw [prod_append, prod_cons, period, step]
  ring

lemma length_pos (hacc : AcceptedNarrow entry op extent start) : 0 < op.length.toNat :=
  toNat_pos hacc.length_ne

section

variable (h : entry.IsCompact) (hne : entry.extents.prod ≠ 0)

include h hne

/-- The dimensions in front of `d` step over those from `d` on. -/
lemma addrs_take (d : ℕ) :
    addrs (entry.extents.take d) (entry.strides.take d) =
      (List.range (entry.extents.take d).prod).map fun o : ℕ =>
        (o : ℤ) * (entry.extents.drop d).prod := by
  have hlen := h.isTensor.length_strides
  have hcompact := h.compact hne
  have hpos := entry.extents_pos hne
  rw [← take_append_drop d entry.extents, ← take_append_drop d entry.strides] at hcompact
  rw [← take_append_drop d entry.extents] at hpos
  exact addrs_outer_of_compact (by simp [hlen]) (by simp [hlen]) hpos hcompact

lemma compact_drop {d : ℕ} (hd : d < entry.extents.length) :
    (1 < entry.extents.getD d 0 →
      entry.strides.getD d 0 = ((entry.extents.drop (d + 1)).prod : ℕ)) ∧
    CompactMod 0 (entry.extents.drop (d + 1)) (entry.strides.drop (d + 1)) := by
  have hlen := h.isTensor.length_strides
  have hall := h.compact hne
  rw [← take_append_drop d entry.extents, ← take_append_drop d entry.strides] at hall
  have hdrop := hall.append_right (by simp [hlen])
  have hds : d < entry.strides.length := by omega
  rw [drop_eq_getD_cons hd 0, drop_eq_getD_cons hds 0] at hdrop
  exact ⟨fun hone => Int.modEq_zero_iff.mp (hdrop.1 hone), hdrop.2⟩

lemma block_compact (hacc : AcceptedNarrow entry op extent start)
    (hwithin : op.startFrom entry + op.length.toNat ≤ op.extent entry) :
    CompactMod 0 (op.blockShape entry) (op.blockStride entry) := by
  have hd := hacc.dimension_lt_extents
  have hlen := h.isTensor.length_strides
  obtain ⟨hhead, hinner⟩ := h.compact_drop hne hd
  have hextent := hacc.getD_extents
  have hstart := hacc.startFrom_nonneg
  refine CompactMod.inBytes ?_ ?_ _
  · simp only [length_cons, length_drop]
    omega
  · have hds : op.dimension < entry.strides.length := by omega
    rw [drop_eq_getD_cons hds 0]
    exact ⟨fun hone => Int.modEq_zero_iff.mpr (hhead (by omega)), hinner⟩

lemma narrowBase_eq (hacc : AcceptedNarrow entry op extent start) :
    op.narrowBase entry = entry.base + op.startFrom entry * step entry op.dimension := by
  have hd := hacc.dimension_lt_extents
  have hextent := hacc.getD_extents
  have hlt := hacc.startFrom_lt
  have hstart := hacc.startFrom_nonneg
  rw [NarrowOp.narrowBase, step]
  rcases eq_or_ne (op.startFrom entry) 0 with h0 | h0
  · simp [h0]
  · rw [(h.compact_drop hne hd).1 (by omega)]
    push_cast
    ring

section

variable (hes0 : 0 < entry.elementSize) (hacc : AcceptedNarrow entry op extent start)
  (hwithin : op.startFrom entry + op.length.toNat ≤ op.extent entry)

include hes0 hacc hwithin

/-- A narrow of a compact tensor takes the same interval of every period. -/
lemma narrow_bytes_eq :
    op.bytes entry = (List.range (entry.extents.take op.dimension).prod).flatMap fun o : ℕ =>
      (List.range (op.length.toNat * step entry op.dimension)).map fun k : ℕ =>
        entry.base + o * period entry op.dimension +
          op.startFrom entry * step entry op.dimension + k := by
  have hd := hacc.dimension_lt_extents
  have hblock := addrs_eq_range (length_blockShape h.isTensor hd)
    (blockShape_pos hacc.length_ne hes0 hne) (h.block_compact hne hacc hwithin)
  rw [bytes_eq_blocks h.isTensor hacc.dimension_lt, h.addrs_take hne op.dimension, hblock, flatMap_map,
    prod_blockShape, mul_assoc]
  refine flatMap_congr fun o _ => ?_
  rw [map_map, h.narrowBase_eq hne hacc, drop_eq_getD_cons hd 0]
  refine map_congr_left fun k _ => ?_
  rw [Function.comp_apply, period, prod_cons]
  simp only [step]
  push_cast
  ring

/-- A byte of the tensor belongs to a narrow if its place in the period does. -/
lemma mem_narrow_bytes {t : ℤ} :
    t ∈ op.bytes entry ↔ t ∈ entry.bytes ∧
      op.startFrom entry * step entry op.dimension ≤ (t - entry.base) % period entry op.dimension ∧
      (t - entry.base) % period entry op.dimension <
        (op.startFrom entry + op.length.toNat) * step entry op.dimension := by
  have hd := hacc.dimension_lt_extents
  have hstart := hacc.startFrom_nonneg
  have hextent := hacc.getD_extents
  have hfit : (op.startFrom entry + op.length.toNat) * (step entry op.dimension : ℤ) ≤
      period entry op.dimension := by
    rw [period, Nat.cast_mul]
    exact mul_le_mul_of_nonneg_right (by omega) (Int.natCast_nonneg _)
  have hS : 0 ≤ op.startFrom entry * (step entry op.dimension : ℤ) :=
    mul_nonneg hstart (Int.natCast_nonneg _)
  rw [h.narrow_bytes_eq hne hes0 hacc hwithin, h.bytes_eq hne hes0, prod_eq_periods hd]
  rw [add_mul] at hfit ⊢
  generalize op.startFrom entry * (step entry op.dimension : ℤ) = a at *
  generalize period entry op.dimension = P at *
  generalize (entry.extents.take op.dimension).prod = outer
  simp only [mem_flatMap, mem_map, mem_range]
  constructor
  · rintro ⟨o, ho, k, hk, rfl⟩
    have hle : (o + 1) * P ≤ outer * P := Nat.mul_le_mul_right P ho
    have hmod : (entry.base + o * P + a + k - entry.base) % P = a + k := by
      rw [show entry.base + o * P + a + k - entry.base = a + k + o * P by ring,
        Int.add_mul_emod_self_right]
      exact Int.emod_eq_of_lt (by omega) (by omega)
    refine ⟨⟨o * P + a.toNat + k, ?_, ?_⟩, ?_⟩
    · rw [add_mul] at hle
      omega
    · push_cast
      rw [Int.toNat_of_nonneg hS]
      ring
    · omega
  · rintro ⟨⟨k, hk, rfl⟩, hlo, hhi⟩
    rw [add_sub_cancel_left] at hlo hhi
    have hdiv := Int.mul_ediv_add_emod (k : ℤ) P
    refine ⟨k / P, Nat.div_lt_of_lt_mul (by rwa [mul_comm]), (k % P - a).toNat, ?_, ?_⟩
    · omega
    · rw [Int.natCast_ediv]
      rw [mul_comm] at hdiv
      omega

lemma nodup_narrow_bytes : (op.bytes entry).Nodup := by
  have hextent := hacc.getD_extents
  have hstart := hacc.startFrom_nonneg
  have hfit : op.length.toNat * step entry op.dimension ≤ period entry op.dimension :=
    Nat.mul_le_mul_right _ (by omega)
  rw [h.narrow_bytes_eq hne hes0 hacc hwithin, nodup_flatMap]
  refine ⟨fun o _ => nodup_range.map fun i j hij => by omega, ?_⟩
  refine pairwise_lt_range.imp fun {o o'} hlt => ?_
  -- a later period starts behind the end of an earlier one
  have hle : (o + 1) * (period entry op.dimension : ℤ) ≤ o' * period entry op.dimension := by
    exact_mod_cast Nat.mul_le_mul_right _ hlt
  rw [add_mul] at hle
  intro t ht ht'
  obtain ⟨k, hk, rfl⟩ := mem_map.mp ht
  obtain ⟨_, hk', _⟩ := mem_map.mp ht'
  rw [mem_range] at hk hk'
  omega

end

end

lemma nodup_bytes (h : entry.IsCompact) (hes0 : 0 < entry.elementSize) : entry.bytes.Nodup := by
  by_cases hne : entry.extents.prod = 0
  · rw [entry.bytes_of_prod_eq_zero hne]
    exact nodup_nil
  · rw [h.bytes_eq hne hes0]
    refine nodup_range.map fun i j hij => ?_
    omega

end CanonicalEntry.IsCompact

/-! ## Consecutive intervals -/

namespace Consecutive

variable {entry : CanonicalEntry} {d : ℕ} {a n : ℤ} {shards : List Shard}

section

variable (h : Consecutive entry d a shards n)

include h

lemma le : a ≤ n := by
  induction shards generalizing a with
  | nil => exact h.le
  | cons s rest ih =>
    have := ih h.2.2
    omega

lemma bounds : ∀ s ∈ shards, s.op.dimension = d ∧
    a ≤ s.op.startFrom entry ∧ s.op.startFrom entry + s.op.length.toNat ≤ n := by
  induction shards generalizing a with
  | nil => simp
  | cons s rest ih =>
    obtain ⟨hd, rfl, hrest⟩ := h
    intro s' hs'
    rcases mem_cons.mp hs' with rfl | hs'
    · exact ⟨hd, le_rfl, hrest.le⟩
    · obtain ⟨hd', _, hhi⟩ := ih hrest s' hs'
      exact ⟨hd', by omega, hhi⟩

lemma pairwise : shards.Pairwise fun s s' =>
    s.op.startFrom entry + (s.op.length.toNat : ℤ) ≤ s'.op.startFrom entry := by
  induction shards generalizing a with
  | nil => exact .nil
  | cons s rest ih =>
    obtain ⟨-, rfl, hrest⟩ := h
    exact .cons (fun s' hs' => (hrest.bounds s' hs').2.1) (ih hrest)

lemma cover (step : ℕ) {r : ℤ} (hlo : a * step ≤ r)
    (hhi : r < n * step) : ∃ s ∈ shards, s.op.startFrom entry * step ≤ r ∧
      r < (s.op.startFrom entry + s.op.length.toNat) * step := by
  induction shards generalizing a with
  | nil =>
    obtain rfl : a = n := h
    omega
  | cons s rest ih =>
    obtain ⟨-, rfl, hrest⟩ := h
    by_cases hr : r < (s.op.startFrom entry + s.op.length.toNat) * step
    · exact ⟨s, by simp, hlo, hr⟩
    · obtain ⟨s', hs', hin⟩ := ih hrest (by omega)
      exact ⟨s', by simp [hs'], hin⟩

end

/-- A shard that takes the whole dimension is the only one. -/
lemma eq_singleton (h : Consecutive entry d 0 shards n)
    (hpos : ∀ s ∈ shards, 0 < s.op.length.toNat) {s : Shard} (hs : s ∈ shards)
    (hstart : s.op.startFrom entry = 0) (hlen : s.op.length.toNat = n) : shards = [s] := by
  cases shards with
  | nil => simp at hs
  | cons s' rest =>
    obtain ⟨-, -, hrest⟩ := h
    have hfirst : s = s' := by
      rcases mem_cons.mp hs with rfl | hs
      · rfl
      · have := (hrest.bounds s hs).2.1
        have := hpos s' (by simp)
        omega
    subst hfirst
    cases rest with
    | nil => rfl
    | cons s'' rest =>
      have := (hrest.bounds s'' (by simp)).2
      have := hpos s'' (by simp)
      omega

end Consecutive

/-! ## The shards of a compact tensor -/

section Compact

variable {index : CanonicalIndex} {name : String} {entry : CanonicalEntry} {s : Shard}
  {shards : List Shard} {d : ℕ}

lemma shows_segment {part : List (Option Cell)} {c : ℤ} {n : ℕ}
    (hpart : part = (List.range n).map fun k : ℕ => some (.data 0 (UInt64.ofInt (c + k))))
    (h0 : 0 ≤ c) (hend : c + n ≤ 2 ^ 64) :
    List.Forall₂ Shows part ((List.range n).map fun k : ℕ => c + k) := by
  rw [hpart, forall₂_map_left_iff, forall₂_map_right_iff, forall₂_same]
  exact fun k hk => shows_of_mem_range h0 hend (mem_range.mp hk)

lemma shows_kept {subset : Bool} {es cursor : UInt64} {p : TensorPlan} (h : entry.IsCompact)
    (hes : es.toNat = entry.elementSize) (hes0 : 0 < entry.elementSize)
    (hp : planIdentity subset name entry es cursor false = .ok p)
    (hfits : entry.extents.prod ≠ 0 → entry.base + entry.extents.prod * entry.elementSize ≤ 2 ^ 64)
    (hkept : subset = false → entry.sizeBytes.toNat = entry.extents.prod * entry.elementSize ∧
      (entry.extents.prod ≠ 0 → entry.storageOffset = 0)) :
    List.Forall₂ Shows ((p.segments.flatMap selected).map fun a => some (.data 0 a))
      entry.bytes := by
  cases subset with
  | false =>
    obtain ⟨hsize, hso⟩ := hkept rfl
    rw [(planIdentity_storage hp).1, map_selected_self, hsize]
    by_cases hne : entry.extents.prod = 0
    · rw [entry.bytes_of_prod_eq_zero hne, hne, zero_mul]
      exact .nil
    · have hbase : entry.base = entry.offset.toNat := by
        rw [base, hso hne, UInt64.toNat_zero, Nat.cast_zero, add_zero]
      rw [h.bytes_eq hne hes0, hbase]
      exact shows_segment rfl (by omega) (by omega)
  | true =>
    obtain ⟨span, hspan, hsegs, -⟩ := planIdentity_span hp
    by_cases hne : entry.extents.prod = 0
    · rw [hsegs, spanBytes_eq_zero hspan hne, entry.bytes_of_prod_eq_zero hne]
      exact .nil
    · obtain ⟨hlow, hhigh⟩ := lowest_highest_of_compact h.isTensor.length_strides
        (entry.extents_pos hne) (h.compact hne)
      have hend := hfits hne
      rw [base] at hend
      obtain ⟨hfirst, -, _⟩ := computeTensorStorageSpan_eq hspan hne
        (by rw [← strides, hlow, zero_mul]) (by rw [← strides, hhigh, hes, sub_mul]) (by omega)
      rw [add_zero] at hfirst
      have hlen : span.spanBytes.toNat = entry.extents.prod * entry.elementSize := by
        have : (span.spanBytes.toNat : ℤ) = entry.extents.prod * entry.elementSize := by omega
        exact_mod_cast this
      have hsrc : entry.offset + span.sourceByteOffset = UInt64.ofInt entry.base := by
        rw [base, ← hfirst, UInt64.ofInt_add, ofInt_toNat, ofInt_toNat]
      rw [hsegs, map_selected_eq hsrc, hlen, h.bytes_eq hne hes0]
      refine shows_segment rfl ?_ ?_
      · rw [base]
        omega
      · omega

lemma mem_bytes (h : entry.IsCompact) (hne : entry.extents.prod ≠ 0)
    (hes0 : 0 < entry.elementSize) {t : ℤ} : t ∈ entry.bytes ↔
      entry.base ≤ t ∧ t < entry.base + entry.extents.prod * entry.elementSize := by
  rw [h.bytes_eq hne hes0, mem_map]
  simp only [mem_range]
  constructor
  · omega
  · rintro ⟨_, _⟩
    refine ⟨(t - entry.base).toNat, ?_, by omega⟩
    have : ((t - entry.base).toNat : ℤ) < (entry.extents.prod * entry.elementSize : ℕ) := by
      omega
    exact_mod_cast this

/-- A shard that is not the whole tensor has fewer bytes. -/
lemma length_narrow_lt {extent start : Int64} (hne : entry.extents.prod ≠ 0)
    (hes0 : 0 < entry.elementSize) (hacc : AcceptedNarrow entry s.op extent start)
    (hwithin : s.op.startFrom entry + s.op.length.toNat ≤ s.op.extent entry)
    (hnot : ¬ s.op.IsFull entry) :
    (s.op.bytes entry).length < entry.extents.prod * entry.elementSize := by
  have hd := hacc.dimension_lt_extents
  have hextent := hacc.getD_extents
  have hstart := hacc.startFrom_nonneg
  have hlt : s.op.length.toNat < entry.extents.getD s.op.dimension 0 := by
    by_contra hge
    exact hnot ⟨by omega, by omega⟩
  have hpos := entry.extents_pos hne
  have houter : 0 < (entry.extents.take s.op.dimension).prod :=
    prod_pos fun n hn => hpos n (mem_of_mem_take hn)
  have hinner : 0 < (entry.extents.drop (s.op.dimension + 1)).prod :=
    prod_pos fun n hn => hpos n (mem_of_mem_drop hn)
  rw [length_bytes s.op hacc.dimension_lt, prod_blockShape, IsCompact.prod_eq_periods hd, mul_assoc]
  exact mul_lt_mul_of_pos_left (mul_lt_mul_of_pos_right hlt (mul_pos hinner hes0)) houter

lemma shows_part (h : entry.IsCompact) (hs : s.PlannedFor index name)
    (hentry : index.find name = some entry)
    (hwithin : s.op.startFrom entry + s.op.length.toNat ≤ s.op.extent entry)
    (hsound : ShardsSound entry shards) (hmem : s ∈ shards) :
    List.Forall₂ Shows s.part (s.op.bytes entry) := by
  obtain ⟨_, extent, _, _, p, -, hes, hes0, hacc, hsmall, hpart, hcases⟩ :=
    hs.cases hentry
  rw [hpart]
  rcases hcases with ⟨hfull, hp⟩ | ⟨hnot, hp⟩
  · rw [bytes_of_isFull hacc hfull]
    exact shows_kept h hes hes0 hp hsound.fits fun hsub =>
      hsound.kept s hmem hfull (by simpa using hsub)
  · refine (shows_proper_iff hacc h.isTensor hes hes0 hp hsmall).mpr
      ⟨fun hzero => hsound.empty hzero s hmem hnot, ?_,
        fun hne => (h.block_compact hne hacc hwithin).of_zero _, ?_⟩
    · by_cases hne : entry.extents.prod = 0
      · simp [bytes_eq_nil hacc hne]
      · have hlt := length_narrow_lt hne hes0 hacc hwithin hnot
        have hend := hsound.fits hne
        have hbase : 0 ≤ entry.base := by rw [base]; omega
        omega
    · intro t ht
      by_cases hne : entry.extents.prod = 0
      · simp [bytes_eq_nil hacc hne] at ht
      · have := (mem_bytes h hne hes0).mp
          ((h.mem_narrow_bytes hne hes0 hacc hwithin).mp ht).1
        have hend := hsound.fits hne
        rw [base] at this hend
        omega

lemma accepted_of_mem (hall : ∀ s ∈ shards, s.PlannedFor index name)
    (hentry : index.find name = some entry) (hs : s ∈ shards) :
    0 < entry.elementSize ∧ ∃ extent start, AcceptedNarrow entry s.op extent start := by
  obtain ⟨_, extent, start, _, _, -, -, hes0, hacc, -⟩ := (hall s hs).cases hentry
  exact ⟨hes0, extent, start, hacc⟩

section Consecutive

variable (h : entry.IsCompact) (hentry : index.find name = some entry)
  (hd : d < entry.extents.length) (hall : ∀ s ∈ shards, s.PlannedFor index name)
  (hcons : Consecutive entry d 0 shards (entry.extents.getD d 0))

include hentry hall hcons in
lemma within_of_mem (hs : s ∈ shards) :
    s.op.startFrom entry + s.op.length.toNat ≤ s.op.extent entry := by
  obtain ⟨-, extent, _, hacc⟩ := accepted_of_mem hall hentry hs
  obtain ⟨hdim, -, hhi⟩ := hcons.bounds s hs
  rw [← hacc.getD_extents, hdim]
  exact hhi

include hd hcons in
lemma ne_nil_of_prod_ne_zero (hne : entry.extents.prod ≠ 0) : shards ≠ [] := by
  rintro rfl
  have hpos := entry.extents_pos hne _ (getElem_mem hd)
  have h0 : (0 : ℤ) = entry.extents.getD d 0 := hcons
  rw [getD_eq_getElem?_getD, getElem?_eq_getElem hd, Option.getD_some] at h0
  omega

include h hentry hall hcons in
lemma mem_shard_bytes (hne : entry.extents.prod ≠ 0) (hs : s ∈ shards) {t : ℤ} :
    t ∈ s.op.bytes entry ↔ t ∈ entry.bytes ∧
      s.op.startFrom entry * IsCompact.step entry d ≤ (t - entry.base) % IsCompact.period entry d ∧
      (t - entry.base) % IsCompact.period entry d <
        (s.op.startFrom entry + s.op.length.toNat) * IsCompact.step entry d := by
  obtain ⟨hes0, _, _, hacc⟩ := accepted_of_mem hall hentry hs
  rw [← (hcons.bounds s hs).1]
  exact h.mem_narrow_bytes hne hes0 hacc (within_of_mem hentry hall hcons hs)

include h hentry hd hall hcons in
lemma mem_bytes_iff (t : ℤ) : t ∈ entry.bytes ↔ ∃ s ∈ shards, t ∈ s.op.bytes entry := by
  by_cases hne : entry.extents.prod = 0
  · rw [entry.bytes_of_prod_eq_zero hne]
    refine iff_of_false not_mem_nil ?_
    rintro ⟨s, hs, ht⟩
    obtain ⟨-, _, _, hacc⟩ := accepted_of_mem hall hentry hs
    simp [bytes_eq_nil hacc hne] at ht
  · obtain ⟨_, hs₀⟩ := exists_mem_of_ne_nil _ (ne_nil_of_prod_ne_zero hd hcons hne)
    obtain ⟨hes0, -⟩ := accepted_of_mem hall hentry hs₀
    constructor
    · intro ht
      have hpos : (0 : ℤ) < IsCompact.period entry d := by
        have hprod : 0 < entry.extents.prod * entry.elementSize :=
          mul_pos (pos_of_ne_zero hne) hes0
        rw [IsCompact.prod_eq_periods hd] at hprod
        exact_mod_cast Nat.pos_of_mul_pos_left hprod
      obtain ⟨s, hs, hin⟩ := hcons.cover (IsCompact.step entry d)
        (r := (t - entry.base) % IsCompact.period entry d)
        (by rw [zero_mul]; exact Int.emod_nonneg _ hpos.ne')
        (by exact_mod_cast Int.emod_lt_of_pos _ hpos)
      exact ⟨s, hs, (mem_shard_bytes h hentry hall hcons hne hs).mpr ⟨ht, hin⟩⟩
    · rintro ⟨s, hs, ht⟩
      exact ((mem_shard_bytes h hentry hall hcons hne hs).mp ht).1

include h hentry hall hcons in
/-- No byte belongs to two shards, or twice to one. -/
lemma nodup_of_shows
    (hshow : ∀ s ∈ shards, (s.offsets.map fun o : ℕ => (o : ℤ)) = s.op.bytes entry) :
    (shards.flatMap Shard.offsets).Nodup := by
  have hbytes : ∀ s ∈ shards, ∀ o ∈ s.offsets, (o : ℤ) ∈ s.op.bytes entry := fun s hs o ho => by
    rw [← hshow s hs]
    exact mem_map_of_mem ho
  rw [nodup_flatMap]
  constructor
  · intro s hs
    refine Nodup.of_map (fun o : ℕ => (o : ℤ)) ?_
    rw [hshow s hs]
    obtain ⟨hes0, extent, start, hacc⟩ := accepted_of_mem hall hentry hs
    by_cases hne : entry.extents.prod = 0
    · rw [bytes_eq_nil hacc hne]
      exact nodup_nil
    · exact h.nodup_narrow_bytes hne hes0 hacc (within_of_mem hentry hall hcons hs)
  · refine hcons.pairwise.imp_of_mem fun {s s'} hs hs' hle => ?_
    intro o ho ho'
    have ht := hbytes s hs o ho
    have ht' := hbytes s' hs' o ho'
    obtain ⟨-, extent, start, hacc⟩ := accepted_of_mem hall hentry hs
    by_cases hne : entry.extents.prod = 0
    · simp [bytes_eq_nil hacc hne] at ht
    · -- the place in the period lies in front of the end of one and behind the start of the other
      rw [mem_shard_bytes h hentry hall hcons hne hs] at ht
      rw [mem_shard_bytes h hentry hall hcons hne hs'] at ht'
      have := mul_le_mul_of_nonneg_right hle (Int.natCast_nonneg (IsCompact.step entry d))
      omega

include h hentry hd hall hcons in
lemma reassemble_of_sound (hsound : ShardsSound entry shards) : Reassemble entry shards := by
  have hparts : ∀ s ∈ shards, Forall₂ Shows s.part (s.op.bytes entry) := fun s hs =>
    shows_part h (hall s hs) hentry (within_of_mem hentry hall hcons hs) hsound hs
  have hshow := fun s hs => offsets_eq_of_shows (hparts s hs)
  have hunion : ∀ t : ℤ,
      t ∈ entry.bytes ↔ ∃ o ∈ shards.flatMap Shard.offsets, (o : ℤ) = t := by
    intro t
    rw [mem_bytes_iff h hentry hd hall hcons]
    constructor
    · rintro ⟨s, hs, ht⟩
      rw [← hshow s hs] at ht
      obtain ⟨o, ho, rfl⟩ := mem_map.mp ht
      exact ⟨o, mem_flatMap.mpr ⟨s, hs, ho⟩, rfl⟩
    · rintro ⟨o, ho, rfl⟩
      obtain ⟨s, hs, ho⟩ := mem_flatMap.mp ho
      exact ⟨s, hs, by rw [← hshow s hs]; exact mem_map_of_mem ho⟩
  refine ⟨nodup_of_shows h hentry hall hcons hshow, hunion, fun artifact buffer a => ?_⟩
  have hwrites : (shards.flatMap fun s => s.writes artifact) =
      (shards.flatMap Shard.offsets).map fun o => (o, artifact o) := by
    rw [map_flatMap]
    refine flatMap_congr fun s hs => ?_
    obtain ⟨_, _, _, _, p, -, -, -, -, -, hpart, -⟩ := (hall s hs).cases hentry
    exact writes_eq (hall s hs) hpart artifact
  rw [hwrites, writeAll_map_self]
  refine if_congr ?_ rfl rfl
  rw [hunion]
  exact ⟨fun ha => ⟨a, ha, rfl⟩, fun ⟨o, ho, heq⟩ => by rwa [← Int.natCast_inj.mp heq]⟩

include h hentry hd hall hcons in
lemma sound_of_reassemble (hre : Reassemble entry shards) : ShardsSound entry shards := by
  refine ⟨fun hne => ?_, fun s hs hfull hsub => ?_, fun hzero s hs hnot => ?_⟩
  · -- the last byte of the tensor is one of the offsets
    obtain ⟨_, hs₀⟩ := exists_mem_of_ne_nil _ (ne_nil_of_prod_ne_zero hd hcons hne)
    obtain ⟨hes0, -⟩ := accepted_of_mem hall hentry hs₀
    have hN : (0 : ℤ) < entry.extents.prod * entry.elementSize := by
      exact_mod_cast mul_pos (pos_of_ne_zero hne) hes0
    obtain ⟨o, ho, _⟩ := (hre.union _).mp ((mem_bytes h hne hes0).mpr
      ⟨show entry.base ≤ entry.base + entry.extents.prod * entry.elementSize - 1 by omega,
        by omega⟩)
    obtain ⟨s, -, ho⟩ := mem_flatMap.mp ho
    have := lt_of_mem_offsets ho
    omega
  · obtain ⟨es, extent, start, cursor, p, -, hes, hes0, hacc, hsmall, hpart, hcases⟩ :=
      (hall s hs).cases hentry
    obtain ⟨-, hp⟩ | ⟨hnot, -⟩ := hcases
    swap
    · exact absurd hfull hnot
    have hone : shards = [s] := by
      refine hcons.eq_singleton (fun s' hs' => ?_) hs hfull.1 ?_
      · obtain ⟨-, _, _, hacc'⟩ := accepted_of_mem hall hentry hs'
        exact IsCompact.length_pos hacc'
      · rw [hfull.2, ← hacc.getD_extents, (hcons.bounds s hs).1]
    rw [show decide (s.subsetNames ≠ []) = false by simp [hsub]] at hp
    rw [(planIdentity_storage hp).1] at hpart
    have hoffsets := offsets_of_selected hpart
    rw [flatMap_singleton, selected, makeDataSegment, map_map] at hoffsets
    have hdisjoint := hre.disjoint
    have hunion := hre.union
    rw [hone, flatMap_singleton] at hdisjoint hunion
    -- one offset for each byte of the storage, and one for each byte of the tensor
    have hperm : (s.offsets.map fun o : ℕ => (o : ℤ)).Perm entry.bytes := by
      refine (perm_ext_iff_of_nodup (hdisjoint.map fun _ _ => Int.natCast_inj.mp)
        (h.nodup_bytes hes0)).mpr fun t => ?_
      rw [hunion, mem_map]
    have hsize : entry.sizeBytes.toNat = entry.extents.prod * entry.elementSize := by
      have := hperm.length_eq
      rw [length_map, hoffsets, length_map, length_range, bytes, length_elementBytes] at this
      exact this
    refine ⟨hsize, fun hne => ?_⟩
    have hfirst : entry.offset.toNat ∈ s.offsets := by
      rw [hoffsets]
      refine mem_map.mpr ⟨0, mem_range.mpr ?_, ?_⟩
      · rw [hsize]
        exact mul_pos (pos_of_ne_zero hne) hes0
      · rw [Function.comp_apply, show UInt64.ofNat 0 = 0 from rfl, add_zero]
    have := (mem_bytes h hne hes0).mp ((hunion entry.offset.toNat).mpr ⟨_, hfirst, rfl⟩)
    rw [base] at this
    exact UInt64.toNat_inj.mp (by rw [UInt64.toNat_zero]; omega)
  · obtain ⟨es, extent, start, cursor, p, -, hes, hes0, hacc, hsmall, hpart, hcases⟩ :=
      (hall s hs).cases hentry
    obtain ⟨hfull, -⟩ | ⟨-, hp⟩ := hcases
    · exact absurd hfull hnot
    have hnone : s.offsets = [] := by
      refine eq_nil_iff_forall_not_mem.mpr fun o ho => ?_
      have := (hre.union o).mpr ⟨o, mem_flatMap.mpr ⟨s, hs, ho⟩, rfl⟩
      simp [entry.bytes_of_prod_eq_zero hzero] at this
    rw [offsets_of_selected hpart, map_eq_nil_iff] at hnone
    have hshow := shows_proper_iff hacc h.isTensor hes hes0 hp hsmall
    rw [hnone, bytes_eq_nil hacc hzero] at hshow
    exact (hshow.mp .nil).1 hzero

end Consecutive

end Compact

section

variable {index : CanonicalIndex} {name : String} {entry : CanonicalEntry} {d : ℕ}
  {shards : List Shard} (hentry : index.find name = some entry) (hcompact : entry.IsCompact)

include hentry hcompact

/-- **Which partitions of a tensor reassemble.**  For every index, every tensor of it with compact
strides, every dimension and every list of accepted plans that narrow the tensor to consecutive
intervals of that dimension: the shards reassemble the tensor exactly under the conditions of
`ShardsSound`. -/
lemma reassemble_iff_sound (hd : d < entry.extents.length) (hplanned : ∀ s ∈ shards, s.PlannedFor index name)
    (hcons : Consecutive entry d 0 shards (entry.extents.getD d 0)) :
    Reassemble entry shards ↔ ShardsSound entry shards :=
  ⟨sound_of_reassemble hcompact hentry hd hplanned hcons,
    reassemble_of_sound hcompact hentry hd hplanned hcons⟩

/-- **The shards of a tensor with elements reassemble it**, but for a single shard that takes the whole
dimension and is planned without a subset: it keeps the storage of the tensor, and that has to be the
elements. -/
theorem shards_reassemble_iff (hne : entry.extents.prod ≠ 0) (hd : d < entry.extents.length)
    (hplanned : ∀ s ∈ shards, s.PlannedFor index name)
    (hcons : Consecutive entry d 0 shards (entry.extents.getD d 0)) :
    Reassemble entry shards ↔
      entry.base + entry.extents.prod * entry.elementSize ≤ 2 ^ 64 ∧
      ∀ s ∈ shards, s.op.IsFull entry → s.subsetNames = [] →
        entry.sizeBytes.toNat = entry.extents.prod * entry.elementSize ∧
          entry.storageOffset = 0 := by
  rw [reassemble_iff_sound hentry hcompact hd hplanned hcons]
  constructor
  · rintro ⟨hfits, hkept, -⟩
    refine ⟨hfits hne, fun s hs hfull hsub => ?_⟩
    obtain ⟨hsize, hso⟩ := hkept s hs hfull hsub
    exact ⟨hsize, hso hne⟩
  · rintro ⟨hfits, hkept⟩
    refine ⟨fun _ => hfits, fun s hs hfull hsub => ?_, fun hzero => absurd hzero hne⟩
    obtain ⟨hsize, hso⟩ := hkept s hs hfull hsub
    exact ⟨hsize, fun _ => hso⟩

end

/-- Four bytes in the middle of a storage of eight. -/
def paddedEntry : CanonicalEntry :=
  { sizeBytes := 8, shape := [4], dtype := "torch.uint8", storageOffset := 2 }

def wholeDimension : NarrowOp := { dim := 0, start := 0, length := 4 }

/-- The partition of a tensor into one shard, where the storage has more bytes than the tensor:
the shard selects all of them. -/
theorem shards_select_storage : ∃ s : Shard, paddedEntry.IsCompact ∧
    s.PlannedFor (oneTensor paddedEntry) "t" ∧ s.op = wholeDimension ∧
    Consecutive paddedEntry 0 0 [s] 4 ∧ paddedEntry.bytes = [2, 3, 4, 5] ∧
    s.offsets = [0, 1, 2, 3, 4, 5, 6, 7] ∧ ¬ Reassemble paddedEntry [s] := by
  obtain ⟨st, plan, view, hst, hplan, hview, hoff⟩ : ∃ st plan view,
      planViews (oneTensor paddedEntry) (oneNarrow wholeDimension) [] = .ok st ∧
      computeBidirectionalInternal (oneTensor paddedEntry) (oneNarrow wholeDimension) [] =
        .ok plan ∧ st.views = [("t", view)] ∧
      (Shard.mk (oneNarrow wholeDimension) [] wholeDimension st plan view).offsets =
        [0, 1, 2, 3, 4, 5, 6, 7] :=
    ⟨_, _, _, rfl, rfl, rfl, by decide⟩
  refine ⟨⟨oneNarrow wholeDimension, [], wholeDimension, st, plan, view⟩,
    ⟨⟨by decide, by simp [paddedEntry]⟩, fun _ => ⟨fun _ => rfl, trivial⟩⟩,
    ⟨hst, hplan, rfl, by simp [hview]⟩, rfl, ?_, by decide, hoff, ?_⟩
  · exact ⟨rfl, rfl, rfl⟩
  intro h
  have := (h.union 0).mpr ⟨0, by simp [hoff], rfl⟩
  exact absurd this (by decide)

def lastColumns : NarrowOp := { dim := 1, start := 2, length := 2 }

lemma consecutive_halves {entry : CanonicalEntry} {s₁ s₂ : Shard} (h₁ : s₁.op = firstColumns)
    (h₂ : s₂.op = lastColumns) : Consecutive entry 1 0 [s₁, s₂] 4 := by
  simp only [Consecutive, h₁, h₂]
  exact ⟨rfl, rfl, rfl, rfl, rfl⟩

lemma exists_shard (entry : CanonicalEntry) (op : NarrowOp) {st : PlanState}
    {plan : BidirectionalViewPlan} {view : CanonicalEntry}
    (hst : planViews (oneTensor entry) (oneNarrow op) [] = .ok st)
    (hplan : computeBidirectionalInternal (oneTensor entry) (oneNarrow op) [] = .ok plan)
    (hview : st.views = [("t", view)]) :
    ∃ s : Shard, s.op = op ∧ s.PlannedFor (oneTensor entry) "t" :=
  ⟨⟨oneNarrow op, [], op, st, plan, view⟩, rfl, hst, hplan, rfl, by simp [hview]⟩

/-- The two halves of a compact tensor reassemble it. -/
theorem shards_reassemble_halves : ∃ s₁ s₂ : Shard,
    s₁.op = firstColumns ∧ s₂.op = lastColumns ∧ Reassemble rowMajorEntry [s₁, s₂] := by
  obtain ⟨s₁, h₁, hplanned₁⟩ := exists_shard rowMajorEntry firstColumns rfl rfl rfl
  obtain ⟨s₂, h₂, hplanned₂⟩ := exists_shard rowMajorEntry lastColumns rfl rfl rfl
  have hcompact : rowMajorEntry.IsCompact :=
    ⟨⟨by decide, by simp [rowMajorEntry]⟩, fun _ => ⟨fun _ => rfl, fun _ => rfl, trivial⟩⟩
  have hplanned : ∀ s ∈ [s₁, s₂], s.PlannedFor (oneTensor rowMajorEntry) "t" := by
    simp [hplanned₁, hplanned₂]
  have hnot : ∀ s ∈ [s₁, s₂], ¬ s.op.IsFull rowMajorEntry := by
    rintro s (_ | ⟨_, _ | ⟨_, ⟨⟩⟩⟩)
    · rw [h₁, NarrowOp.IsFull]
      decide
    · rw [h₂, NarrowOp.IsFull]
      decide
  refine ⟨s₁, s₂, h₁, h₂, ?_⟩
  exact (shards_reassemble_iff rfl hcompact (by decide) (by decide) hplanned
    (consecutive_halves h₁ h₂)).mpr
    ⟨by decide, fun s hs hfull => absurd hfull (hnot s hs)⟩

end TensorCast.View
