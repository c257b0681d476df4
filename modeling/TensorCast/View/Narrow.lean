import TensorCast.View.PlannerSpec
import TensorCast.View.Tensor

/-!
# What a narrow selects

`tensor.narrow(dim, start, length)` keeps the elements with an index from `start` to `start + length`
in one dimension.  The planner emits one block for each index tuple in front of the dimension, and
takes the bytes of a block to be consecutive.  A narrow of the whole dimension keeps the storage of
the tensor, its strides and its storage offset.
-/

namespace TensorCast.View

open Core Lib ByteRange CanonicalEntry List UInt64 Option Nat

/-! ## The narrowed elements -/

namespace NarrowOp

variable (op : NarrowOp) (entry : CanonicalEntry)

def dimension : ℕ := op.dim.toNatClampNeg

/-- The extent of the narrowed dimension. -/
def extent : ℤ := (entry.shape.getD op.dimension 0).toInt

/-- The start, counted from the front of the dimension. -/
def startFrom : ℤ :=
  if op.start.toInt < 0 then op.start.toInt + op.extent entry else op.start.toInt

/-- The narrow keeps the whole dimension. -/
def IsFull : Prop := op.startFrom entry = 0 ∧ op.length.toNat = op.extent entry

/-- The address of the first narrowed element. -/
def narrowBase : ℤ :=
  entry.base + op.startFrom entry * entry.strides.getD op.dimension 0 * entry.elementSize

/-- The bytes of `tensor.narrow(dim, start, length)`, in row-major order. -/
def bytes : List ℤ :=
  elementBytes entry.elementSize (op.narrowBase entry)
    (entry.extents.set op.dimension op.length.toNat) entry.strides

/-- The extents from the narrowed dimension on, down to the bytes of an element. -/
def blockShape : List ℕ :=
  op.length.toNat :: entry.extents.drop (op.dimension + 1) ++ [entry.elementSize]

/-- The strides of these dimensions, in bytes. -/
def blockStride : List ℤ :=
  (entry.strides.drop op.dimension).map (· * (entry.elementSize : ℤ)) ++ [1]

end NarrowOp

/-! ## What the property says -/

/-- The byte of the view is taken from the address `t` of the artifact. -/
def Shows (cell : Option Cell) (t : ℤ) : Prop :=
  ∃ a : UInt64, cell = some (.data 0 a) ∧ (a.toNat : ℤ) = t

/-- The positions of the elements of a tensor of the view inside its part, in row-major order. -/
def viewOrder (view : CanonicalEntry) : List ℤ :=
  elementBytes view.elementSize view.storageOffset.toNat view.extents view.strides

/-- **A narrow selects the right elements.**  It lies inside the dimension; every byte of the tensor's
part of the view comes from the tensor's storage; and the part consists of the bytes of the narrowed
elements, in row-major order, or of the tensor's own layout where the whole dimension is kept. -/
structure NarrowSelects (entry : CanonicalEntry) (op : NarrowOp) (map : ByteRangeMap)
    (view : CanonicalEntry) : Prop where
  isTensor : entry.IsTensor
  within : op.startFrom entry + op.length.toNat ≤ op.extent entry
  inStorage : ∀ c ∈ viewPart map view, ∃ t, Shows c t ∧ entry.InStorage t
  elements : ¬ op.IsFull entry → List.Forall₂ Shows (viewPart map view) (op.bytes entry)
  kept : op.IsFull entry → List.Forall₂
    (fun q t => 0 ≤ q ∧ ∃ c, (viewPart map view)[q.toNat]? = some c ∧ Shows c t)
    (viewOrder view) (op.bytes entry)

/-- The inputs for which the planner gets a narrow right. -/
structure NarrowSound (subset : Bool) (entry : CanonicalEntry) (op : NarrowOp) : Prop where
  isTensor : entry.IsTensor
  within : op.startFrom entry + op.length.toNat ≤ op.extent entry
  /-- The elements lie in the tensor's storage, below `2 ^ 64`. -/
  fits : ∀ t ∈ op.bytes entry, entry.InStorage t ∧ t < 2 ^ 64
  /-- Where the whole storage is taken, it ends below `2 ^ 64` too. -/
  storage : op.IsFull entry → subset = false → entry.offset.toNat + entry.sizeBytes.toNat ≤ 2 ^ 64
  /-- A tensor without elements: the block that is taken all the same has no bytes. -/
  empty : ¬ op.IsFull entry → entry.extents.prod = 0 → 2 ^ 64 ∣ (op.blockShape entry).prod
  /-- The view has less than `2 ^ 64` bytes. -/
  count : ¬ op.IsFull entry → (op.bytes entry).length < 2 ^ 64
  /-- From the narrowed dimension on the strides, in bytes and modulo `2 ^ 64`, are compact. -/
  compact : ¬ op.IsFull entry → entry.extents.prod ≠ 0 →
    CompactMod (2 ^ 64) (op.blockShape entry) (op.blockStride entry)

/-! ## The numbers of an accepted narrow -/

namespace AcceptedNarrow

variable {entry : CanonicalEntry} {op : NarrowOp} {extent start : Int64}

section

variable (h : AcceptedNarrow entry op extent start)

include h

lemma dimension_lt : op.dimension < entry.shape.length :=
  (List.getElem?_eq_some_iff.mp h.extent_eq).1

lemma dimension_lt_extents : op.dimension < entry.extents.length := by
  simpa using h.dimension_lt

lemma toInt_extent : extent.toInt = op.extent entry := by
  rw [NarrowOp.extent, NarrowOp.dimension, getD_eq_getElem?_getD, h.extent_eq, getD_some]

lemma extent_pos' : 0 < op.extent entry := by
  rw [← h.toInt_extent]
  exact Int64.lt_iff_toInt_lt.mp h.extent_pos

lemma getD_extents : (entry.extents.getD op.dimension 0 : ℤ) = op.extent entry := by
  have hget := h.extent_eq
  rw [← NarrowOp.dimension] at hget
  have := h.extent_pos'
  rw [← h.toInt_extent] at this
  rw [getD_eq_getElem?_getD, extents, getElem?_map, hget, ← h.toInt_extent]
  simp only [map_some, getD_some]
  omega

lemma toInt_start : start.toInt = op.startFrom entry := by
  have hpos := h.extent_pos'
  have hmax := extent.toInt_lt
  have hmin := op.start.le_toInt
  have h0 : (op.start < 0) ↔ op.start.toInt < 0 := Int64.lt_iff_toInt_lt
  rw [h.toInt_extent] at hmax
  rw [h.start_eq, normalizedStart, NarrowOp.startFrom]
  by_cases hneg : op.start < 0
  · rw [if_pos hneg, if_pos (h0.mp hneg), Int64.toInt_add, h.toInt_extent]
    have := h0.mp hneg
    exact Int.bmod_eq_of_le (by norm_num; omega) (by norm_num; omega)
  · rw [if_neg hneg, if_neg (mt h0.mpr hneg)]

lemma startFrom_nonneg : 0 ≤ op.startFrom entry := by
  rw [← h.toInt_start]
  exact Int64.le_iff_toInt_le.mp h.start_nonneg

lemma startFrom_lt : op.startFrom entry < op.extent entry := by
  rw [← h.toInt_start, ← h.toInt_extent]
  exact Int64.lt_iff_toInt_lt.mp h.start_lt

lemma toInt_length : op.length.toInt64.toInt = op.length.toNat := by
  have hlt := h.length_lt
  have : op.length.toInt64.toInt = _ := BitVec.toInt_eq_toNat_cond op.length.toBitVec
  rw [this, if_pos]
  · rfl
  · change 2 * op.length.toNat < _
    omega

lemma isFull_iff : op.IsFull entry ↔ start = 0 ∧ op.length.toInt64 = extent := by
  rw [NarrowOp.IsFull, ← h.toInt_start, ← h.toInt_extent, ← h.toInt_length, Int64.toInt_inj]
  refine and_congr_left' ⟨fun h0 => ?_, fun h0 => by rw [h0]; rfl⟩
  exact Int64.toInt_inj.mp h0

end

end AcceptedNarrow

/-! ## The blocks -/

lemma product_eq {l : List Int64} (h : ∀ n ∈ l, 0 ≤ n.toInt) :
    product l = UInt64.ofInt ((l.map fun n => n.toInt.toNat).prod : ℕ) := by
  induction l with
  | nil => rfl
  | cons v l ih =>
    have hv := h v (by simp)
    rw [product, ih fun n hn => h n (by simp [hn]), map_cons, prod_cons]
    split_ifs with h0
    · have : v.toInt = 0 := le_antisymm (Int64.le_iff_toInt_le.mp h0) hv
      simp [this]
    · rw [toUInt64_eq_ofInt, ← ofInt_mul]
      push_cast
      rw [Int.toNat_of_nonneg hv]

lemma toNat_toUInt64_of_nonneg {n : Int64} (h : 0 ≤ n.toInt) : n.toUInt64.toNat = n.toInt.toNat := by
  have hlt := n.toInt_lt
  have := (toNat_eq_iff).mpr ⟨toUInt64_eq_ofInt n, h, by omega⟩
  omega

/-- The digits of an outer index, each times its stride, are its address in the outer
dimensions. -/
lemma prefixElements_eq (name : String) {rs : List (Int64 × Int64)} (hpos : ∀ d ∈ rs, 0 < d.1.toInt)
    (o acc : UInt64) (ho : o.toNat < (rs.map fun d => d.1.toInt.toNat).prod) :
    ∃ a, (addrs (rs.reverse.map fun d => d.1.toInt.toNat)
        (rs.reverse.map fun d => d.2.toInt))[o.toNat]? = some a ∧
      prefixElements name (rs.map fun d => (d.1, some d.2)) o acc = .ok (acc + UInt64.ofInt a) := by
  induction rs generalizing o acc with
  | nil =>
    have h0 : o.toNat = 0 := by simpa using ho
    exact ⟨0, by simp [h0], by simp [prefixElements]⟩
  | cons d rest ih =>
    obtain ⟨n, s⟩ := d
    have hn : 0 < n.toInt := hpos (n, s) (by simp)
    have hext := toNat_toUInt64_of_nonneg hn.le
    obtain ⟨a, ha, hrun⟩ := ih (fun d hd => hpos d (by simp [hd])) (o / n.toUInt64)
      (acc + s.toUInt64 * (o % n.toUInt64)) (by
        rw [UInt64.toNat_div, hext]
        exact Nat.div_lt_of_lt_mul ho)
    rw [UInt64.toNat_div, hext] at ha
    have hmod : o.toNat % n.toInt.toNat < n.toInt.toNat := mod_lt _ (by omega)
    refine ⟨a + (o.toNat % n.toInt.toNat : ℕ) * s.toInt, ?_, ?_⟩
    · have := getElem?_addrs_concat (by simp) s.toInt ha hmod
      rw [mul_comm, div_add_mod] at this
      simpa using this
    · have hne : n.toUInt64 ≠ 0 := ne_zero_of_pos (by omega)
      rw [map_cons, prefixElements, if_neg hne, hrun, toUInt64_eq_ofInt s, add_assoc,
        ofInt_add, ofInt_mul]
      have hdigit : ofInt (o.toNat % n.toInt.toNat : ℕ) = o % n.toUInt64 := by
        rw [← hext, ← UInt64.toNat_mod, ofInt_toNat]
      rw [hdigit, add_comm (ofInt a), mul_comm (o % n.toUInt64)]

namespace NarrowBlocks

variable {b : NarrowBlocks}

lemma selected_segments {f : ℕ → UInt64} {rounds : ℕ} {o cursor cursor' : UInt64}
    {segs : List ByteRangeSegment} (h : b.segments rounds o cursor = .ok (segs, cursor'))
    (hf : ∀ r < rounds, b.byteOffset (o + UInt64.ofNat r) = .ok (f r)) :
    segs.flatMap selected = (List.range rounds).flatMap fun r =>
      (List.range b.blockBytes.toNat).map fun k => f r + UInt64.ofNat k := by
  induction rounds generalizing o cursor segs f with
  | zero =>
    cases h
    rfl
  | succ rounds ih =>
    obtain ⟨offset, hoffset, h⟩ := bind_eq_ok.mp h
    obtain ⟨⟨_, c⟩, hrest, h⟩ := bind_eq_ok.mp h
    cases h
    have h0 : offset = f 0 := by
      have := hf 0 (succ_pos _)
      rw [show ofNat 0 = 0 from rfl, add_zero, hoffset] at this
      exact Except.ok.inj this
    have hnext : ∀ r < rounds, b.byteOffset (o + 1 + ofNat r) = .ok (f (r + 1)) := by
      intro r hr
      rw [add_assoc, add_comm 1, show (1 : UInt64) = ofNat 1 from rfl, ← ofNat_add]
      exact hf (r + 1) (by omega)
    rw [flatMap_cons, range_succ_eq_map, flatMap_cons, flatMap_map,
      ih hrest hnext, selected, makeDataSegment, h0]

lemma toNat_outerCount (ht : b.entry.IsTensor) (hpos : 0 < (b.entry.extents.take b.dim).prod)
    (hlt : (b.entry.extents.take b.dim).prod < 2 ^ 64) :
    b.outerCount.toNat = (b.entry.extents.take b.dim).prod := by
  have houter : b.outer = ofInt ((b.entry.extents.take b.dim).prod : ℕ) := by
    rw [outer, product_eq fun n hn => ht.nonneg n (mem_of_mem_take hn), map_take]
    rfl
  have h : b.outer.toNat = (b.entry.extents.take b.dim).prod := by
    have := toNat_ofInt_eq_iff.mpr ⟨Int.natCast_nonneg _, by exact_mod_cast hlt⟩
    rw [houter]
    exact_mod_cast this
  rw [outerCount, toNat_max, h]
  exact max_eq_right hpos

lemma blockBytes_eq (ht : b.entry.IsTensor) :
    b.blockBytes = UInt64.ofInt
      (b.length.toInt * ((b.entry.extents.drop (b.dim + 1)).prod : ℕ) * b.elementSize.toNat) := by
  have hinner : b.inner = ofInt ((b.entry.extents.drop (b.dim + 1)).prod : ℕ) := by
    rw [inner, product_eq fun n hn => ht.nonneg n (mem_of_mem_drop hn), map_drop]
    rfl
  rw [blockBytes, hinner, toUInt64_eq_ofInt, ofInt_mul, ofInt_mul, ofInt_toNat]

section

variable {entry : CanonicalEntry} (ht : entry.IsTensor) (dim : ℕ)

include ht

lemma outerDims_eq :
    outerDims entry dim =
      ((entry.shape.take dim).zip (entry.entryStride.take dim)).reverse.map
        fun d => (d.1, some d.2) := by
  rw [outerDims, map_reverse]
  congr 1
  refine ext_getElem (by simp [ht.rank]) fun i h₁ h₂ => ?_
  have hi : i < entry.entryStride.length := by
    simp only [length_map, length_zipIdx, length_take] at h₁
    rw [ht.rank]
    omega
  simp

lemma map_fst_zip_take :
    (((entry.shape.take dim).zip (entry.entryStride.take dim)).map fun d => d.1.toInt.toNat) =
      entry.extents.take dim := by
  refine ext_getElem (by simp [ht.rank]) fun i h₁ h₂ => ?_
  simp [extents]

lemma map_snd_zip_take :
    (((entry.shape.take dim).zip (entry.entryStride.take dim)).map fun d => d.2.toInt) =
      entry.strides.take dim := by
  refine ext_getElem (by simp [ht.rank, strides]) fun i h₁ h₂ => ?_
  simp [strides]

end

section

variable (ht : b.entry.IsTensor) (hpos : ∀ n ∈ b.entry.extents.take b.dim, 0 < n)
  (hlt : (b.entry.extents.take b.dim).prod < 2 ^ 64)

include ht hpos hlt

lemma outerElements_eq {o : UInt64} (ho : o.toNat < (b.entry.extents.take b.dim).prod) :
    ∃ a, (addrs (b.entry.extents.take b.dim) (b.entry.strides.take b.dim))[o.toNat]? = some a ∧
      b.outerElements o = .ok (UInt64.ofInt a) := by
  have hcount := toNat_outerCount ht (prod_pos hpos) hlt
  rw [outerElements]
  by_cases h1 : 1 < b.outerCount
  · rw [if_pos h1, outerDims_eq ht]
    have hextents := map_fst_zip_take ht b.dim
    have hpos' : ∀ d ∈ ((b.entry.shape.take b.dim).zip (b.entry.entryStride.take b.dim)).reverse,
        0 < d.1.toInt := by
      intro d hd
      have hmem : d.1.toInt.toNat ∈ b.entry.extents.take b.dim := by
        rw [← hextents]
        exact mem_map.mpr ⟨d, mem_reverse.mp hd, rfl⟩
      have := hpos _ hmem
      omega
    obtain ⟨a, ha, hrun⟩ := prefixElements_eq b.name hpos' o 0 (by
      rw [map_reverse, prod_reverse, hextents]
      exact ho)
    rw [reverse_reverse, hextents, map_snd_zip_take ht] at ha
    exact ⟨a, ha, by rw [hrun, zero_add]⟩
  · have h0 : o.toNat = 0 := by
      rw [lt_iff_toNat_lt] at h1
      simp only [toNat_one] at h1
      omega
    exact ⟨0, by rw [h0]; exact getElem?_addrs_zero _ hpos, by rw [if_neg h1, ofInt_zero]⟩

/-- **The offset of a block is the address of its first byte**, modulo `2 ^ 64`. -/
lemma byteOffset_eq (hdim : b.dim < b.entry.shape.length) {o : UInt64}
    (ho : o.toNat < (b.entry.extents.take b.dim).prod) :
    ∃ a, (addrs (b.entry.extents.take b.dim) (b.entry.strides.take b.dim))[o.toNat]? = some a ∧
      b.byteOffset o = .ok (UInt64.ofInt (b.entry.base +
        b.start.toInt * b.entry.strides.getD b.dim 0 * b.elementSize.toNat +
        a * b.elementSize.toNat)) := by
  have hstride : b.strideDim = ofInt (b.entry.strides.getD b.dim 0) := by
    have hlen : b.dim < b.entry.entryStride.length := by rw [ht.rank]; exact hdim
    rw [strideDim]
    simp [strides, hlen, toUInt64_eq_ofInt]
  obtain ⟨a, ha, helems⟩ := outerElements_eq ht hpos hlt ho
  refine ⟨a, ha, ?_⟩
  have hsum : b.entry.base + b.start.toInt * b.entry.strides.getD b.dim 0 * b.elementSize.toNat +
      a * b.elementSize.toNat = b.entry.offset.toNat + b.entry.storageOffset.toNat +
        (a + b.start.toInt * b.entry.strides.getD b.dim 0) * b.elementSize.toNat := by
    rw [base]
    ring
  rw [byteOffset, helems, ok_bind, hstride, toUInt64_eq_ofInt, hsum]
  simp only [ofInt_add, ofInt_mul, ofInt_toNat]

lemma selected_eq_blocks (hdim : b.dim < b.entry.shape.length) {cursor cursor' : UInt64}
    {segs : List ByteRangeSegment}
    (h : b.segments b.outerCount.toNat 0 cursor = .ok (segs, cursor')) :
    segs.flatMap selected =
      (addrs (b.entry.extents.take b.dim) (b.entry.strides.take b.dim)).flatMap fun a =>
        (List.range b.blockBytes.toNat).map fun k : ℕ => UInt64.ofInt (b.entry.base +
          b.start.toInt * b.entry.strides.getD b.dim 0 * b.elementSize.toNat +
          a * b.elementSize.toNat + k) := by
  rw [toNat_outerCount ht (prod_pos hpos) hlt] at h
  let outerAddrs := addrs (b.entry.extents.take b.dim) (b.entry.strides.take b.dim)
  have hrun := selected_segments (f := fun r => ofInt (b.entry.base +
      b.start.toInt * b.entry.strides.getD b.dim 0 * b.elementSize.toNat +
      outerAddrs.getD r 0 * b.elementSize.toNat)) h fun r hr => by
    have hr' : (0 + ofNat r).toNat = r := by
      rw [zero_add, toNat_ofNat', mod_eq_of_lt (by omega)]
    obtain ⟨a, ha, hoff⟩ := byteOffset_eq ht hpos hlt hdim (o := 0 + ofNat r) (by omega)
    rw [hr'] at ha
    have hget : outerAddrs.getD r 0 = a := by
      rw [getD_eq_getElem?_getD, ha, getD_some]
    rw [hoff, hget]
  rw [hrun, ← flatMap_range_getD outerAddrs 0, length_addrs]
  refine flatMap_congr fun r _ => map_congr_left fun k _ => ?_
  rw [ofInt_add _ (k : ℤ), ofNat_eq_ofInt]

end

end NarrowBlocks

/-! ## Blocks against elements -/

lemma Shows.eq {c : Option Cell} {t t' : ℤ} (h : Shows c t) (h' : Shows c t') : t = t' := by
  obtain ⟨a, rfl, rfl⟩ := h
  obtain ⟨_, ha', rfl⟩ := h'
  cases ha'
  rfl

lemma shows_ofInt_iff {x t : ℤ} :
    Shows (some (.data 0 (UInt64.ofInt x))) t ↔ t ≡ x [ZMOD 2 ^ 64] ∧ 0 ≤ t ∧ t < 2 ^ 64 := by
  have h : Shows (some (.data 0 (ofInt x))) t ↔ ((ofInt x).toNat : ℤ) = t :=
    ⟨fun ⟨a, ha, hat⟩ => by cases ha; exact hat, fun h => ⟨_, rfl, h⟩⟩
  rw [h, toNat_eq_iff, ofInt_eq_iff]
  exact and_congr_left' ⟨Int.ModEq.symm, Int.ModEq.symm⟩

/-- Consecutive bytes show the addresses of strided elements exactly if the strides are compact
and the addresses are words. -/
lemma forall₂_shows_block_iff {shape : List ℕ} {stride : List ℤ} {c : ℤ} :
    List.Forall₂ Shows
      ((List.range shape.prod).map fun k : ℕ => some (.data 0 (UInt64.ofInt (c + k))))
      ((addrs shape stride).map (c + ·)) ↔
    (∀ (k : ℕ) (x : ℤ), (addrs shape stride)[k]? = some x → x ≡ k [ZMOD 2 ^ 64]) ∧
      ∀ x ∈ addrs shape stride, 0 ≤ c + x ∧ c + x < 2 ^ 64 := by
  have hpoint : ∀ (k : ℕ) (x : ℤ), Shows (some (.data 0 (ofInt (c + k)))) (c + x) ↔
      x ≡ k [ZMOD 2 ^ 64] ∧ 0 ≤ c + x ∧ c + x < 2 ^ 64 := fun k x => by
    rw [shows_ofInt_iff]
    exact and_congr_left' ⟨Int.ModEq.add_left_cancel' c, Int.ModEq.add_left c⟩
  rw [forall₂_iff_getElem?]
  simp only [length_map, length_range, length_addrs, true_and, getElem?_map,
    map_eq_some_iff, forall_exists_index, and_imp]
  constructor
  · intro h
    have hk : ∀ (k : ℕ) (x : ℤ), (addrs shape stride)[k]? = some x → _ := fun k x hx => by
      have hlt := (List.getElem?_eq_some_iff.mp hx).1
      rw [length_addrs] at hlt
      exact (hpoint k x).mp (h k _ _ k (getElem?_range hlt) rfl x hx rfl)
    refine ⟨fun k x hx => (hk k x hx).1, fun x hx => ?_⟩
    obtain ⟨k, hkx⟩ := mem_iff_getElem?.mp hx
    exact (hk k x hkx).2
  · rintro ⟨hmod, hrange⟩ k _ _ j hj rfl x hx rfl
    have hlt := (List.getElem?_eq_some_iff.mp hj).1
    rw [length_range] at hlt
    rw [getElem?_range hlt] at hj
    cases hj
    exact (hpoint k x).mpr ⟨hmod k x hx, hrange x (mem_of_getElem? hx)⟩

/-! ## A narrow that selects a part -/

lemma prod_blockShape (op : NarrowOp) (entry : CanonicalEntry) :
    (op.blockShape entry).prod =
      op.length.toNat * (entry.extents.drop (op.dimension + 1)).prod * entry.elementSize := by
  simp [NarrowOp.blockShape, mul_assoc]

variable {entry : CanonicalEntry} {op : NarrowOp}

lemma length_blockShape (ht : entry.IsTensor)
    (hdim : op.dimension < entry.extents.length) :
    (op.blockShape entry).length = (op.blockStride entry).length := by
  have hlen := ht.length_strides
  simp only [NarrowOp.blockShape, NarrowOp.blockStride, length_append, length_cons,
    length_drop, length_map]
  omega

lemma blockShape_pos (hlength : op.length ≠ 0)
    (hes0 : 0 < entry.elementSize) (hne : entry.extents.prod ≠ 0) :
    ∀ n ∈ op.blockShape entry, 0 < n :=
  forall_mem_append.mpr ⟨forall_mem_cons.mpr ⟨toNat_pos hlength, fun n hn =>
    entry.extents_pos hne n (mem_of_mem_drop hn)⟩, forall_mem_singleton.mpr hes0⟩

lemma bytes_eq_blocks (ht : entry.IsTensor)
    (hdim : op.dimension < entry.shape.length) :
    op.bytes entry =
      (addrs (entry.extents.take op.dimension) (entry.strides.take op.dimension)).flatMap fun a =>
        (addrs (op.blockShape entry) (op.blockStride entry)).map
          (op.narrowBase entry + a * entry.elementSize + ·) := by
  have hlen := ht.length_strides
  rw [NarrowOp.bytes, set_eq_take_append_cons_drop, if_pos (by rwa [length_extents])]
  nth_rewrite 1 [← take_append_drop op.dimension entry.strides]
  rw [elementBytes_append _ _ (by simp [hlen])]
  refine flatMap_congr fun a _ => ?_
  rw [elementBytes_eq_addrs, NarrowOp.blockShape, NarrowOp.blockStride]
  rw [length_extents] at hlen
  simp only [length_cons, length_drop, length_extents]
  omega

section Proper

variable {name : String} {entry : CanonicalEntry} {op : NarrowOp} {extent start : Int64}
  {es cursor cursor' : UInt64} {segs : List ByteRangeSegment}

def narrowBlocks (name : String) (entry : CanonicalEntry) (op : NarrowOp) (start : Int64)
    (es : UInt64) : NarrowBlocks :=
  ⟨name, entry, op.dimension, start, op.length.toInt64, es⟩

lemma toNat_blockBytes (name : String) (hacc : AcceptedNarrow entry op extent start) (ht : entry.IsTensor)
    (hes : es.toNat = entry.elementSize) :
    (narrowBlocks name entry op start es).blockBytes.toNat =
      (op.blockShape entry).prod % 2 ^ 64 := by
  have hint : op.length.toInt64.toInt * ((entry.extents.drop (op.dimension + 1)).prod : ℕ) *
      es.toNat = ((op.blockShape entry).prod : ℕ) := by
    rw [prod_blockShape, hes, hacc.toInt_length]
    rfl
  have hnat := toNat_ofInt ((op.blockShape entry).prod : ℕ)
  rw [NarrowBlocks.blockBytes_eq ht]
  dsimp only [narrowBlocks]
  rw [hint]
  omega

lemma length_bytes (op : NarrowOp) (hdim : op.dimension < entry.shape.length) :
    (op.bytes entry).length =
      (entry.extents.take op.dimension).prod * (op.blockShape entry).prod := by
  rw [NarrowOp.bytes, length_elementBytes, prod_blockShape, set_eq_take_append_cons_drop,
    if_pos (by rwa [length_extents]), prod_append, prod_cons]
  ring

lemma shows_blocks_iff (hacc : AcceptedNarrow entry op extent start) (ht : entry.IsTensor)
    (hes : es.toNat = entry.elementSize) (hes0 : 0 < entry.elementSize)
    (hne : entry.extents.prod ≠ 0)
    (h : (narrowBlocks name entry op start es).segments
      (narrowBlocks name entry op start es).outerCount.toNat 0 cursor = .ok (segs, cursor'))
    (hsmall : totalLength segs < 2 ^ 64) :
    List.Forall₂ Shows ((segs.flatMap selected).map fun a => some (.data 0 a)) (op.bytes entry) ↔
      (op.bytes entry).length < 2 ^ 64 ∧
      CompactMod (2 ^ 64) (op.blockShape entry) (op.blockStride entry) ∧
      ∀ t ∈ op.bytes entry, 0 ≤ t ∧ t < 2 ^ 64 := by
  have hdim := hacc.dimension_lt
  have hpos : ∀ n ∈ entry.extents.take op.dimension, 0 < n := fun n hn =>
    entry.extents_pos hne n (mem_of_mem_take hn)
  have hblockPos := blockShape_pos hacc.length_ne hes0 hne
  have hO : 0 < (entry.extents.take op.dimension).prod := prod_pos hpos
  have hB : 0 < (op.blockShape entry).prod := prod_pos hblockPos
  have hlen := length_bytes op hdim
  have hblockLen := length_blockShape ht hacc.dimension_lt_extents
  -- the planner's list is that of the blocks as soon as the counts do not wrap
  refine (and_iff_right_of_imp fun hshow => ?_).symm.trans (and_congr_right fun hfit => ?_)
  · rw [← hshow.length_eq, length_map, length_flatMap_selected]
    exact hsmall
  rw [hlen] at hfit
  have hOlt : (entry.extents.take op.dimension).prod < 2 ^ 64 :=
    (Nat.le_mul_of_pos_right _ hB).trans_lt hfit
  have hBlt : (op.blockShape entry).prod < 2 ^ 64 := (Nat.le_mul_of_pos_left _ hO).trans_lt hfit
  have hsel := NarrowBlocks.selected_eq_blocks ht hpos hOlt hdim h
  rw [toNat_blockBytes name hacc ht hes, mod_eq_of_lt hBlt] at hsel
  simp only [narrowBlocks, hacc.toInt_start, hes] at hsel
  change segs.flatMap selected =
    (addrs (entry.extents.take op.dimension) (entry.strides.take op.dimension)).flatMap fun a =>
      (range (op.blockShape entry).prod).map fun k : ℕ =>
        ofInt (op.narrowBase entry + a * entry.elementSize + k) at hsel
  rw [hsel, map_flatMap, bytes_eq_blocks ht hdim]
  simp only [List.map_map, Function.comp_def]
  rw [forall₂_flatMap_iff (by simp)]
  simp only [forall₂_shows_block_iff, ← compactMod_iff hblockLen hblockPos]
  have hzero : (0 : ℤ) ∈ addrs (entry.extents.take op.dimension)
      (entry.strides.take op.dimension) :=
    mem_of_getElem? (getElem?_addrs_zero _ hpos)
  constructor
  · intro hall
    refine ⟨(hall 0 hzero).1, fun t hmem => ?_⟩
    obtain ⟨a, ha, hmem⟩ := mem_flatMap.mp hmem
    obtain ⟨x, hx, rfl⟩ := mem_map.mp hmem
    exact (hall a ha).2 x hx
  · rintro ⟨hcompact, hall⟩ a ha
    refine ⟨hcompact, fun x hx => hall _ ?_⟩
    exact mem_flatMap.mpr ⟨a, ha, mem_map.mpr ⟨x, hx, rfl⟩⟩

end Proper

end TensorCast.View
