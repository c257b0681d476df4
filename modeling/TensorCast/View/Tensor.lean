import TensorCast.Lib.Strided
import TensorCast.Lib.Word
import TensorCast.View.Planner

/-!
# Tensors of an index

The elements of a tensor lie at the addresses that its shape, strides and storage offset give, in
unbounded integers.  The planner computes the span from the lowest to the highest of them in 128
bits; where the elements lie in the storage that the index gives the tensor, the span is exact.
-/

namespace TensorCast.View

open Core Lib List Int

/-! ## Elements -/

namespace CanonicalEntry

/-- The bytes of one element, zero for an unknown type. -/
def elementSize (entry : CanonicalEntry) : ℕ := ((dtypeSizes.lookup entry.dtype).getD 0).toNat

def extents (entry : CanonicalEntry) : List ℕ := entry.shape.map fun n => n.toInt.toNat

def strides (entry : CanonicalEntry) : List ℤ := entry.entryStride.map Int64.toInt

/-- The address of the element at index zero. -/
def base (entry : CanonicalEntry) : ℤ := entry.offset.toNat + entry.storageOffset.toNat

/-- The entry describes a tensor: it has a stride for each dimension, and no negative extent. -/
structure IsTensor (entry : CanonicalEntry) : Prop where
  rank : entry.entryStride.length = entry.shape.length
  nonneg : ∀ n ∈ entry.shape, 0 ≤ n.toInt

/-- The byte belongs to the storage that the index gives the tensor. -/
def InStorage (entry : CanonicalEntry) (t : ℤ) : Prop :=
  entry.offset.toNat ≤ t ∧ t < entry.offset.toNat + entry.sizeBytes.toNat

/-- The bytes of the elements of the tensor, in row-major order. -/
def bytes (entry : CanonicalEntry) : List ℤ :=
  elementBytes entry.elementSize entry.base entry.extents entry.strides

variable (entry : CanonicalEntry)

@[simp] lemma length_extents :
    entry.extents.length = entry.shape.length := by simp [extents]

lemma IsTensor.length_strides {entry : CanonicalEntry} (h : entry.IsTensor) :
    entry.extents.length = entry.strides.length := by simp [extents, strides, h.rank]

lemma extents_pos (hne : entry.extents.prod ≠ 0) :
    ∀ n ∈ entry.extents, 0 < n := fun _ hn =>
  Nat.pos_of_ne_zero fun h0 => hne (prod_eq_zero (h0 ▸ hn))

lemma bytes_of_prod_eq_zero (h : entry.extents.prod = 0) :
    entry.bytes = [] :=
  eq_nil_of_length_eq_zero (by rw [bytes, length_elementBytes, h, zero_mul])

end CanonicalEntry

lemma dtypeSizes_pos : ∀ e ∈ dtypeSizes, 0 < e.2.toNat := by decide

lemma dtypeElementSize_eq_ok {entry : CanonicalEntry} {es : UInt64}
    (h : dtypeElementSize entry.dtype = .ok es) :
    es.toNat = entry.elementSize ∧ 0 < entry.elementSize := by
  rw [dtypeElementSize] at h
  cases hl : dtypeSizes.lookup entry.dtype with
  | none => simp [hl] at h
  | some size =>
    rw [hl] at h
    obtain rfl := Except.ok.inj h
    have hsize : entry.elementSize = size.toNat := by rw [CanonicalEntry.elementSize, hl]; rfl
    rw [hsize]
    obtain ⟨_, _, hl, -⟩ := lookup_eq_some_iff.mp hl
    exact ⟨rfl, dtypeSizes_pos (entry.dtype, size) (by simp [hl])⟩

/-! ## The storage span -/

lemma i128_eq {x : ℤ} (h₁ : -2 ^ 127 ≤ x) (h₂ : x < 2 ^ 127) : i128 x = x :=
  bmod_eq_of_le (by norm_num; omega) (by norm_num; omega)

section Span

variable {shape stride : List Int64} {entry : CanonicalEntry} {es : UInt64} {name : String}
  {span : TensorStorageSpan}

/-- The loop over the dimensions finds the lowest and the highest address, if they are far from
the ends of the 128-bit range. -/
lemma storageReach_eq (hpos : ∀ n ∈ shape, 0 < n.toInt) {accLo accHi lo hi : ℤ} (hlo : accLo ≤ 0)
    (hhi : 0 ≤ accHi)
    (hlow : lo = accLo + lowest (shape.map fun n => n.toInt.toNat) (stride.map Int64.toInt))
    (hhigh : hi = accHi + highest (shape.map fun n => n.toInt.toNat) (stride.map Int64.toInt))
    (hlo' : -2 ^ 126 ≤ lo) (hhi' : hi ≤ 2 ^ 126) :
    storageReach name (shape.zip stride) accLo accHi = .ok (some (lo, hi)) := by
  rw [lowest] at hlow
  rw [highest] at hhigh
  induction shape generalizing stride accLo accHi with
  | nil => simp_all [storageReach, reach]
  | cons n shape ih =>
    cases stride with
    | nil => simp_all [storageReach, reach]
    | cons s stride =>
      have hn : 0 < n.toInt := hpos n (by simp)
      have hpos' : ∀ n ∈ shape, 0 < n.toInt := fun n hn => hpos n (by simp [hn])
      have hrestLo := lowest_nonpos (shape.map fun n => n.toInt.toNat) (stride.map Int64.toInt)
      have hrestHi := highest_nonneg (shape.map fun n => n.toInt.toNat) (stride.map Int64.toInt)
      have hsub : (n - 1).toInt = n.toInt - 1 := by
        have := n.toInt_lt
        rw [Int64.toInt_sub, show Int64.toInt 1 = 1 from rfl]
        exact bmod_eq_of_le (by norm_num; omega) (by norm_num; omega)
      rw [zip_cons_cons, storageReach,
        if_neg (by rw [Int64.lt_iff_toInt_lt]; exact not_lt.mpr hn.le),
        if_neg (by rintro rfl; exact absurd hn (by decide)), hsub]
      simp only [map_cons, reach, toNat_of_nonneg hn.le] at hlow hhigh
      rw [lowest] at hrestLo
      rw [highest] at hrestHi
      generalize (n.toInt - 1) * s.toInt = x at hlow hhigh ⊢
      rw [i128_eq (by omega) (by omega)]
      by_cases hx : x < 0
      · rw [if_pos hx, i128_eq (by omega) (by omega)]
        exact ih hpos' (by omega) hhi (by omega) (by omega)
      · rw [if_neg hx, i128_eq (by omega) (by omega)]
        exact ih hpos' hlo (by omega) (by omega) (by omega)

/-- An accepted shape with an extent zero ends the loop. -/
lemma storageReach_zero (hlen : shape.length = stride.length) {lo hi : ℤ} {r : Option (ℤ × ℤ)}
    (h : storageReach name (shape.zip stride) lo hi = .ok r)
    (hzero : 0 ∈ shape.map fun n => n.toInt.toNat) : r = none := by
  induction shape generalizing stride lo hi with
  | nil => simp at hzero
  | cons n shape ih =>
    obtain ⟨s, stride, rfl⟩ := exists_cons_of_length_eq_add_one hlen.symm
    rw [zip_cons_cons, storageReach] at h
    split_ifs at h with hneg h0
    · exact (Except.ok.inj h).symm
    · have hzero' : 0 ∈ shape.map fun n => n.toInt.toNat := by
        refine (mem_cons.mp hzero).resolve_left fun (hn : 0 = n.toInt.toNat) => ?_
        rw [Int64.lt_iff_toInt_lt, show Int64.toInt 0 = 0 from rfl] at hneg
        exact h0 (Int64.toInt_inj.mp (show n.toInt = 0 by omega))
      dsimp only at h
      split_ifs at h
      · exact ih (by simpa using hlen) h hzero'
      · exact ih (by simpa using hlen) h hzero'

section Accepted

variable (hspan : computeTensorStorageSpan entry stride es name = .ok span)

include hspan

lemma rank_of_span : entry.shape.length = stride.length ∧ 0 < es.toNat := by
  rw [computeTensorStorageSpan] at hspan
  split_ifs at hspan with h1 h2 <;> exact ⟨not_not.mp h2, Lib.toNat_pos h1⟩

lemma spanBytes_eq_zero (hzero : entry.extents.prod = 0) : span.spanBytes = 0 := by
  have hmem : 0 ∈ entry.extents := prod_eq_zero_iff.mp hzero
  have hlen := (rank_of_span hspan).1
  rw [computeTensorStorageSpan] at hspan
  split_ifs at hspan with h1 h2 h3
  · simp [CanonicalEntry.extents, h3] at hmem
  · cases hreach : storageReach name (entry.shape.zip stride) 0 0 with
    | error status => simp [hreach] at hspan
    | ok r =>
      obtain rfl := storageReach_zero hlen hreach hmem
      rw [hreach] at hspan
      rw [← Except.ok.inj hspan]

/-- **The span of a tensor** reaches from its lowest to its highest element, unless these lie
beyond the range that the code can compute in. -/
lemma computeTensorStorageSpan_eq (hne : entry.extents.prod ≠ 0) {lo hi : ℤ}
    (hlo : lowest entry.extents (stride.map Int64.toInt) * es.toNat = lo)
    (hhi : highest entry.extents (stride.map Int64.toInt) * es.toNat = hi)
    (hreach : hi - lo ≤ 2 ^ 100) :
    (span.sourceByteOffset.toNat : ℤ) = entry.storageOffset.toNat + lo ∧
      (span.normalizedStorageOffset.toNat : ℤ) = -lo ∧
      (span.spanBytes.toNat : ℤ) = hi - lo + es.toNat := by
  have hpos := entry.extents_pos hne
  have hlo0 := lowest_nonpos entry.extents (stride.map Int64.toInt)
  have hhi0 := highest_nonneg entry.extents (stride.map Int64.toInt)
  -- the reach in elements is at most the reach in bytes
  have hE : (1 : ℤ) ≤ es.toNat := by exact_mod_cast (rank_of_span hspan).2
  have hlo1 := mul_le_of_one_le_right hlo0 hE
  have hhi1 := le_mul_of_one_le_right hhi0 hE
  have hes := es.toNat_lt
  have hso := entry.storageOffset.toNat_lt
  rw [computeTensorStorageSpan] at hspan
  split_ifs at hspan with h1 h2 h3
  · cases hspan
    simp [CanonicalEntry.extents, h3, lowest, highest, reach] at hlo hhi
    simp [← hlo, ← hhi]
  · have hloop : storageReach name (entry.shape.zip stride) 0 0 =
        .ok (some (lowest entry.extents (stride.map Int64.toInt),
          highest entry.extents (stride.map Int64.toInt))) := by
      refine storageReach_eq (fun n hn => ?_) le_rfl le_rfl (zero_add _).symm (zero_add _).symm
        (by omega) (by omega)
      have := hpos n.toInt.toNat (mem_map_of_mem hn)
      omega
    rw [hloop] at hspan
    dsimp only at hspan
    rw [hlo, hhi, i128_eq (x := lo) (by omega) (by omega), i128_eq (x := hi) (by omega) (by omega),
      i128_eq (by omega) (by omega), i128_eq (by omega) (by omega),
      i128_eq (x := _ - (_ + lo)) (by omega) (by omega), i128_eq (by omega) (by omega)] at hspan
    split_ifs at hspan with hbounds hover
    cases hspan
    refine ⟨toNat_ofInt_eq_iff.mpr (by omega), ?_, ?_⟩
    · rw [i128_eq (by omega) (by omega), toNat_ofInt]
      omega
    · rw [toNat_ofInt]
      omega

end Accepted

/-! ## The hull of the elements -/

def elementAddresses (entry : CanonicalEntry) (stride : List Int64) (es : UInt64) : Set ℤ :=
  {t | ∃ a ∈ addrs entry.extents (stride.map Int64.toInt),
    t = entry.storageOffset.toNat + a * es.toNat}

/-- It reaches from the lowest to the highest element, and holds each at its normalized offset. -/
structure TensorStorageSpan.IsHull (span : TensorStorageSpan) (entry : CanonicalEntry)
    (stride : List Int64) (es : UInt64) : Prop where
  exact : entry.extents.prod ≠ 0 → ∃ lo hi, IsLeast (elementAddresses entry stride es) lo ∧
    IsGreatest (elementAddresses entry stride es) hi ∧
    (span.spanBytes.toNat : ℤ) = hi - lo + es.toNat
  inside : ∀ t ∈ elementBytes es.toNat span.normalizedStorageOffset.toNat entry.extents
    (stride.map Int64.toInt), 0 ≤ t ∧ t < span.spanBytes.toNat
  empty : entry.extents.prod = 0 → span.spanBytes = 0 ∧ ∀ base,
    elementBytes es.toNat base entry.extents (stride.map Int64.toInt) = []

lemma elementAddresses_hull (hlen : entry.shape.length = stride.length)
    (hne : entry.extents.prod ≠ 0) :
    IsLeast (elementAddresses entry stride es)
        (entry.storageOffset.toNat + lowest entry.extents (stride.map Int64.toInt) * es.toNat) ∧
      IsGreatest (elementAddresses entry stride es)
        (entry.storageOffset.toNat + highest entry.extents (stride.map Int64.toInt) * es.toNat) := by
  have hrank : entry.extents.length = (stride.map Int64.toInt).length := by simp [hlen]
  have hpos := entry.extents_pos hne
  refine ⟨⟨⟨_, lowest_mem hrank hpos, rfl⟩, ?_⟩, ⟨_, highest_mem hrank hpos, rfl⟩, ?_⟩
  · rintro _ ⟨a, ha, rfl⟩
    have := (addrs_bounds ha hrank).1
    gcongr
  · rintro _ ⟨a, ha, rfl⟩
    have := (addrs_bounds ha hrank).2
    gcongr

lemma TensorStorageSpan.IsHull.lt (hull : span.IsHull entry stride es)
    (hlen : entry.shape.length = stride.length) (hne : entry.extents.prod ≠ 0) :
    (highest entry.extents (stride.map Int64.toInt) -
      lowest entry.extents (stride.map Int64.toInt)) * es.toNat + es.toNat < 2 ^ 64 := by
  obtain ⟨_, _, hlo, hhi, _⟩ := hull.exact hne
  obtain ⟨hleast, hgreatest⟩ := elementAddresses_hull hlen hne
  obtain rfl := hlo.unique hleast
  obtain rfl := hhi.unique hgreatest
  have := span.spanBytes.toNat_lt
  rw [sub_mul]
  omega

/-- **An accepted span is the hull of the elements** exactly if the hull has fewer than `2 ^ 64` bytes:
the test that refuses a larger one comes after the sums and products in 128 bits, which wrap. -/
theorem isHull_iff_hull_lt (hspan : computeTensorStorageSpan entry stride es name = .ok span) :
    span.IsHull entry stride es ↔ (entry.extents.prod ≠ 0 →
      (highest entry.extents (stride.map Int64.toInt) -
        lowest entry.extents (stride.map Int64.toInt)) * es.toNat + es.toNat < 2 ^ 64) := by
  obtain ⟨hlen, -⟩ := rank_of_span hspan
  constructor
  · exact fun hull hne => hull.lt hlen hne
  · intro hsmall
    have heq (hne : entry.extents.prod ≠ 0) := computeTensorStorageSpan_eq hspan hne rfl rfl (by
      rw [← sub_mul]
      omega)
    refine ⟨fun hne => ?_, fun t ht => ?_, fun hzero =>
      ⟨spanBytes_eq_zero hspan hzero, fun base => ?_⟩⟩
    · obtain ⟨hleast, hgreatest⟩ := elementAddresses_hull hlen hne
      refine ⟨_, _, hleast, hgreatest, ?_⟩
      rw [(heq hne).2.2]
      ring
    · obtain ⟨a, ha, b, _, rfl⟩ := mem_elementBytes.mp ht
      have hne : entry.extents.prod ≠ 0 := by
        rw [← length_addrs entry.extents (stride.map Int64.toInt)]
        exact (length_pos_of_mem ha).ne'
      obtain ⟨hlo, hhi⟩ := addrs_bounds ha (by simp [hlen])
      have hloE := mul_le_mul_of_nonneg_right hlo (natCast_nonneg es.toNat)
      have hhiE := mul_le_mul_of_nonneg_right hhi (natCast_nonneg es.toNat)
      omega
    · exact eq_nil_of_length_eq_zero (by rw [length_elementBytes, hzero, zero_mul])

/-- A matrix whose rows go backwards. -/
theorem isHull_backwards :
    (⟨4, 8, 20⟩ : TensorStorageSpan).IsHull { shape := [3, 2], stride := [-1, 2], storageOffset := 12 }
      [-1, 2] 4 :=
  (isHull_iff_hull_lt (show computeTensorStorageSpan _ _ _ "" = _ by decide)).mpr fun _ => by decide

/-- Four dimensions of `2 ^ 62 + 1` indices, each with the stride `2 ^ 62`. -/
def wideEntry : CanonicalEntry :=
  { shape := replicate 4 (2 ^ 62 + 1), stride := replicate 4 (2 ^ 62), dtype := "F32" }

/-- The last element lies `2 ^ 128` bytes behind the first, and the span of the accepted tensor
has the four bytes of one. -/
theorem wideEntry_span : ∃ span,
    computeTensorStorageSpan wideEntry wideEntry.stride 4 "w" = .ok span ∧
      span.spanBytes = 4 ∧ ¬ span.IsHull wideEntry wideEntry.stride 4 := by
  refine ⟨⟨0, 0, 4⟩, by decide +kernel, rfl, fun hull => ?_⟩
  have hlt := hull.lt (by simp [wideEntry]) (by decide +kernel)
  exact absurd hlt (by decide +kernel)

end Span

end TensorCast.View
