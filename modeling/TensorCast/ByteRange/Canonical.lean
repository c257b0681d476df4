import TensorCast.ByteRange.Map
import TensorCast.Lib.Word

/-!
# The normal form of a byte-range map

Normalization is a canonical form: it keeps the denotation of a map, and two accepted maps with the
same denotation get the same segments.  Filtering keeps the denotation and the disjointness of the
segments; sorting turns the unordered tiling of an accepted map into a left-to-right one; merging
leaves no two neighbours that continue each other.  Such a tiling is unique by
`Extent.Tiled.eq_of_denote_eq`.
-/

namespace TensorCast.ByteRange

open Core Lib ByteRangeSegment

/-! ## Cells of a segment -/

namespace ByteRangeSegment

lemma length_pos_iff {s : ByteRangeSegment} : extent.lo s < extent.hi s ↔ s.length ≠ 0 := by
  have h0 : s.length = 0 ↔ s.length.toNat = 0 := UInt64.toNat_inj.symm
  rw [extent_lo, extent_hi, Ne, h0]
  omega

lemma not_covers_of_length_eq_zero {s : ByteRangeSegment} (h : s.length = 0) (d : ℕ) :
    ¬ extent.Covers s d := by
  rintro ⟨h1, h2⟩
  rw [extent_hi, h] at h2
  rw [extent_lo] at h1
  simp only [UInt64.toNat_zero] at h2
  omega

variable (s : ByteRangeSegment)

lemma cell_succ (d : ℕ) (hd : extent.lo s ≤ d) :
    s.cell (d + 1) = (s.cell d).advance 1 := by
  rw [extent_lo] at hd
  rw [cell, cell, ← Cell.advance_add, Nat.sub_add_comm hd]

lemma cell_lo : s.cell (extent.lo s) = s.firstCell := by
  rw [cell, extent_lo, Nat.sub_self, Cell.advance_zero]

lemma cell_hi_pred (h : s.length ≠ 0) :
    (s.cell (extent.hi s - 1)).advance 1 = s.firstCell.advance s.length.toNat := by
  have hlt := length_pos_iff.mpr h
  rw [extent_lo, extent_hi] at hlt
  rw [cell, extent_hi, ← Cell.advance_add]
  congr 1
  omega

end ByteRangeSegment

/-- Padding carries no source. -/
def CleanPad (s : ByteRangeSegment) : Prop :=
  s.kind = .pad → s.srcOffset = 0 ∧ s.sourceIndex = 0

variable {s : ByteRangeSegment} (prev : ByteRangeSegment)

lemma ByteRangeSegment.ext_of_firstCell {t : ByteRangeSegment} (hs : CleanPad s)
    (ht : CleanPad t) (hlo : extent.lo s = extent.lo t) (hhi : extent.hi s = extent.hi t)
    (hc : s.firstCell = t.firstCell) : s = t := by
  obtain ⟨sk, sd, sl, _, _⟩ := s
  obtain ⟨tk, td, tl, _, _⟩ := t
  simp only [extent_hi] at hlo hhi
  have hd : sd = td := UInt64.toNat_inj.mp hlo
  subst hd
  have hl : sl = tl := UInt64.toNat_inj.mp (by omega)
  subst hl
  cases sk <;> cases tk
  · obtain ⟨rfl, rfl⟩ := hc
    rfl
  · simp [firstCell] at hc
  · simp [firstCell] at hc
  · obtain ⟨h1, h2⟩ := hs rfl
    obtain ⟨h3, h4⟩ := ht rfl
    simp only at h1 h2 h3 h4
    rw [h1, h2, h3, h4]

/-- `continues` is a statement about cells: the segment starts where the previous one would
go on. -/
lemma continues_iff (seg : ByteRangeSegment) :
    continues prev seg ↔ seg.firstCell = prev.firstCell.advance prev.length.toNat := by
  obtain ⟨pk, -, -, -, -⟩ := prev
  obtain ⟨sk, -, -, -, -⟩ := seg
  cases pk <;> cases sk <;> simp [continues, firstCell, Cell.advance]

/-! ## The filtering loop -/

/-- What filtering makes of a nonempty segment. -/
def cleaned (s : ByteRangeSegment) : ByteRangeSegment :=
  match s.kind with
  | .pad => { s with srcOffset := 0, sourceIndex := 0 }
  | .data => s

section

variable (s : ByteRangeSegment)

@[simp] lemma cleaned_kind : (cleaned s).kind = s.kind := by
  unfold cleaned; split <;> rfl

@[simp] lemma cleaned_dstOffset : (cleaned s).dstOffset = s.dstOffset := by
  unfold cleaned; split <;> rfl

@[simp] lemma cleaned_length : (cleaned s).length = s.length := by
  unfold cleaned; split <;> rfl

@[simp] lemma cleaned_firstCell : (cleaned s).firstCell = s.firstCell := by
  obtain ⟨k, d, l, o, i⟩ := s
  cases k <;> rfl

lemma cleanPad_cleaned : CleanPad (cleaned s) := by
  intro h
  rw [cleaned_kind] at h
  simp [cleaned, h]

end

lemma filterSegments_eq_ok_iff {n : UInt32} {segs out : List ByteRangeSegment} :
    filterSegments n segs = .ok out ↔
      (∀ s ∈ segs, s.length ≠ 0 → s.kind = .data → s.sourceIndex < n) ∧
        out = (segs.filter fun s => s.length ≠ 0).map cleaned := by
  induction segs generalizing out with
  | nil => simp [filterSegments]
  | cons seg rest ih =>
    rw [filterSegments, List.forall_mem_cons]
    by_cases hl : seg.length = 0
    · rw [if_pos hl, ih]
      simp [hl]
    rw [if_neg hl, List.filter_cons_of_pos (by simpa using hl)]
    -- a segment that is kept comes before what is kept of the rest
    have hkeep : (filterSegments n rest >>= fun kept => .ok (cleaned seg :: kept)) = .ok out ↔
        (∀ s ∈ rest, s.length ≠ 0 → s.kind = .data → s.sourceIndex < n) ∧
          out = cleaned seg :: (rest.filter fun s => s.length ≠ 0).map cleaned := by
      simp only [bind_eq_ok, ih]
      constructor
      · rintro ⟨_, ⟨hrest, rfl⟩, ⟨⟩⟩
        exact ⟨hrest, rfl⟩
      · rintro ⟨hrest, rfl⟩
        exact ⟨_, ⟨hrest, rfl⟩, rfl⟩
    cases hk : seg.kind with
    | pad => simpa [cleaned, hk] using hkeep
    | data =>
      have hnone : (n = 0 ∨ n ≤ seg.sourceIndex) ↔ ¬ seg.sourceIndex < n := by
        rw [UInt32.le_iff_toNat_le, UInt32.lt_iff_toNat_lt, ← UInt32.toNat_inj]
        simp only [UInt32.toNat_zero]
        omega
      by_cases hidx : seg.sourceIndex < n
      · rw [if_neg (by rw [hnone]; exact not_not_intro hidx)]
        simpa [cleaned, hk, hidx] using hkeep
      · rw [if_pos (hnone.mpr hidx)]
        exact ⟨fun h => absurd h (by simp), fun h => absurd (h.1.1 hl rfl) hidx⟩

lemma denote_map_cleaned (segs : List ByteRangeSegment) (d : ℕ) :
    extent.denote cell (segs.map cleaned) d = extent.denote cell segs d := by
  induction segs with
  | nil => rfl
  | cons s rest ih =>
    have hcov : extent.Covers (cleaned s) d ↔ extent.Covers s d := by simp [Extent.Covers]
    rw [List.map_cons, Extent.denote_cons, Extent.denote_cons, ih]
    simp only [hcov, cell, cleaned_firstCell, cleaned_dstOffset]

lemma denote_filter_live (segs : List ByteRangeSegment) (d : ℕ) :
    extent.denote cell (segs.filter fun s => s.length ≠ 0) d = extent.denote cell segs d := by
  induction segs with
  | nil => rfl
  | cons s rest ih =>
    rw [Extent.denote_cons, List.filter_cons]
    by_cases hl : s.length = 0
    · rw [if_neg (by simp [hl]), ih, if_neg (not_covers_of_length_eq_zero hl d)]
    · rw [if_pos (by simp [hl]), Extent.denote_cons, ih]

variable {segs : List ByteRangeSegment}

lemma tiles_map_cleaned_iff {a b : ℕ} :
    extent.Tiles a b (segs.map cleaned) ↔ extent.Tiles a b segs := by
  have hcovers (s : ByteRangeSegment) (d : ℕ) : extent.Covers (cleaned s) d ↔ extent.Covers s d := by
    simp [Extent.Covers]
  have hdisjoint (s t : ByteRangeSegment) :
      extent.Disjoint (cleaned s) (cleaned t) ↔ extent.Disjoint s t := by
    simp [Extent.Disjoint]
  constructor
  · rintro ⟨h1, h2, h3⟩
    exact ⟨by simpa using h1, by simpa [List.pairwise_map, hdisjoint] using h2,
      by simpa [hcovers] using h3⟩
  · rintro ⟨h1, h2, h3⟩
    exact ⟨by simpa using h1, by simpa [List.pairwise_map, hdisjoint] using h2,
      by simpa [hcovers] using h3⟩

/-! ## The merging loop -/

/-- Two neighbours that the merging loop fuses. -/
structure Fusible (prev seg : ByteRangeSegment) : Prop where
  prev_pos : prev.length ≠ 0
  seg_pos : seg.length ≠ 0
  adjacent : extent.lo seg = extent.hi prev
  fits : extent.hi seg < 2 ^ 64
  continues : continues prev seg

/-- The segment that replaces two fused neighbours. -/
def fuse (prev seg : ByteRangeSegment) : ByteRangeSegment :=
  { prev with length := prev.length + seg.length }

@[simp] lemma extent_lo_fuse (seg : ByteRangeSegment) :
    extent.lo (fuse prev seg) = extent.lo prev := rfl

@[simp] lemma firstCell_fuse (seg : ByteRangeSegment) :
    (fuse prev seg).firstCell = prev.firstCell := rfl

namespace Fusible

variable {prev seg : ByteRangeSegment}

lemma toNat_length (h : Fusible prev seg) :
    (fuse prev seg).length.toNat = prev.length.toNat + seg.length.toNat := by
  have hadj := h.adjacent
  have hfit := h.fits
  rw [extent_lo, extent_hi] at hadj
  rw [extent_hi] at hfit
  exact toNat_add_of_lt (by omega)

lemma extent_hi_fuse (h : Fusible prev seg) : extent.hi (fuse prev seg) = extent.hi seg := by
  have hadj := h.adjacent
  rw [extent_lo] at hadj
  rw [extent_hi, extent_hi, h.toNat_length, hadj]
  exact (add_assoc _ _ _).symm

lemma tiled_iff (h : Fusible prev seg) {a b : ℕ} (pre post : List ByteRangeSegment) :
    extent.Tiled a (pre ++ fuse prev seg :: post) b ↔
      extent.Tiled a (pre ++ prev :: seg :: post) b := by
  have hp := length_pos_iff.mpr h.prev_pos
  have hs := length_pos_iff.mpr h.seg_pos
  have hadj := h.adjacent
  rw [Extent.tiled_append, Extent.tiled_append]
  refine exists_congr fun c => and_congr_right fun _ => ?_
  rw [Extent.tiled_cons, h.extent_hi_fuse, extent_lo_fuse]
  constructor
  · rintro ⟨h1, -, h3⟩
    exact ⟨h1, by omega, hadj, by omega, h3⟩
  · rintro ⟨h1, -, -, -, h3⟩
    exact ⟨h1, by omega, h3⟩

lemma denote_eq (h : Fusible prev seg) (pre post : List ByteRangeSegment) (d : ℕ) :
    extent.denote cell (pre ++ fuse prev seg :: post) d =
      extent.denote cell (pre ++ prev :: seg :: post) d := by
  have hp := length_pos_iff.mpr h.prev_pos
  have hs := length_pos_iff.mpr h.seg_pos
  have hadj := h.adjacent
  have hhi := h.extent_hi_fuse
  rw [Extent.denote_append, Extent.denote_append]
  rw [Extent.denote_cons, Extent.denote_cons, Extent.denote_cons]
  by_cases h1 : extent.Covers prev d
  · rw [if_pos h1, if_pos ⟨h1.1, by have := h1.2; omega⟩]
    rfl
  · rw [if_neg h1]
    by_cases h2 : extent.Covers seg d
    · have h3 : extent.Covers (fuse prev seg) d :=
        ⟨by rw [extent_lo_fuse]; have := h2.1; omega, by rw [hhi]; exact h2.2⟩
      -- a byte of the second segment: its cell is reached through the first one
      have h4 : d - prev.dstOffset.toNat = prev.length.toNat + (d - seg.dstOffset.toNat) := by
        have := h2.1
        simp only [extent_lo, extent_hi] at hadj this
        omega
      rw [if_pos h3, if_pos h2, cell, cell, (continues_iff _ _).mp h.continues, firstCell_fuse,
        ← Cell.advance_add, show (fuse prev seg).dstOffset = prev.dstOffset from rfl, h4]
    · rw [if_neg h2, if_neg]
      rintro ⟨h3, h4⟩
      rw [extent_lo_fuse] at h3
      simp only [Extent.Covers] at h1 h2
      omega

end Fusible

/-- Neighbours that touch do not continue each other. -/
def Separate (s t : ByteRangeSegment) : Prop := extent.lo t = extent.hi s → ¬ continues s t

/-- What the merging loop keeps: `merged` with its last segment first, and `rest` to come. -/
structure MergeInv (total : UInt64) (merged rest : List ByteRangeSegment) : Prop where
  pos : ∀ s ∈ rest, s.length ≠ 0
  mergedPos : ∀ s ∈ merged, s.length ≠ 0
  inside : ∀ s ∈ merged, extent.hi s ≤ total.toNat
  separate : merged.IsChain fun t s => Separate s t

/-- What the result of the merging loop has to do with its input. -/
structure MergeSpec (total : UInt64) (input out : List ByteRangeSegment) : Prop where
  pos : ∀ s ∈ out, s.length ≠ 0
  inside : ∀ s ∈ out, extent.hi s ≤ total.toNat
  separate : out.IsChain Separate
  tiled_iff : ∀ b, extent.Tiled 0 out b ↔ extent.Tiled 0 input b
  denote_eq : ∀ d, extent.denote cell out d = extent.denote cell input d
  fields : ∀ s ∈ out, ∃ t ∈ input, ∃ l, s = { t with length := l }

variable {total : UInt64} {merged rest out : List ByteRangeSegment}

/-- What one round of the merging loop can do when it does not fail. -/
lemma mergeSegments_cons_eq_ok {seg : ByteRangeSegment} (hseg : seg.length ≠ 0)
    (h : mergeSegments total merged (seg :: rest) = .ok out) :
    extent.hi seg ≤ total.toNat ∧
      ((merged = [] ∨ ∃ prev done, merged = prev :: done ∧
          ¬ (seg.dstOffset = prev.dstOffset + prev.length ∧ continues prev seg)) ∧
        mergeSegments total (seg :: merged) rest = .ok out ∨
      ∃ prev done, merged = prev :: done ∧ seg.dstOffset = prev.dstOffset + prev.length ∧
        continues prev seg ∧ mergeSegments total (fuse prev seg :: done) rest = .ok out) := by
  rw [mergeSegments.eq_def] at h
  simp only at h
  split_ifs at h with h1 h2
  refine ⟨(bounds_check_iff hseg).mp ⟨h1, h2⟩, ?_⟩
  cases merged with
  | nil => exact .inl ⟨.inl rfl, h⟩
  | cons prev done =>
    simp only at h
    split_ifs at h with h3 h4
    · exact .inr ⟨prev, done, rfl, h4.1, h4.2, h⟩
    · exact .inl ⟨.inr ⟨prev, done, rfl, h4⟩, h⟩

namespace MergeInv

variable {total : UInt64} {merged done rest : List ByteRangeSegment} {prev seg : ByteRangeSegment}

lemma toNat_prev_end (h : MergeInv total (prev :: done) rest) :
    (prev.dstOffset + prev.length).toNat = extent.hi prev :=
  toNat_add_of_le (h.inside prev List.mem_cons_self)

lemma fusible (h : MergeInv total (prev :: done) (seg :: rest))
    (hseg : extent.hi seg ≤ total.toNat) (hadj : seg.dstOffset = prev.dstOffset + prev.length)
    (hc : continues prev seg) : Fusible prev seg where
  prev_pos := h.mergedPos prev List.mem_cons_self
  seg_pos := h.pos seg List.mem_cons_self
  adjacent := by rw [extent_lo, hadj, h.toNat_prev_end]
  fits := lt_of_le_of_lt hseg total.toNat_lt
  continues := hc

lemma push (h : MergeInv total merged (seg :: rest)) (hseg : extent.hi seg ≤ total.toNat)
    (hsep : merged = [] ∨ ∃ prev done, merged = prev :: done ∧
      ¬ (seg.dstOffset = prev.dstOffset + prev.length ∧ continues prev seg)) :
    MergeInv total (seg :: merged) rest where
  pos s hs := h.pos s (List.mem_cons_of_mem _ hs)
  mergedPos := List.forall_mem_cons.mpr ⟨h.pos seg List.mem_cons_self, h.mergedPos⟩
  inside := List.forall_mem_cons.mpr ⟨hseg, h.inside⟩
  separate := by
    rcases hsep with rfl | ⟨prev, done, rfl, hno⟩
    · exact List.isChain_singleton _
    · refine List.isChain_cons_cons.mpr ⟨fun hadj hc => hno ⟨?_, hc⟩, h.separate⟩
      rw [← h.toNat_prev_end] at hadj
      exact UInt64.toNat_inj.mp hadj

/-- The round that fuses the segment with the one before it. -/
lemma fuse (h : MergeInv total (prev :: done) (seg :: rest)) (hseg : extent.hi seg ≤ total.toNat)
    (hf : Fusible prev seg) : MergeInv total (ByteRange.fuse prev seg :: done) rest where
  pos s hs := h.pos s (List.mem_cons_of_mem _ hs)
  mergedPos := by
    refine List.forall_mem_cons.mpr ⟨?_, fun s hs => h.mergedPos s (List.mem_cons_of_mem _ hs)⟩
    rw [← length_pos_iff, hf.extent_hi_fuse, extent_lo_fuse]
    have h1 := length_pos_iff.mpr hf.prev_pos
    have h2 := length_pos_iff.mpr hf.seg_pos
    have h3 := hf.adjacent
    omega
  inside := by
    refine List.forall_mem_cons.mpr ⟨?_, fun s hs => h.inside s (List.mem_cons_of_mem _ hs)⟩
    rw [hf.extent_hi_fuse]
    exact hseg
  separate := by
    have hsep := h.separate
    cases done with
    | nil => exact List.isChain_singleton _
    | cons p done =>
      obtain ⟨hpp, hrest⟩ := List.isChain_cons_cons.mp hsep
      refine List.isChain_cons_cons.mpr ⟨fun hadj hc => ?_, hrest⟩
      exact hpp hadj hc

end MergeInv

lemma MergeSpec.of_fuse {pre post out : List ByteRangeSegment} {prev seg : ByteRangeSegment}
    (hf : Fusible prev seg) (h : MergeSpec total (pre ++ fuse prev seg :: post) out) :
    MergeSpec total (pre ++ prev :: seg :: post) out where
  pos := h.pos
  inside := h.inside
  separate := h.separate
  tiled_iff b := (h.tiled_iff b).trans (hf.tiled_iff pre post)
  denote_eq d := (h.denote_eq d).trans (hf.denote_eq pre post d)
  fields s hs := by
    obtain ⟨t, ht, l, rfl⟩ := h.fields s hs
    rw [List.mem_append, List.mem_cons] at ht
    rcases ht with ht | rfl | ht
    · exact ⟨t, by simp [ht], l, rfl⟩
    · exact ⟨prev, by simp, l, rfl⟩
    · exact ⟨t, by simp [ht], l, rfl⟩

/-- **What the merging loop returns**, whenever it returns. -/
lemma mergeSegments_spec
    (hinv : MergeInv total merged rest) (h : mergeSegments total merged rest = .ok out) :
    MergeSpec total (merged.reverse ++ rest) out := by
  induction rest generalizing merged with
  | nil =>
    rw [mergeSegments, Except.ok.injEq] at h
    subst h
    rw [List.append_nil]
    exact {
      pos := fun s hs => hinv.mergedPos s (List.mem_reverse.mp hs)
      inside := fun s hs => hinv.inside s (List.mem_reverse.mp hs)
      separate := List.isChain_reverse.mpr hinv.separate
      tiled_iff := fun _ => Iff.rfl
      denote_eq := fun _ => rfl
      fields := fun s hs => ⟨s, hs, s.length, rfl⟩ }
  | cons seg rest ih =>
    obtain ⟨hseg, ⟨hsep, h⟩ | ⟨_, _, rfl, hadj, hc, h⟩⟩ :=
      mergeSegments_cons_eq_ok (hinv.pos seg List.mem_cons_self) h
    · have := ih (hinv.push hseg hsep) h
      rwa [List.reverse_cons, List.append_assoc, List.singleton_append] at this
    · have hf := hinv.fusible hseg hadj hc
      have := ih (hinv.fuse hseg hf) h
      rw [List.reverse_cons, List.append_assoc] at this ⊢
      exact this.of_fuse hf

/-- A left-to-right tiling is never rejected by the merging loop. -/
lemma mergeSegments_isOk {merged rest : List ByteRangeSegment} (hinv : MergeInv total merged rest)
    (ht : extent.Tiled 0 (merged.reverse ++ rest) total.toNat) :
    ∃ out, mergeSegments total merged rest = .ok out := by
  induction rest generalizing merged with
  | nil => exact ⟨_, rfl⟩
  | cons seg rest ih =>
    have hpos := hinv.pos seg List.mem_cons_self
    have hseg : extent.hi seg ≤ total.toNat := (ht.inside (by simp)).2.2
    obtain ⟨h1, h2⟩ := (bounds_check_iff hpos).mpr hseg
    rw [mergeSegments.eq_def]
    simp only [if_neg h1, if_neg h2]
    cases merged with
    | nil => exact ih (hinv.push hseg (.inl rfl)) ht
    | cons prev done =>
      have hlast := hinv.toNat_prev_end
      rw [List.reverse_cons, List.append_assoc] at ht
      have h3 : ¬ seg.dstOffset < prev.dstOffset + prev.length := by
        obtain ⟨b, -, hb⟩ := Extent.tiled_append.mp ht
        have hadj := hb.2.2.1
        rw [UInt64.lt_iff_toNat_lt, hlast, ← hadj]
        exact lt_irrefl _
      simp only [if_neg h3]
      split_ifs with h4
      · have hf := hinv.fusible hseg h4.1 h4.2
        refine ih (hinv.fuse hseg hf) ?_
        rw [List.reverse_cons, List.append_assoc]
        exact (hf.tiled_iff _ _).mpr ht
      · refine ih (hinv.push hseg (.inr ⟨prev, done, rfl, h4⟩)) ?_
        simpa using ht

/-! ## The coverage check -/

lemma checkCoverage_eq_ok_iff {total cursor : UInt64}
    (hpos : ∀ s ∈ segs, s.length ≠ 0) (hin : ∀ s ∈ segs, extent.hi s ≤ total.toNat) :
    checkCoverage total cursor segs = .ok () ↔
      extent.Tiled cursor.toNat segs total.toNat := by
  induction segs generalizing cursor with
  | nil => simp [checkCoverage, UInt64.toNat_inj]
  | cons seg rest ih =>
    have hlt := length_pos_iff.mpr (hpos seg List.mem_cons_self)
    have hend : (seg.dstOffset + seg.length).toNat = extent.hi seg :=
      toNat_add_of_le (hin seg List.mem_cons_self)
    rw [checkCoverage]
    by_cases hc : seg.dstOffset = cursor
    · rw [if_neg (not_not_intro hc), ih (fun s hs => hpos s (List.mem_cons_of_mem _ hs))
        (fun s hs => hin s (List.mem_cons_of_mem _ hs)), hend]
      subst hc
      exact ⟨fun h => ⟨rfl, hlt, h⟩, fun h => h.2.2⟩
    · rw [if_pos hc]
      refine ⟨fun h => absurd h (by simp), fun h => absurd (UInt64.toNat_inj.mp h.1) hc⟩

/-! ## Normalization -/

namespace ByteRangeMap

/-- **Normal form**: the segments follow each other through the whole destination, none continues the
one before it, and no field is set without a use. -/
structure Canonical (map : ByteRangeMap) : Prop where
  tiled : extent.Tiled 0 map.segments map.totalBytes.toNat
  reduced : map.segments.IsChain fun s t => ¬ continues s t
  clean : ∀ s ∈ map.segments, CleanPad s
  bounded : ∀ s ∈ map.segments, s.kind = .data → s.sourceIndex < map.numSources

end ByteRangeMap

open ByteRangeMap

/-- The segments that the merging loop sees. -/
def sorted (map : ByteRangeMap) : List ByteRangeSegment :=
  (map.live.map cleaned).insertionSort dstLe

instance : IsTrans ByteRangeSegment dstLe := ⟨fun _ _ _ => UInt64.le_trans⟩

instance : Std.Total dstLe := ⟨fun a b => UInt64.le_total a.dstOffset b.dstOffset⟩

lemma sorted_perm (map : ByteRangeMap) : (map.live.map cleaned).Perm (sorted map) :=
  (List.perm_insertionSort _ _).symm

lemma sorted_pairwise (map : ByteRangeMap) :
    (sorted map).Pairwise fun s t => extent.lo s ≤ extent.lo t :=
  (List.pairwise_insertionSort dstLe _).imp fun h => UInt64.le_iff_toNat_le.mp h

variable {map : ByteRangeMap}

lemma mem_sorted (hs : s ∈ sorted map) : ∃ t ∈ map.live, s = cleaned t := by
  obtain ⟨t, ht, rfl⟩ := List.mem_map.mp ((sorted_perm map).mem_iff.mpr hs)
  exact ⟨t, ht, rfl⟩

lemma length_ne_zero_of_mem_live (hs : s ∈ map.live) : s.length ≠ 0 := by
  simpa using (List.mem_filter.mp hs).2

lemma mergeInv_sorted (map : ByteRangeMap) : MergeInv map.totalBytes [] (sorted map) where
  pos s hs := by
    obtain ⟨t, ht, rfl⟩ := mem_sorted hs
    rw [cleaned_length]
    exact length_ne_zero_of_mem_live ht
  mergedPos _ hs := absurd hs List.not_mem_nil
  inside _ hs := absurd hs List.not_mem_nil
  separate := .nil

lemma tiled_sorted_iff (map : ByteRangeMap) :
    extent.Tiled 0 (sorted map) map.totalBytes.toNat ↔
      extent.Tiles 0 map.totalBytes.toNat map.live := by
  rw [← tiles_map_cleaned_iff]
  constructor
  · intro h
    exact h.tiles.perm (sorted_perm map).symm
  · intro h
    refine (h.perm (sorted_perm map)).tiled (Nat.zero_le _) (fun s hs => ?_) (sorted_pairwise map)
    exact length_pos_iff.mpr ((mergeInv_sorted map).pos s hs)

variable {map out : ByteRangeMap}

/-- Every way for normalization to succeed on a nonempty destination. -/
lemma normalize_eq_ok_iff (h0 : map.totalBytes ≠ 0) :
    normalizeByteRangeMap map = .ok out ↔
      map.numSources ≠ 0 ∧
      (∀ s ∈ map.live, s.kind = .data → s.sourceIndex < map.numSources) ∧
      ∃ merged, mergeSegments map.totalBytes [] (sorted map) = .ok merged ∧
        extent.Tiled 0 merged map.totalBytes.toNat ∧ out = { map with segments := merged } := by
  have hlive : (∀ s ∈ map.live, s.kind = .data → s.sourceIndex < map.numSources) ↔
      ∀ s ∈ map.segments, s.length ≠ 0 → s.kind = .data → s.sourceIndex < map.numSources := by
    simp only [live, List.mem_filter, decide_eq_true_eq, and_imp]
  rw [hlive, normalizeByteRangeMap, validateTotalBytes, if_neg h0]
  by_cases hn : map.numSources = 0
  · simp [hn]
  · simp only [if_neg hn, if_neg h0, ok_bind, bind_eq_ok, filterSegments_eq_ok_iff]
    constructor
    · rintro ⟨_, ⟨hb, rfl⟩, merged, hm, ⟨⟩, hc, hout⟩
      have hspec := mergeSegments_spec (mergeInv_sorted map) hm
      refine ⟨hn, hb, merged, hm, ?_, (Except.ok.inj hout).symm⟩
      exact (checkCoverage_eq_ok_iff hspec.pos hspec.inside).mp hc
    · rintro ⟨-, hb, merged, hm, ht, rfl⟩
      have hspec := mergeSegments_spec (mergeInv_sorted map) hm
      refine ⟨_, ⟨hb, rfl⟩, merged, hm, (), ?_, rfl⟩
      exact (checkCoverage_eq_ok_iff hspec.pos hspec.inside).mpr ht

lemma normalize_eq_ok_iff_of_zero (h0 : map.totalBytes = 0) :
    normalizeByteRangeMap map = .ok out ↔ map.segments = [] ∧ out = map := by
  obtain ⟨_, n, segs⟩ := map
  subst h0
  cases segs with
  | nil => simp [normalizeByteRangeMap, validateTotalBytes, filterSegments, eq_comm]
  | cons s rest => simp [normalizeByteRangeMap, validateTotalBytes]

lemma isOk_normalize_iff (map : ByteRangeMap) :
    StatusOr.IsOk (normalizeByteRangeMap map) ↔ map.Accepted := by
  by_cases h0 : map.totalBytes = 0
  · simp [StatusOr.IsOk, normalize_eq_ok_iff_of_zero h0, Accepted, h0]
  · have hn : 0 < map.numSources ↔ map.numSources ≠ 0 := UInt32.pos_iff_ne_zero
    have ht : 0 < map.totalBytes := UInt64.pos_iff_ne_zero.mpr h0
    simp only [StatusOr.IsOk, normalize_eq_ok_iff h0, Accepted, h0, ht, hn, true_and, false_and,
      false_or]
    constructor
    · rintro ⟨_, hn, hb, merged, hm, hmt, -⟩
      have hspec := mergeSegments_spec (mergeInv_sorted map) hm
      exact ⟨hn, (tiled_sorted_iff map).mp ((hspec.tiled_iff _).mp hmt), hb⟩
    · rintro ⟨hn, htiles, hb⟩
      have hsorted := (tiled_sorted_iff map).mpr htiles
      obtain ⟨merged, hm⟩ := mergeSegments_isOk (mergeInv_sorted map) hsorted
      have hspec := mergeSegments_spec (mergeInv_sorted map) hm
      exact ⟨_, hn, hb, merged, hm, (hspec.tiled_iff _).mpr hsorted, rfl⟩

/-- What normalization returns: a map of the same shape, in normal form, with the same
denotation. -/
structure NormalizeSpec (map out : ByteRangeMap) : Prop where
  totalBytes : out.totalBytes = map.totalBytes
  numSources : out.numSources = map.numSources
  canonical : out.Canonical
  denote_eq : ∀ d, out.denote d = map.denote d

lemma denote_sorted (ht : extent.Tiles 0 map.totalBytes.toNat map.live)
    (d : ℕ) : extent.denote cell (sorted map) d = map.denote d := by
  have hd := (tiles_map_cleaned_iff.mpr ht).disjoint
  rw [Extent.denote_perm hd (sorted_perm map), denote_map_cleaned, live, denote_filter_live, denote]

lemma normalize_spec (h : normalizeByteRangeMap map = .ok out) : NormalizeSpec map out := by
  by_cases h0 : map.totalBytes = 0
  · obtain ⟨hs, rfl⟩ := (normalize_eq_ok_iff_of_zero h0).mp h
    refine ⟨rfl, rfl, ⟨?_, ?_, ?_, ?_⟩, fun _ => rfl⟩ <;> simp [hs, h0]
  · obtain ⟨-, hb, _, hm, hmt, rfl⟩ := (normalize_eq_ok_iff h0).mp h
    have hspec := mergeSegments_spec (mergeInv_sorted map) hm
    have htiles := (tiled_sorted_iff map).mp ((hspec.tiled_iff _).mp hmt)
    refine ⟨rfl, rfl, ⟨hmt, ?_, ?_, ?_⟩, fun d => ?_⟩
    · -- in a tiling neighbours touch, so separate ones do not continue each other
      exact hmt.isChain_imp hspec.separate fun _ _ hadj hst => hst hadj
    · intro s hs
      obtain ⟨t, ht, l, rfl⟩ := hspec.fields s hs
      obtain ⟨u, -, rfl⟩ := mem_sorted ht
      exact cleanPad_cleaned u
    · intro s hs hk
      obtain ⟨t, ht, l, rfl⟩ := hspec.fields s hs
      obtain ⟨u, hu, rfl⟩ := mem_sorted ht
      have hk' : u.kind = .data := by simpa using hk
      have hclean : cleaned u = u := by simp [cleaned, hk']
      rw [hclean]
      exact hb u hu hk'
    · exact (hspec.denote_eq d).trans (denote_sorted htiles d)

lemma ByteRangeMap.Canonical.segments_eq {m₁ m₂ : ByteRangeMap} (h₁ : m₁.Canonical)
    (h₂ : m₂.Canonical) (ht : m₁.totalBytes = m₂.totalBytes)
    (hd : ∀ d, m₁.denote d = m₂.denote d) : m₁.segments = m₂.segments := by
  have hred : ∀ {m : ByteRangeMap}, m.Canonical → m.segments.IsChain fun s t =>
      cell t (extent.lo t) ≠ (cell s (extent.hi s - 1)).advance 1 := by
    intro m hm
    refine hm.reduced.imp_of_mem_imp fun s t hs _ hst => ?_
    have hpos := length_pos_iff.mp (hm.tiled.inside hs).2.1
    rwa [cell_lo, cell_hi_pred s hpos, Ne, ← continues_iff]
  have htiled := h₂.tiled
  rw [← ht] at htiled
  refine Extent.Tiled.eq_of_denote_eq (fun c => c.advance 1) (fun s d hd _ => cell_succ s d hd)
    (fun s t hs ht hlo hhi hc => ?_) h₁.tiled htiled h₁.clean h₂.clean (hred h₁) (hred h₂)
    (fun d _ _ => hd d)
  rw [cell_lo, cell_lo] at hc
  exact ext_of_firstCell hs ht hlo hhi hc

/-- A map whose segments follow each other through the destination passes normalization. -/
lemma accepted_of_tiled (ht : extent.Tiled 0 map.segments map.totalBytes.toNat)
    (hb : ∀ s ∈ map.segments, s.kind = .data → s.sourceIndex < map.numSources)
    (hn : map.totalBytes ≠ 0 → 0 < map.numSources) : map.Accepted := by
  by_cases h0 : map.totalBytes = 0
  · refine .inl ⟨h0, ?_⟩
    rw [h0] at ht
    cases hs : map.segments with
    | nil => rfl
    | cons s rest =>
      have := ht.inside (s := s) (by simp [hs])
      simp only [UInt64.toNat_zero] at this
      omega
  · have hlive : map.live = map.segments := by
      refine List.filter_eq_self.mpr fun s hs => ?_
      simpa using length_pos_iff.mp (ht.inside hs).2.1
    refine .inr ⟨UInt64.pos_iff_ne_zero.mpr h0, hn h0, ?_, ?_⟩
    · rw [hlive]
      exact ht.tiles
    · rw [hlive]
      exact hb

lemma numSources_pos_of_normalize
    (h : normalizeByteRangeMap map = .ok out) (h0 : map.totalBytes ≠ 0) : 0 < map.numSources :=
  UInt32.pos_iff_ne_zero.mpr ((normalize_eq_ok_iff h0).mp h).1

lemma ByteRangeMap.Canonical.normalize_eq (h : map.Canonical)
    (hn : map.totalBytes ≠ 0 → 0 < map.numSources) : normalizeByteRangeMap map = .ok map := by
  obtain ⟨out, hout⟩ := (isOk_normalize_iff map).mpr (accepted_of_tiled h.tiled h.bounded hn)
  have hspec := normalize_spec hout
  have hseg := hspec.canonical.segments_eq h hspec.totalBytes hspec.denote_eq
  have : out = map := by
    obtain ⟨t, n, s⟩ := out
    have h1 := hspec.totalBytes
    have h2 := hspec.numSources
    simp only at h1 h2 hseg
    rw [h1, h2, hseg]
  rw [hout, this]

lemma normalize_idempotent (h : normalizeByteRangeMap map = .ok out) :
    normalizeByteRangeMap out = .ok out := by
  have hspec := normalize_spec h
  refine hspec.canonical.normalize_eq fun h0 => ?_
  rw [hspec.numSources]
  exact numSources_pos_of_normalize h (by rwa [← hspec.totalBytes])

lemma segments_eq_iff_denote_eq {m₁ m₂ out₁ out₂ : ByteRangeMap}
    (ht : m₁.totalBytes = m₂.totalBytes) (h₁ : normalizeByteRangeMap m₁ = .ok out₁)
    (h₂ : normalizeByteRangeMap m₂ = .ok out₂) :
    out₁.segments = out₂.segments ↔ ∀ d, m₁.denote d = m₂.denote d := by
  have s₁ := normalize_spec h₁
  have s₂ := normalize_spec h₂
  constructor
  · intro hseg d
    rw [← s₁.denote_eq, ← s₂.denote_eq, denote, denote, hseg]
  · intro hd
    refine s₁.canonical.segments_eq s₂.canonical ?_ fun d => ?_
    · rw [s₁.totalBytes, s₂.totalBytes, ht]
    · rw [s₁.denote_eq, s₂.denote_eq, hd]

/-- **Normalization is a canonical form.**  It accepts exactly the accepted maps, keeps the denotation,
is idempotent, and two accepted maps of the same shape have the same normal form exactly when they
denote the same function. -/
theorem normalizeByteRangeMap_canonical_form :
    (∀ map : ByteRangeMap, StatusOr.IsOk (normalizeByteRangeMap map) ↔ map.Accepted) ∧
    (∀ map out : ByteRangeMap, normalizeByteRangeMap map = .ok out →
      (∀ d, out.denote d = map.denote d) ∧ normalizeByteRangeMap out = .ok out) ∧
    (∀ m₁ m₂ out₁ out₂ : ByteRangeMap, m₁.totalBytes = m₂.totalBytes →
      m₁.numSources = m₂.numSources → normalizeByteRangeMap m₁ = .ok out₁ →
      normalizeByteRangeMap m₂ = .ok out₂ →
      (out₁.segments = out₂.segments ↔ ∀ d, m₁.denote d = m₂.denote d)) := by
  refine ⟨isOk_normalize_iff, fun map out h => ?_, fun m₁ m₂ out₁ out₂ ht _ h₁ h₂ => ?_⟩
  · exact ⟨(normalize_spec h).denote_eq, normalize_idempotent h⟩
  · exact segments_eq_iff_denote_eq ht h₁ h₂

end TensorCast.ByteRange
