import TensorCast.ByteRange.Canonical

/-!
# Composition of byte-range maps

`composeByteRangeMaps outer inner` describes the destination of `outer` in terms of the sources of
`inner`: each data segment of `outer` is cut along the segments of `inner` that its source range
meets.  On denotations this is composition of functions, and associativity follows from the normal
form being canonical.
-/

namespace TensorCast.ByteRange

open Core Lib ByteRangeSegment ByteRangeMap List UInt64 Option Except

/-! ## The code -/

/-- The inner segment over a canonical offset, whose index the code returns. -/
def findInnerIndex (inner : ByteRangeMap) (innerStarts : List UInt64) (canonicalOffset : UInt64) :
    StatusOr ByteRangeSegment :=
  if inner.segments = [] then .error (.invalidArgument "inner map has no segments")
  else if inner.totalBytes ≤ canonicalOffset then
    .error (.invalidArgument "outer map references canonical offsets beyond inner map total_bytes")
  else
    match inner.segments[upperBound innerStarts canonicalOffset - 1]? with
    | none => .error (.invalidArgument "inner map segment lookup out of range")
    | some seg =>
      if canonicalOffset < seg.dstOffset ∨ seg.dstOffset + seg.length ≤ canonicalOffset then
        .error (.invalidArgument "inner map does not cover canonical range for composition")
      else .ok seg

def composedPiece (innerSeg : ByteRangeSegment) (dstCursor take innerOffset : UInt64) :
    ByteRangeSegment :=
  match innerSeg.kind with
  | .pad => { kind := .pad, dstOffset := dstCursor, length := take }
  | .data =>
    { kind := .data, dstOffset := dstCursor, length := take,
      srcOffset := innerSeg.srcOffset + innerOffset, sourceIndex := innerSeg.sourceIndex }

/-- A round takes at least one byte, so `remaining` rounds are enough fuel. -/
def composeData (inner : ByteRangeMap) (innerStarts : List UInt64) :
    ℕ → UInt64 → UInt64 → UInt64 → StatusOr (List ByteRangeSegment)
  | 0, _, _, _ => .ok []
  | fuel + 1, remaining, dstCursor, canonicalCursor =>
    if remaining = 0 then .ok []
    else do
      let innerSeg ← findInnerIndex inner innerStarts canonicalCursor
      let innerOffset := canonicalCursor - innerSeg.dstOffset
      let available := innerSeg.length - innerOffset
      let take := min remaining available
      let rest ← composeData inner innerStarts fuel (remaining - take) (dstCursor + take)
        (canonicalCursor + take)
      .ok (composedPiece innerSeg dstCursor take innerOffset :: rest)

def composeSegments (inner : ByteRangeMap) (innerStarts : List UInt64) :
    List ByteRangeSegment → StatusOr (List ByteRangeSegment)
  | [] => .ok []
  | outerSeg :: rest =>
    if outerSeg.length = 0 then composeSegments inner innerStarts rest
    else
      match outerSeg.kind with
      | .pad => do
        let composed ← composeSegments inner innerStarts rest
        .ok ({ kind := .pad, dstOffset := outerSeg.dstOffset, length := outerSeg.length } ::
          composed)
      | .data =>
        if inner.totalBytes < outerSeg.srcOffset + outerSeg.length then
          .error (.invalidArgument
            "outer map references canonical offsets beyond inner map total_bytes")
        else do
          let pieces ← composeData inner innerStarts outerSeg.length.toNat outerSeg.length
            outerSeg.dstOffset outerSeg.srcOffset
          let composed ← composeSegments inner innerStarts rest
          .ok (pieces ++ composed)

def composeByteRangeMaps (outer inner : ByteRangeMap) : StatusOr ByteRangeMap :=
  if outer.totalBytes = 0 then .ok {}
  else if inner.totalBytes = 0 then .error (.invalidArgument "inner map total_bytes is zero")
  else do
    let outerMap ← normalizeByteRangeMap outer
    let innerMap ← normalizeByteRangeMap inner
    let segments ← composeSegments innerMap (innerMap.segments.map (·.dstOffset))
      outerMap.segments
    normalizeByteRangeMap
      { totalBytes := outerMap.totalBytes, numSources := innerMap.numSources, segments }

/-! ## Looking up an inner segment -/

section Inner

variable {inner : ByteRangeMap} (ht : extent.Tiled 0 inner.segments inner.totalBytes.toNat)
include ht

lemma findInnerIndex_of_lt {o : UInt64} (ho : o < inner.totalBytes) :
    ∃ seg ∈ inner.segments, extent.Covers seg o.toNat ∧
      findInnerIndex inner (inner.segments.map (·.dstOffset)) o = .ok seg := by
  obtain ⟨_, seg, _, hsplit, hc, hub⟩ := ht.upperBound_split
    (·.dstOffset) (fun s => lt_iff_toNat_lt)
    (Nat.zero_le _) (lt_iff_toNat_lt.mp ho)
  have hmem : seg ∈ inner.segments := by simp [hsplit]
  have hend : (seg.dstOffset + seg.length).toNat = extent.hi seg :=
    toNat_add_of_le (ht.inside hmem).2.2
  have hget : inner.segments[upperBound (inner.segments.map (·.dstOffset)) o - 1]? =
      some seg := by
    rw [hub, hsplit]
    simp
  refine ⟨seg, hmem, hc, ?_⟩
  rw [findInnerIndex, if_neg (ne_nil_of_mem hmem), if_neg (UInt64.not_le.mpr ho), hget]
  simp only
  rw [if_neg]
  rw [lt_iff_toNat_lt, le_iff_toNat_le]
  have h1 := hc.1
  have h2 := hc.2
  rw [extent_lo] at h1
  omega

omit ht in
lemma lt_of_findInnerIndex_eq_ok {starts : List UInt64} {o : UInt64} {seg : ByteRangeSegment}
    (h : findInnerIndex inner starts o = .ok seg) : o < inner.totalBytes := by
  rw [findInnerIndex] at h
  split_ifs at h with h1 h2
  exact UInt64.not_le.mp h2

end Inner

lemma composedPiece_dstOffset (seg : ByteRangeSegment) (dst take off : UInt64) :
    (composedPiece seg dst take off).dstOffset = dst := by
  unfold composedPiece; split <;> rfl

lemma composedPiece_length (seg : ByteRangeSegment) (dst take off : UInt64) :
    (composedPiece seg dst take off).length = take := by
  unfold composedPiece; split <;> rfl

variable {seg : ByteRangeSegment}

lemma composedPiece_firstCell {o : UInt64} (hc : extent.Covers seg o.toNat) (dst take : UInt64) :
    (composedPiece seg dst take (o - seg.dstOffset)).firstCell = seg.cell o.toNat := by
  have hoff : ofNat (o.toNat - seg.dstOffset.toNat) = o - seg.dstOffset := by
    rw [← toNat_sub_of_le hc.1, UInt64.ofNat_toNat]
  obtain ⟨k, d, l, s, i⟩ := seg
  cases k
  · simp only [cell, firstCell, Cell.advance, composedPiece, hoff]
  · rfl

lemma composedPiece_sourceIndex {dst take off : UInt64} {n : UInt32}
    (hb : seg.kind = .data → seg.sourceIndex < n)
    (hk : (composedPiece seg dst take off).kind = .data) :
    (composedPiece seg dst take off).sourceIndex < n := by
  obtain ⟨k, d, l, s, i⟩ := seg
  cases k
  · exact hb rfl
  · simp [composedPiece] at hk

/-! ## The loop over one data segment -/

/-- The pieces that replace `n` bytes at `dst` whose canonical offsets start at `canonical`. -/
structure Pieces (inner : ByteRangeMap) (n dst canonical : ℕ) (pieces : List ByteRangeSegment) :
    Prop where
  tiled : extent.Tiled dst pieces (dst + n)
  denote_eq : ∀ k < n, extent.denote cell pieces (dst + k) = inner.denote (canonical + k)
  bounded : ∀ s ∈ pieces, s.kind = .data → s.sourceIndex < inner.numSources

/-- What one round of the loop takes from the inner segment it has found. -/
structure Round (seg : ByteRangeSegment) (remaining dst canonical take : UInt64) : Prop where
  pos : 0 < take.toNat
  le : take.toNat ≤ remaining.toNat
  within : canonical.toNat + take.toNat ≤ extent.hi seg
  exhausts : take.toNat = remaining.toNat ∨ canonical.toNat + take.toNat = extent.hi seg
  toNat_remaining : (remaining - take).toNat = remaining.toNat - take.toNat

lemma round_take {remaining canonical : UInt64} (dst : UInt64)
    (hr : remaining ≠ 0) (hc : extent.Covers seg canonical.toNat) :
    Round seg remaining dst canonical
      (min remaining (seg.length - (canonical - seg.dstOffset))) := by
  have hr' := toNat_pos hr
  obtain ⟨h1, h2⟩ := hc
  rw [extent_lo] at h1
  rw [extent_hi] at h2
  have hoff := toNat_sub_of_le h1
  have havail : (seg.length - (canonical - seg.dstOffset)).toNat =
      seg.length.toNat - (canonical.toNat - seg.dstOffset.toNat) := by
    rw [toNat_sub_of_le (by omega), hoff]
  have hmin : (min remaining (seg.length - (canonical - seg.dstOffset))).toNat =
      min remaining.toNat (seg.length.toNat - (canonical.toNat - seg.dstOffset.toNat)) := by
    rw [toNat_min, havail]
  refine ⟨by omega, by omega, ?_, ?_, toNat_sub_of_le (by omega)⟩ <;> rw [extent_hi] <;> omega

section Inner

variable {inner : ByteRangeMap} (ht : extent.Tiled 0 inner.segments inner.totalBytes.toNat)
include ht

lemma composeData_of_le
    (hb : ∀ s ∈ inner.segments, s.kind = .data → s.sourceIndex < inner.numSources)
    {fuel : ℕ} {remaining : UInt64} (dst canonical : UInt64) (hfuel : remaining.toNat ≤ fuel)
    (hin : canonical.toNat + remaining.toNat ≤ inner.totalBytes.toNat)
    (hdst : dst.toNat + remaining.toNat < 2 ^ 64) :
    ∃ pieces, composeData inner (inner.segments.map (·.dstOffset)) fuel remaining dst canonical =
        .ok pieces ∧ Pieces inner remaining.toNat dst.toNat canonical.toNat pieces := by
  induction fuel generalizing remaining dst canonical with
  | zero =>
    have h0 : remaining.toNat = 0 := by omega
    exact ⟨[], rfl, ⟨by simp [h0], fun k hk => by omega, by simp⟩⟩
  | succ fuel ih =>
    by_cases h0 : remaining = 0
    · refine ⟨[], by rw [composeData, if_pos h0], ?_⟩
      subst h0
      exact ⟨by simp, fun k hk => by simp at hk, by simp⟩
    · have hpos := toNat_pos h0
      obtain ⟨seg, hmem, hcov, hfind⟩ := findInnerIndex_of_lt ht (o := canonical)
        (lt_iff_toNat_lt.mpr (by omega))
      have hround := round_take dst h0 hcov
      generalize htake : min remaining (seg.length - (canonical - seg.dstOffset)) = take at hround
      have hdst' : (dst + take).toNat = dst.toNat + take.toNat :=
        toNat_add_of_lt (by have := hround.le; omega)
      have hcan' : (canonical + take).toNat = canonical.toNat + take.toNat :=
        toNat_add_of_le (le_trans hround.within (ht.inside hmem).2.2)
      have hle := hround.le
      obtain ⟨rest, hrest, hp⟩ := ih (dst + take) (canonical + take)
        (by rw [hround.toNat_remaining]; have := hround.pos; omega)
        (by rw [hround.toNat_remaining]; omega)
        (by rw [hround.toNat_remaining]; omega)
      refine ⟨composedPiece seg dst take (canonical - seg.dstOffset) :: rest, ?_, ?_, ?_, ?_⟩
      · rw [composeData, if_neg h0, hfind]
        simp only [ok_bind, htake, hrest]
      · refine ⟨by rw [extent_lo, composedPiece_dstOffset], ?_, ?_⟩
        · rw [extent_hi, composedPiece_dstOffset, composedPiece_length]
          have := hround.pos
          omega
        · have := hp.tiled
          rw [hdst', hround.toNat_remaining] at this
          rw [extent_hi, composedPiece_dstOffset, composedPiece_length]
          convert this using 1
          omega
      · intro k hk
        rw [Extent.denote_cons, ByteRangeMap.denote]
        simp only [Extent.Covers, extent_lo, extent_hi, composedPiece_dstOffset,
          composedPiece_length]
        -- the byte lies in this round's piece or in the remaining ones
        by_cases hkt : k < take.toNat
        · have hcov' : extent.Covers seg (canonical.toNat + k) :=
            ⟨le_trans hcov.1 (Nat.le_add_right _ _), by have := hround.within; omega⟩
          rw [if_pos ⟨by omega, by omega⟩, ht.denote_of_mem hmem hcov']
          rw [cell, composedPiece_firstCell hcov, composedPiece_dstOffset, cell, ← Cell.advance_add]
          have h1 := hcov.1
          rw [extent_lo] at h1
          congr 2
          omega
        · rw [if_neg (by omega)]
          have := hp.denote_eq (k - take.toNat) (by rw [hround.toNat_remaining]; omega)
          rw [hdst', hcan'] at this
          rw [show dst.toNat + k = dst.toNat + take.toNat + (k - take.toNat) by omega, this,
            show canonical.toNat + take.toNat + (k - take.toNat) = canonical.toNat + k by omega,
            ByteRangeMap.denote]
      · exact forall_mem_cons.mpr ⟨composedPiece_sourceIndex (hb seg hmem), hp.bounded⟩

lemma le_of_composeData_eq_ok {fuel : ℕ} {remaining dst canonical : UInt64}
    {pieces : List ByteRangeSegment} (hfuel : remaining.toNat ≤ fuel) (h0 : remaining ≠ 0)
    (h : composeData inner (inner.segments.map (·.dstOffset)) fuel remaining dst canonical =
      .ok pieces) :
    canonical.toNat + remaining.toNat ≤ inner.totalBytes.toNat := by
  induction fuel generalizing remaining dst canonical pieces with
  | zero => exact absurd hfuel (toNat_pos h0).not_ge
  | succ fuel ih =>
    rw [composeData, if_neg h0, bind_eq_ok] at h
    obtain ⟨seg, hfind, h⟩ := h
    obtain ⟨seg', hmem, hcov, hfind'⟩ :=
      findInnerIndex_of_lt ht (lt_of_findInnerIndex_eq_ok hfind)
    obtain rfl : seg = seg' := ok.inj (hfind.symm.trans hfind')
    have hround := round_take dst h0 hcov
    simp only at h
    generalize htake : min remaining (seg.length - (canonical - seg.dstOffset)) = take at hround h
    rw [bind_eq_ok] at h
    obtain ⟨_, hrest, -⟩ := h
    have hseg := (ht.inside hmem).2.2
    have hwithin := hround.within
    have hcan' : (canonical + take).toNat = canonical.toNat + take.toNat :=
      toNat_add_of_le (le_trans hwithin hseg)
    by_cases hrem : remaining - take = 0
    · have := congrArg toNat hrem
      rw [hround.toNat_remaining, UInt64.toNat_zero] at this
      omega
    · have := ih (by rw [hround.toNat_remaining]; have := hround.pos; omega) hrem hrest
      rw [hround.toNat_remaining] at this
      omega

end Inner

/-! ## The loop over the outer segments -/

def Cell.through (inner : ByteRangeMap) : Cell → Option Cell
  | .pad => some .pad
  | .data _ offset => inner.denote offset.toNat

def Fits (inner : ByteRangeMap) (s : ByteRangeSegment) : Prop :=
  s.kind = .data → s.srcOffset.toNat + s.length.toNat ≤ inner.totalBytes.toNat

variable {inner outer : ByteRangeMap}

lemma fits_iff {s : ByteRangeSegment} (hpos : s.length ≠ 0) :
    Fits inner s ↔ ∀ d source offset, extent.Covers s d → s.cell d = .data source offset →
      offset < inner.totalBytes := by
  have hlen := length_pos_iff.mpr hpos
  rw [extent_lo, extent_hi] at hlen
  have hT := inner.totalBytes.toNat_lt
  obtain ⟨k, dst, _, src, idx⟩ := s
  simp only at hlen
  cases k with
  | pad =>
    simp only [Fits, reduceCtorEq, false_imp_iff, true_iff]
    intro d source offset _ h
    simp [cell, firstCell, Cell.advance] at h
  | data =>
    simp only [Fits, forall_const]
    constructor
    · rintro hfit d source offset ⟨h1, h2⟩ hcell
      simp only [cell, firstCell, Cell.advance, Cell.data.injEq] at hcell
      simp only [extent_hi] at h1 h2
      rw [lt_iff_toNat_lt, ← hcell.2, toNat_add_ofNat (by omega)]
      omega
    · intro hall
      by_contra hfit
      -- the first byte past the inner map, or the first of all if that is already outside
      have := hall (dst.toNat + (inner.totalBytes.toNat - src.toNat)) idx
        (src + ofNat (inner.totalBytes.toNat - src.toNat))
        ⟨by simp only [extent_lo]; omega, by simp only [extent_hi]; omega⟩
        (by simp [cell, firstCell, Cell.advance])
      have hsrc := src.toNat_lt
      rw [lt_iff_toNat_lt, toNat_add_ofNat (by omega)] at this
      omega

structure Composed (inner : ByteRangeMap) (segs : List ByteRangeSegment) (a b : ℕ)
    (out : List ByteRangeSegment) : Prop where
  tiled : extent.Tiled a out b
  denote_eq : ∀ d, extent.denote cell out d = (extent.denote cell segs d).bind (Cell.through inner)
  bounded : ∀ s ∈ out, s.kind = .data → s.sourceIndex < inner.numSources

section Inner

variable {inner : ByteRangeMap} (ht : extent.Tiled 0 inner.segments inner.totalBytes.toNat)
include ht

omit ht in
lemma Composed.cons {s : ByteRangeSegment} {rest pieces out : List ByteRangeSegment} {b : ℕ}
    (hpieces : extent.Tiled (extent.lo s) pieces (extent.hi s))
    (hden : ∀ d, extent.Covers s d →
      extent.denote cell pieces d = (s.cell d).through inner)
    (hbound : ∀ t ∈ pieces, t.kind = .data → t.sourceIndex < inner.numSources)
    (h : Composed inner rest (extent.hi s) b out) :
    Composed inner (s :: rest) (extent.lo s) b (pieces ++ out) where
  tiled := Extent.tiled_append.mpr ⟨_, hpieces, h.tiled⟩
  denote_eq d := by
    rw [Extent.denote_append, Extent.denote_cons]
    by_cases hc : extent.Covers s d
    · have hsome : (extent.denote cell pieces d).isSome := hpieces.denote_isSome_iff.mpr hc
      rw [if_pos hc, bind_some, ← hden d hc, or_of_isSome hsome]
    · rw [if_neg hc, hpieces.denote_eq_none (by simp only [Extent.Covers] at hc; omega),
        none_or, h.denote_eq]
  bounded := forall_mem_append.mpr ⟨hbound, h.bounded⟩

lemma composeSegments_of_fits
    (hb : ∀ s ∈ inner.segments, s.kind = .data → s.sourceIndex < inner.numSources)
    {segs : List ByteRangeSegment} {a b : ℕ} (hs : extent.Tiled a segs b) (hlt : b < 2 ^ 64)
    (hfit : ∀ s ∈ segs, Fits inner s) :
    ∃ out, composeSegments inner (inner.segments.map (·.dstOffset)) segs = .ok out ∧
      Composed inner segs a b out := by
  induction segs generalizing a with
  | nil => exact ⟨[], rfl, hs, fun d => rfl, by simp⟩
  | cons s rest ih =>
    obtain ⟨rfl, hslt, hrest⟩ := hs
    have hpos := length_pos_iff.mp hslt
    have hle : extent.hi s ≤ b := hrest.le
    obtain ⟨out, hout, hcomp⟩ := ih hrest fun t ht => hfit t (mem_cons_of_mem _ ht)
    rw [composeSegments, if_neg hpos]
    cases hk : s.kind with
    | pad =>
      refine ⟨_, by rw [hout]; rfl, ?_⟩
      let piece : ByteRangeSegment := { kind := .pad, dstOffset := s.dstOffset, length := s.length }
      have htile : extent.Tiled (extent.lo s) [piece] (extent.hi s) := ⟨rfl, hslt, rfl⟩
      refine Composed.cons htile (fun d hc => ?_) (by simp) hcomp
      have hc' : extent.Covers piece d := hc
      rw [Extent.denote_cons, if_pos hc']
      simp [piece, cell, firstCell, hk, Cell.advance, Cell.through]
    | data =>
      have hin := hfit s mem_cons_self hk
      have hend := toNat_add_of_le hin
      rw [extent_hi] at hle
      obtain ⟨pieces, hp, hspec⟩ := composeData_of_le ht hb s.dstOffset s.srcOffset
        (le_refl s.length.toNat) hin (by omega)
      refine ⟨pieces ++ out, ?_, Composed.cons hspec.tiled (fun d hc => ?_) hspec.bounded hcomp⟩
      · rw [if_neg (by rw [lt_iff_toNat_lt]; omega), hp, hout]
        rfl
      · obtain ⟨h1, h2⟩ := hc
        rw [extent_lo] at h1
        rw [extent_hi] at h2
        have hd := hspec.denote_eq (d - s.dstOffset.toNat) (by omega)
        rw [show s.dstOffset.toNat + (d - s.dstOffset.toNat) = d by omega] at hd
        rw [hd, cell, firstCell, hk]
        simp only [Cell.advance, Cell.through]
        have := inner.totalBytes.toNat_lt
        rw [toNat_add_ofNat (by omega)]

lemma fits_of_composeSegments_eq_ok {segs out : List ByteRangeSegment}
    (hpos : ∀ s ∈ segs, s.length ≠ 0)
    (h : composeSegments inner (inner.segments.map (·.dstOffset)) segs = .ok out) :
    ∀ s ∈ segs, Fits inner s := by
  induction segs generalizing out with
  | nil => simp
  | cons s rest ih =>
    have hs := hpos s mem_cons_self
    have hrest := fun t ht => hpos t (mem_cons_of_mem s ht)
    rw [composeSegments, if_neg hs] at h
    refine forall_mem_cons.mpr ?_
    cases hk : s.kind with
    | pad =>
      simp only [hk, bind_eq_ok] at h
      obtain ⟨composed, hc, -⟩ := h
      exact ⟨fun hk' => by simp [hk] at hk', ih hrest hc⟩
    | data =>
      simp only [hk] at h
      split_ifs at h with hend
      simp only [bind_eq_ok] at h
      obtain ⟨_, hp, composed, hc, -⟩ := h
      exact ⟨fun _ => le_of_composeData_eq_ok ht le_rfl hs hp, ih hrest hc⟩

end Inner

/-! ## The composition law -/

def RefersInside (outer inner : ByteRangeMap) : Prop :=
  ∀ d source offset, outer.denote d = some (.data source offset) → offset < inner.totalBytes

lemma refersInside_iff_fits (h : outer.Canonical) :
    RefersInside outer inner ↔ ∀ s ∈ outer.segments, Fits inner s := by
  constructor
  · intro hall s hs
    refine (fits_iff (length_pos_iff.mp (h.tiled.inside hs).2.1)).mpr ?_
    intro d source offset hc hcell
    exact hall d source offset (by rw [denote, h.tiled.denote_of_mem hs hc, hcell])
  · intro hfit d source offset hd
    obtain ⟨s, hs, hc, hcell⟩ := Extent.exists_mem_of_denote_eq_some hd
    have hpos := length_pos_iff.mp (h.tiled.inside hs).2.1
    exact (fits_iff hpos).mp (hfit s hs) d source offset hc hcell

/-- What a successful composition returns. -/
structure ComposeSpec (outer inner out : ByteRangeMap) : Prop where
  totalBytes : out.totalBytes = outer.totalBytes
  numSources : out.numSources = inner.numSources
  canonical : out.Canonical
  denote_eq : ∀ d, out.denote d = (outer.denote d).bind (Cell.through inner)

lemma through_congr {m₁ m₂ : ByteRangeMap} (h : ∀ d, m₁.denote d = m₂.denote d) (c : Cell) :
    c.through m₁ = c.through m₂ := by
  cases c with
  | pad => rfl
  | data source offset => exact h offset.toNat

lemma compose_of_normalize {o i : ByteRangeMap} (h0 : outer.totalBytes ≠ 0)
    (h1 : inner.totalBytes ≠ 0) (ho : normalizeByteRangeMap outer = .ok o)
    (hi : normalizeByteRangeMap inner = .ok i) :
    (RefersInside outer inner → ∃ out, composeByteRangeMaps outer inner = .ok out ∧
        ComposeSpec outer inner out) ∧
      (StatusOr.IsOk (composeByteRangeMaps outer inner) → RefersInside outer inner) := by
  have so := normalize_spec ho
  have si := normalize_spec hi
  have hrefers : RefersInside outer inner ↔ ∀ s ∈ o.segments, Fits i s := by
    rw [← refersInside_iff_fits so.canonical]
    simp only [RefersInside, so.denote_eq, si.totalBytes]
  rw [composeByteRangeMaps, if_neg h0, if_neg h1, ho, hi, hrefers]
  simp only [ok_bind]
  refine ⟨fun hfit => ?_, fun ⟨out, hout⟩ => ?_⟩
  · obtain ⟨segs, hsegs, hc⟩ := composeSegments_of_fits si.canonical.tiled si.canonical.bounded
      so.canonical.tiled o.totalBytes.toNat_lt hfit
    have hn : 0 < i.numSources := by
      rw [si.numSources]
      exact numSources_pos_of_normalize hi h1
    have hacc : ByteRangeMap.Accepted
        { totalBytes := o.totalBytes, numSources := i.numSources, segments := segs } :=
      accepted_of_tiled hc.tiled hc.bounded fun _ => hn
    obtain ⟨out, hout⟩ := (isOk_normalize_iff _).mpr hacc
    have s := normalize_spec hout
    refine ⟨out, by rw [hsegs, ok_bind, hout], s.totalBytes.trans so.totalBytes,
      s.numSources.trans si.numSources, s.canonical, fun d => ?_⟩
    rw [s.denote_eq, denote, hc.denote_eq, ← so.denote_eq]
    exact congrArg _ (funext fun c => through_congr si.denote_eq c)
  · rw [bind_eq_ok] at hout
    obtain ⟨segs, hsegs, -⟩ := hout
    exact fits_of_composeSegments_eq_ok si.canonical.tiled
      (fun s hs => length_pos_iff.mp (so.canonical.tiled.inside hs).2.1) hsegs

lemma composeSpec_of_eq_ok {out : ByteRangeMap} (h0 : outer.totalBytes ≠ 0)
    (h : composeByteRangeMaps outer inner = .ok out) :
    inner.totalBytes ≠ 0 ∧ ComposeSpec outer inner out := by
  have h' := h
  rw [composeByteRangeMaps, if_neg h0] at h'
  split_ifs at h' with h1
  simp only [bind_eq_ok] at h'
  obtain ⟨o, ho, i, hi, -⟩ := h'
  obtain ⟨hfwd, hback⟩ := compose_of_normalize h0 h1 ho hi
  obtain ⟨out', hout', hs⟩ := hfwd (hback ⟨out, h⟩)
  obtain rfl : out = out' := ok.inj (h.symm.trans hout')
  exact ⟨h1, hs⟩

lemma through_through {b c bc : ByteRangeMap} (h : ∀ d, bc.denote d =
    (b.denote d).bind (Cell.through c)) (x : Cell) :
    x.through bc = (x.through b).bind (Cell.through c) := by
  cases x with
  | pad => rfl
  | data source offset => exact h offset.toNat

/-- **Composition of maps is composition of functions.**  For accepted maps with nonempty destinations
it succeeds exactly when every data byte of the outer map refers to an offset of the inner one, and
then pads where the outer map pads and elsewhere denotes what the inner map denotes at the outer map's
source offset.  When both ways of composing three maps succeed, they give the same segments. -/
theorem composeByteRangeMaps_law :
    (∀ outer inner : ByteRangeMap, outer.Accepted → inner.Accepted → outer.totalBytes ≠ 0 →
      inner.totalBytes ≠ 0 →
      (StatusOr.IsOk (composeByteRangeMaps outer inner) ↔ RefersInside outer inner) ∧
      ∀ out, composeByteRangeMaps outer inner = .ok out →
        out.totalBytes = outer.totalBytes ∧ out.numSources = inner.numSources ∧
        ∀ d, out.denote d = (outer.denote d).bind (Cell.through inner)) ∧
    (∀ a b c ab bc left right : ByteRangeMap, composeByteRangeMaps a b = .ok ab →
      composeByteRangeMaps ab c = .ok left → composeByteRangeMaps b c = .ok bc →
      composeByteRangeMaps a bc = .ok right → left.segments = right.segments) := by
  constructor
  · intro outer inner hao hai h0 h1
    obtain ⟨o, ho⟩ := (isOk_normalize_iff outer).mpr hao
    obtain ⟨i, hi⟩ := (isOk_normalize_iff inner).mpr hai
    obtain ⟨hfwd, hback⟩ := compose_of_normalize h0 h1 ho hi
    refine ⟨⟨hback, fun hr => ?_⟩, fun out hout => ?_⟩
    · obtain ⟨out, hout, -⟩ := hfwd hr
      exact ⟨out, hout⟩
    · obtain ⟨-, s⟩ := composeSpec_of_eq_ok h0 hout
      exact ⟨s.totalBytes, s.numSources, s.denote_eq⟩
  · intro a b c ab bc left right hab hleft hbc hright
    by_cases ha : a.totalBytes = 0
    · -- an empty outer map composes to the empty map, whatever follows
      rw [composeByteRangeMaps, if_pos ha, ok.injEq] at hab hright
      subst hab
      rw [composeByteRangeMaps, if_pos rfl, ok.injEq] at hleft
      rw [← hleft, ← hright]
    · obtain ⟨hb, sab⟩ := composeSpec_of_eq_ok ha hab
      obtain ⟨-, sleft⟩ := composeSpec_of_eq_ok (by rwa [sab.totalBytes]) hleft
      obtain ⟨-, sbc⟩ := composeSpec_of_eq_ok hb hbc
      obtain ⟨-, sright⟩ := composeSpec_of_eq_ok ha hright
      refine sleft.canonical.segments_eq sright.canonical ?_ fun d => ?_
      · rw [sleft.totalBytes, sab.totalBytes, sright.totalBytes]
      · rw [sleft.denote_eq, sab.denote_eq, sright.denote_eq, bind_assoc]
        exact congrArg _ (funext fun x => (through_through sbc.denote_eq x).symm)

end TensorCast.ByteRange
