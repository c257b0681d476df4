import TensorCast.Window.Plan
import TensorCast.Source.MappedRead

/-!
# Windows carry the bytes of the map

A slice of a window names an interval of the destination and the interval of a source that fills it.
Sorting, merging and cutting neither lose nor double a byte: what is listed over the intervals of the
segments of the map is listed, in another order, over the slices of the windows that are read.
-/

namespace TensorCast.Window

open Core Lib ByteRange Source List UInt64 Option Nat

/-! ## Slices -/

namespace WindowSlice

/-- What `g` gives over the destination of a slice. -/
def along {γ : Type*} (g : ℕ → γ) (sl : WindowSlice) : List γ :=
  slice g sl.dstOffset.toNat sl.length.toNat

/-- The slice takes the bytes `target` of the destination from `content`, and does not wrap. -/
structure Carries (content target : ℕ → UInt8) (sl : WindowSlice) : Prop where
  fits : sl.dstOffset.toNat + sl.length.toNat < 2 ^ 64
  bytes : ∀ k < sl.length.toNat, target (sl.dstOffset.toNat + k) = content (sl.srcOffset.toNat + k)

end WindowSlice

/-- The slices lie in order, without overlap, between two source offsets. -/
def Within : ℕ → List WindowSlice → ℕ → Prop
  | a, [], b => a ≤ b
  | a, sl :: rest, b => a ≤ sl.srcOffset.toNat ∧ 0 < sl.length.toNat ∧
      Within (sl.srcOffset.toNat + sl.length.toNat) rest b

namespace Within

variable {a b : ℕ} {slices : List WindowSlice}

lemma le (h : Within a slices b) : a ≤ b := by
  induction slices generalizing a with
  | nil => exact h
  | cons sl rest ih =>
    obtain ⟨_, -, h3⟩ := h
    have := ih h3
    omega

lemma inside (h : Within a slices b) {sl : WindowSlice} (hsl : sl ∈ slices) :
    a ≤ sl.srcOffset.toNat ∧ 0 < sl.length.toNat ∧ sl.srcOffset.toNat + sl.length.toNat ≤ b := by
  induction slices generalizing a with
  | nil => simp at hsl
  | cons first rest ih =>
    obtain ⟨h1, h2, h3⟩ := h
    rcases mem_cons.mp hsl with rfl | hrest
    · exact ⟨h1, h2, h3.le⟩
    · obtain ⟨_, h5, h6⟩ := ih h3 hrest
      exact ⟨by omega, h5, h6⟩

lemma snoc {m : ℕ} (h : Within a slices m) {sl : WindowSlice} (hle : m ≤ sl.srcOffset.toNat)
    (hpos : 0 < sl.length.toNat) :
    Within a (slices ++ [sl]) (sl.srcOffset.toNat + sl.length.toNat) := by
  induction slices generalizing a with
  | nil =>
    have : a ≤ m := h
    exact ⟨by omega, hpos, le_rfl⟩
  | cons first rest ih =>
    obtain ⟨h1, h2, h3⟩ := h
    exact ⟨h1, h2, ih h3⟩

lemma sum_le (h : Within a slices b) : a + (slices.map (·.length.toNat)).sum ≤ b := by
  induction slices generalizing a with
  | nil => exact h
  | cons sl rest ih =>
    obtain ⟨_, -, h3⟩ := h
    have := ih h3
    rw [map_cons, sum_cons]
    omega

lemma toNat_sum (h : Within a slices b) (hb : b < 2 ^ 64) :
    (slices.map WindowSlice.length).sum.toNat = (slices.map (·.length.toNat)).sum := by
  induction slices generalizing a with
  | nil => rfl
  | cons sl rest ih =>
    have hsum := h.sum_le
    obtain ⟨-, -, h3⟩ := h
    rw [map_cons, sum_cons] at hsum
    rw [map_cons, sum_cons, map_cons, sum_cons, toNat_add_of_lt (by rw [ih h3]; omega), ih h3]

end Within

/-! ## Cutting -/

/-- The part of a slice between two source offsets. -/
def clip {γ : Type*} (g : ℕ → γ) (sl : WindowSlice) (lo hi : ℕ) : List γ :=
  slice g (sl.dstOffset.toNat + (max sl.srcOffset.toNat lo - sl.srcOffset.toNat))
    (min (sl.srcOffset.toNat + sl.length.toNat) hi - max sl.srcOffset.toNat lo)

section Clip

variable {γ : Type*} {g : ℕ → γ} {sl : WindowSlice} {lo mid hi : ℕ}

lemma clip_self (h1 : lo ≤ sl.srcOffset.toNat)
    (h2 : sl.srcOffset.toNat + sl.length.toNat ≤ hi) : clip g sl lo hi = sl.along g := by
  rw [clip, WindowSlice.along, max_eq_left h1, min_eq_left h2, Nat.sub_self, add_zero,
    Nat.add_sub_cancel_left]

lemma clip_of_le (h : hi ≤ lo) : clip g sl lo hi = [] := by
  rw [clip, show min (sl.srcOffset.toNat + sl.length.toNat) hi - max sl.srcOffset.toNat lo = 0 by
    omega, slice_zero]

lemma clip_split (h1 : lo ≤ mid) (h2 : mid ≤ hi) :
    clip g sl lo hi = clip g sl lo mid ++ clip g sl mid hi := by
  simp only [clip]
  generalize sl.srcOffset.toNat + sl.length.toNat = stop
  generalize sl.srcOffset.toNat = start
  by_cases hleft : min stop mid ≤ max start lo
  · -- nothing lies on the left
    rw [Nat.sub_eq_zero_of_le hleft, slice_zero, nil_append]
    by_cases hempty : min stop hi ≤ max start lo
    · have hright : min stop hi ≤ max start mid := by omega
      rw [Nat.sub_eq_zero_of_le hempty, Nat.sub_eq_zero_of_le hright, slice_zero, slice_zero]
    · rw [show max start mid = max start lo by omega]
  by_cases hright : stop ≤ mid
  · -- nothing lies on the right
    have hempty : min stop hi ≤ max start mid := by omega
    rw [Nat.sub_eq_zero_of_le hempty, slice_zero, append_nil,
      min_eq_left (hright.trans h2), min_eq_left hright]
  · have hsplit : slice g (sl.dstOffset.toNat + (max start lo - start))
          (min stop mid - max start lo) ++ _ = _ :=
      slice_append (n := min stop hi - max start lo) (by omega)
    rw [← hsplit]
    congr 2 <;> omega

end Clip

lemma chunkSlice_spec {sl : WindowSlice} (chunkStart chunkEnd : UInt64)
    (hsrc : sl.srcOffset.toNat + sl.length.toNat < 2 ^ 64)
    (hdst : sl.dstOffset.toNat + sl.length.toNat < 2 ^ 64) {lo hi : ℕ}
    (hlo : max sl.srcOffset.toNat chunkStart.toNat = lo)
    (hhi : min (sl.srcOffset.toNat + sl.length.toNat) chunkEnd.toNat = hi) :
    (chunkSlice chunkStart chunkEnd sl = none ∧ hi ≤ lo) ∨
    ∃ part, chunkSlice chunkStart chunkEnd sl = some part ∧ lo < hi ∧
      part.srcOffset.toNat = lo ∧
      part.dstOffset.toNat = sl.dstOffset.toNat + (lo - sl.srcOffset.toNat) ∧
      part.length.toNat = hi - lo := by
  have hmax : (max sl.srcOffset chunkStart).toNat = lo := (toNat_max ..).trans hlo
  have hmin : (min (sl.srcOffset + sl.length) chunkEnd).toNat = hi := by
    rw [toNat_min, toNat_add_of_lt hsrc, hhi]
  unfold chunkSlice
  simp only
  split
  · rename_i h
    rw [le_iff_toNat_le, hmin, hmax] at h
    exact .inl ⟨rfl, h⟩
  · rename_i h
    rw [UInt64.not_le, lt_iff_toNat_lt, hmin, hmax] at h
    have hoff : (max sl.srcOffset chunkStart - sl.srcOffset).toNat = lo - sl.srcOffset.toNat := by
      rw [toNat_sub_of_le (by omega), hmax]
    refine .inr ⟨_, rfl, h, hmax, ?_, ?_⟩
    · rw [toNat_add_of_lt (by omega), hoff]
    · rw [toNat_sub_of_le (by omega), hmin, hmax]

/-- A window over a source: its slices lie inside it and carry the bytes of the destination. -/
structure WindowOk (contents : ℕ → ℕ → UInt8) (target : ℕ → UInt8) (w : SourceWindow) :
    Prop where
  fits : w.srcOffset.toNat + w.length.toNat < 2 ^ 64
  within : Within w.srcOffset.toNat w.slices (w.srcOffset.toNat + w.length.toNat)
  payload : w.payloadBytes.toNat = (w.slices.map (·.length.toNat)).sum
  carries : ∀ sl ∈ w.slices, sl.Carries (contents w.sourceIndex.toNat) target

/-- What `g` gives over the slices of windows. -/
def along {γ : Type*} (g : ℕ → γ) (windows : List SourceWindow) : List γ :=
  windows.flatMap fun w => w.slices.flatMap (·.along g)

section Chunk

variable {contents : ℕ → ℕ → UInt8} {target : ℕ → UInt8} {w : SourceWindow}
  {chunkStart chunkEnd : UInt64} {slices : List WindowSlice} {γ : Type*}

lemma Within.filterMap_chunkSlice {a b : ℕ} (h : Within a slices b) (hb : b < 2 ^ 64)
    (hdst : ∀ sl ∈ slices, sl.dstOffset.toNat + sl.length.toNat < 2 ^ 64) {start : ℕ}
    (h1 : start ≤ max a chunkStart.toNat) (h2 : start ≤ chunkEnd.toNat) :
    Within start (slices.filterMap (chunkSlice chunkStart chunkEnd)) chunkEnd.toNat := by
  induction slices generalizing a start with
  | nil => exact h2
  | cons sl rest ih =>
    obtain ⟨_, -, hrest⟩ := h
    obtain ⟨hsl, hdst⟩ := forall_mem_cons.mp hdst
    have hend := hrest.le
    rcases chunkSlice_spec chunkStart chunkEnd (by omega) hsl rfl rfl with
      ⟨hnone, -⟩ | ⟨_, hpart, _, _, -, _⟩
    · rw [filterMap_cons_none hnone]
      exact ih hrest hdst (by omega) h2
    · rw [filterMap_cons_some hpart]
      exact ⟨by omega, by omega, ih hrest hdst (by omega) (by omega)⟩

variable (g : ℕ → γ)

lemma flatMap_over_chunkSlice
    (hok : ∀ sl ∈ slices, sl.srcOffset.toNat + sl.length.toNat < 2 ^ 64 ∧
      sl.dstOffset.toNat + sl.length.toNat < 2 ^ 64) :
    (slices.filterMap (chunkSlice chunkStart chunkEnd)).flatMap (·.along g) =
      slices.flatMap fun sl => clip g sl chunkStart.toNat chunkEnd.toNat := by
  induction slices with
  | nil => rfl
  | cons sl rest ih =>
    obtain ⟨⟨hsrc, hdst⟩, hrest⟩ := forall_mem_cons.mp hok
    rw [flatMap_cons, ← ih hrest]
    rcases chunkSlice_spec chunkStart chunkEnd hsrc hdst rfl rfl with
      ⟨hnone, hle⟩ | ⟨_, hpart, -, -, hoff, hlen⟩
    · rw [filterMap_cons_none hnone, clip, Nat.sub_eq_zero_of_le hle, slice_zero, nil_append]
    · rw [filterMap_cons_some hpart, flatMap_cons, WindowSlice.along, hoff, hlen, clip]

lemma WindowSlice.Carries.chunkSlice {content : ℕ → UInt8} {sl part : WindowSlice}
    (h : sl.Carries content target) (hsrc : sl.srcOffset.toNat + sl.length.toNat < 2 ^ 64)
    (hpart : chunkSlice chunkStart chunkEnd sl = some part) : part.Carries content target := by
  rcases chunkSlice_spec chunkStart chunkEnd hsrc h.fits rfl rfl with
    ⟨hnone, -⟩ | ⟨_, hpart', _, hoff, hdst, _⟩
  · cases hnone.symm.trans hpart
  · cases hpart.symm.trans hpart'
    have hfits := h.fits
    refine ⟨by omega, fun k hk => ?_⟩
    have hbyte := h.bytes (part.srcOffset.toNat - sl.srcOffset.toNat + k) (by omega)
    rw [hdst, add_assoc, ← hoff, hbyte]
    congr 1
    omega

lemma windowOk_windowChunk (h : WindowOk contents target w)
    (hle : chunkStart.toNat ≤ chunkEnd.toNat) :
    WindowOk contents target (windowChunk w chunkStart chunkEnd) ∧
      (windowChunk w chunkStart chunkEnd).length.toNat = chunkEnd.toNat - chunkStart.toNat := by
  have hlen : (chunkEnd - chunkStart).toNat = chunkEnd.toNat - chunkStart.toNat :=
    toNat_sub_of_le hle
  have hwithin : Within chunkStart.toNat
      (w.slices.filterMap (chunkSlice chunkStart chunkEnd)) chunkEnd.toNat :=
    h.within.filterMap_chunkSlice h.fits (fun sl hsl => (h.carries sl hsl).fits) (by omega) hle
  refine ⟨⟨?_, ?_, hwithin.toNat_sum chunkEnd.toNat_lt, fun part hpart => ?_⟩, hlen⟩
  · show chunkStart.toNat + (chunkEnd - chunkStart).toNat < 2 ^ 64
    have := chunkEnd.toNat_lt
    omega
  · show Within chunkStart.toNat _ (chunkStart.toNat + (chunkEnd - chunkStart).toNat)
    rw [hlen, Nat.add_sub_cancel' hle]
    exact hwithin
  · obtain ⟨sl, hsl, hpart⟩ := mem_filterMap.mp hpart
    have hin := h.within.inside hsl
    have hfits := h.fits
    exact (h.carries sl hsl).chunkSlice (by omega) hpart

lemma slices_eq_nil_of_payload (h : WindowOk contents target w) (h0 : w.payloadBytes.toNat = 0) :
    w.slices = [] := by
  cases hs : w.slices with
  | nil => rfl
  | cons sl rest =>
    have hin := h.within.inside (hs ▸ mem_cons_self : sl ∈ w.slices)
    have hp := h.payload
    rw [hs, map_cons, sum_cons] at hp
    omega

/-- What is read for a window: pieces of it that are no longer than the cap. -/
structure Cuts (contents : ℕ → ℕ → UInt8) (target : ℕ → UInt8) (capBytes : UInt64)
    (w chunk : SourceWindow) : Prop where
  ok : WindowOk contents target chunk
  sourceIndex : chunk.sourceIndex = w.sourceIndex
  start_le : w.srcOffset.toNat ≤ chunk.srcOffset.toNat
  end_le : chunk.srcOffset.toNat + chunk.length.toNat ≤ w.srcOffset.toNat + w.length.toNat
  length_le : capBytes ≠ 0 → chunk.length.toNat ≤ capBytes.toNat
  whole : capBytes = 0 ∨ w.length ≤ capBytes → chunk = w

lemma splitChunks_spec (h : WindowOk contents target w)
    {capBytes : UInt64} (h0 : capBytes ≠ 0) (hlong : ¬ w.length ≤ capBytes)
    (hcap : w.srcOffset.toNat + w.length.toNat + capBytes.toNat ≤ 2 ^ 64) {fuel : ℕ} :
    ∀ {chunkStart : UInt64} {chunks : List SourceWindow},
      w.srcOffset.toNat ≤ chunkStart.toNat →
      splitChunks capBytes w fuel chunkStart = some chunks →
      (along g chunks).Perm (w.slices.flatMap fun sl =>
        clip g sl chunkStart.toNat (w.srcOffset.toNat + w.length.toNat)) ∧
      ∀ chunk ∈ chunks, Cuts contents target capBytes w chunk := by
  have hend : (w.srcOffset + w.length).toNat = w.srcOffset.toNat + w.length.toNat :=
    toNat_add_of_lt h.fits
  have hcap0 := toNat_pos h0
  have hdone {chunkStart : UInt64} (hge : ¬ chunkStart < w.srcOffset + w.length) :
      (along g []).Perm (w.slices.flatMap fun sl =>
        clip g sl chunkStart.toNat (w.srcOffset.toNat + w.length.toNat)) ∧
      ∀ chunk ∈ [], Cuts contents target capBytes w chunk := by
    rw [UInt64.not_lt, le_iff_toNat_le, hend] at hge
    rw [flatMap_congr fun sl _ => clip_of_le hge]
    simp [along]
  induction fuel with
  | zero =>
    intro chunkStart chunks hstart hsplit
    unfold splitChunks at hsplit
    simp only at hsplit
    split at hsplit
    · cases hsplit
    · cases hsplit
      exact hdone ‹_›
  | succ fuel ih =>
    intro chunkStart chunks hstart hsplit
    unfold splitChunks at hsplit
    simp only at hsplit
    split at hsplit
    · rename_i hmore
      rw [lt_iff_toNat_lt] at hmore
      rw [map_eq_some_iff] at hsplit
      obtain ⟨rest, hrest, rfl⟩ := hsplit
      have hnext : (chunkStart + capBytes).toNat = chunkStart.toNat + capBytes.toNat :=
        toNat_add_of_lt (by omega)
      obtain ⟨hperm, hcuts⟩ := ih (by omega) hrest
      rw [hnext] at hperm
      have hchunkEnd : (min (chunkStart + capBytes) (w.srcOffset + w.length)).toNat =
          min (chunkStart.toNat + capBytes.toNat) (w.srcOffset.toNat + w.length.toNat) := by
        rw [toNat_min, hnext, hend]
      generalize min (chunkStart + capBytes) (w.srcOffset + w.length) = chunkEnd at hchunkEnd ⊢
      have hle : chunkStart.toNat ≤ chunkEnd.toNat := by omega
      obtain ⟨hok, _⟩ := windowOk_windowChunk h hle
      have hcut : Cuts contents target capBytes w (windowChunk w chunkStart chunkEnd) := by
        refine ⟨hok, rfl, hstart, ?_, fun _ => by omega, fun hwhole => ?_⟩
        · show chunkStart.toNat + _ ≤ _
          omega
        · exact absurd hwhole (not_or.mpr ⟨h0, hlong⟩)
      -- the chunk takes what lies before its end, the rest of the loop what lies behind
      have hover : (windowChunk w chunkStart chunkEnd).slices.flatMap (·.along g) =
          w.slices.flatMap fun sl => clip g sl chunkStart.toNat chunkEnd.toNat := by
        refine flatMap_over_chunkSlice g fun sl hsl => ⟨?_, (h.carries sl hsl).fits⟩
        have := (h.within.inside hsl).2.2
        omega
      have hsplit : (w.slices.flatMap fun sl =>
          clip g sl chunkStart.toNat (w.srcOffset.toNat + w.length.toNat)).Perm
          ((windowChunk w chunkStart chunkEnd).slices.flatMap (·.along g) ++ along g rest) := by
        rw [hover]
        refine Perm.trans ?_ (Perm.append_left _ hperm.symm)
        refine Perm.trans (Perm.of_eq ?_) (flatMap_append_perm ..).symm
        refine flatMap_congr fun sl _ => ?_
        have hclip : clip g sl chunkStart.toNat (w.srcOffset.toNat + w.length.toNat) =
            clip g sl chunkStart.toNat chunkEnd.toNat ++ _ := clip_split hle (by omega)
        rw [hclip]
        by_cases hlast : w.srcOffset.toNat + w.length.toNat ≤ chunkStart.toNat + capBytes.toNat
        · have hend : w.srcOffset.toNat + w.length.toNat ≤ chunkEnd.toNat := by omega
          rw [clip_of_le hend, clip_of_le hlast]
        · rw [show chunkEnd.toNat = chunkStart.toNat + capBytes.toNat by omega]
      by_cases hpay : 0 < (windowChunk w chunkStart chunkEnd).payloadBytes
      · rw [if_pos hpay]
        exact ⟨hsplit.symm, forall_mem_cons.mpr ⟨hcut, hcuts⟩⟩
      · rw [if_neg hpay]
        rw [lt_iff_toNat_lt, UInt64.toNat_zero] at hpay
        rw [slices_eq_nil_of_payload hok (by omega)] at hsplit
        exact ⟨hsplit.symm, hcuts⟩
    · cases hsplit
      exact hdone ‹_›

/-- **Cutting** neither loses nor doubles a byte, and every piece is a piece of a window. -/
lemma splitWindows_spec {capBytes : UInt64} {fuel : ℕ} {windows : List SourceWindow} :
    ∀ {out : List SourceWindow}, (∀ w ∈ windows, WindowOk contents target w) →
      (∀ w ∈ windows, w.srcOffset.toNat + w.length.toNat + capBytes.toNat ≤ 2 ^ 64) →
      splitWindows capBytes fuel windows = some out →
      (along g out).Perm (along g windows) ∧
      ∀ chunk ∈ out, ∃ w ∈ windows, Cuts contents target capBytes w chunk := by
  induction windows with
  | nil =>
    intro out _ _ h
    cases h
    exact ⟨.rfl, by simp⟩
  | cons w rest ih =>
    intro out hok hcap h
    obtain ⟨hw, hrest⟩ := forall_mem_cons.mp hok
    obtain ⟨hcapw, hcaprest⟩ := forall_mem_cons.mp hcap
    have hlift : ∀ {chunks : List SourceWindow},
        (∀ chunk ∈ chunks, ∃ w' ∈ rest, Cuts contents target capBytes w' chunk) →
        ∀ chunk ∈ chunks, ∃ w' ∈ w :: rest, Cuts contents target capBytes w' chunk :=
      fun h chunk hc => by
        obtain ⟨w', hw', hcut⟩ := h chunk hc
        exact ⟨w', mem_cons_of_mem _ hw', hcut⟩
    rw [splitWindows] at h
    by_cases hwhole : capBytes = 0 ∨ w.length ≤ capBytes
    · rw [if_pos hwhole, map_eq_some_iff] at h
      obtain ⟨out', hout', rfl⟩ := h
      obtain ⟨hperm, hcuts⟩ := ih hrest hcaprest hout'
      refine ⟨hperm.append_left _, forall_mem_cons.mpr ⟨⟨w, mem_cons_self, ?_⟩, hlift hcuts⟩⟩
      refine ⟨hw, rfl, le_rfl, le_rfl, fun h0 => ?_, fun _ => rfl⟩
      exact le_iff_toNat_le.mp (hwhole.resolve_left h0)
    · rw [if_neg hwhole] at h
      obtain ⟨h0, hlong⟩ := not_or.mp hwhole
      cases hchunks : splitChunks capBytes w fuel w.srcOffset with
      | none =>
        rw [hchunks] at h
        cases h
      | some chunks =>
        rw [hchunks] at h
        simp only [map_eq_some_iff] at h
        obtain ⟨out', hout', rfl⟩ := h
        obtain ⟨hperm, hcuts⟩ := ih hrest hcaprest hout'
        obtain ⟨hperm', hcuts'⟩ := splitChunks_spec g hw h0 hlong hcapw le_rfl hchunks
        refine ⟨?_, forall_mem_append.mpr ⟨fun chunk hc => ?_, hlift hcuts⟩⟩
        · rw [along, flatMap_append]
          refine Perm.append (hperm'.trans (.of_eq ?_)) hperm
          refine flatMap_congr fun sl hsl => ?_
          have hin := hw.within.inside hsl
          exact clip_self hin.1 hin.2.2
        · exact ⟨w, mem_cons_self, hcuts' chunk hc⟩

end Chunk

end TensorCast.Window
