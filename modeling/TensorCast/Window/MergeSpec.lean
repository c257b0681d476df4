import TensorCast.Window.PlanSpec

/-!
# Which maps are planned, and how

Sorting brings the segments of one source together, in the order of their offsets.  Merging fails
exactly when a segment starts before the end of the one in front of it, so a map is planned exactly
when every data segment lies in its source and no two of them share a byte of a source.  The windows
read at most the permitted multiple of the bytes they use.
-/

namespace TensorCast.Window

open Core Lib ByteRange Source ByteRangeSegment List

/-! ## The maps that can be planned -/

def sourceExtent : Extent ByteRangeSegment where
  lo s := s.srcOffset.toNat
  hi s := s.srcOffset.toNat + s.length.toNat

def SharesSource (s t : ByteRangeSegment) : Prop :=
  s.kind = .data ∧ t.kind = .data ∧ s.sourceIndex = t.sourceIndex ∧
    ∃ o, sourceExtent.Covers s o ∧ sourceExtent.Covers t o

/-- The source is there, and goes at least to the offset. -/
def InSource (sources : List BaseSource) (sourceIndex : UInt32) (hi : ℕ) : Prop :=
  ∃ source, sources[sourceIndex.toNat]? = some source ∧ hi ≤ source.totalBytes.toNat

/-- Every data segment lies in its source, and no two of them share a byte of a source. -/
structure Plannable (sources : List BaseSource) (map : ByteRangeMap) : Prop where
  inside : ∀ s ∈ map.segments, s.kind = .data → InSource sources s.sourceIndex (sourceExtent.hi s)
  disjoint : map.segments.Pairwise fun s t => ¬ SharesSource s t

namespace SourceSegment

/-- The two segments share no byte of a source. -/
def Apart (a b : SourceSegment) : Prop :=
  a.sourceIndex = b.sourceIndex →
    a.srcOffset.toNat + a.length.toNat ≤ b.srcOffset.toNat ∨
      b.srcOffset.toNat + b.length.toNat ≤ a.srcOffset.toNat

/-- The second segment lies behind the first one in the order of the sources. -/
def Follows (a b : SourceSegment) : Prop :=
  a.sourceIndex < b.sourceIndex ∨
    a.sourceIndex = b.sourceIndex ∧ a.srcOffset.toNat + a.length.toNat ≤ b.srcOffset.toNat

instance : IsTrans SourceSegment Follows where
  trans a b c := by
    rintro (hab | ⟨hab, hle⟩) (hbc | ⟨hbc, hle'⟩)
    · exact .inl (UInt32.lt_trans hab hbc)
    · exact .inl (hbc ▸ hab)
    · exact .inl (hab ▸ hbc)
    · exact .inr ⟨hab.trans hbc, by omega⟩

lemma Apart.symm {a b : SourceSegment} (h : a.Apart b) : b.Apart a := fun hidx =>
  (h hidx.symm).symm

lemma follows_iff_apart {a b : SourceSegment} (h : srcLe a b) (hb : 0 < b.length.toNat) :
    a.Follows b ↔ a.Apart b := by
  constructor
  · rintro (hlt | ⟨-, hle⟩) hidx
    · exact absurd hidx (UInt32.ne_of_lt hlt)
    · exact .inl hle
  · intro hapart
    rcases h with hlt | ⟨hidx, hle⟩
    · exact .inl hlt
    · rw [UInt64.le_iff_toNat_le] at hle
      refine .inr ⟨hidx, ?_⟩
      rcases hapart hidx with h | h
      · exact h
      · omega

end SourceSegment

open SourceSegment

instance : IsTrans SourceSegment srcLe where
  trans a b c := by
    rintro (hab | ⟨hab, hle⟩) (hbc | ⟨hbc, hle'⟩)
    · exact .inl (UInt32.lt_trans hab hbc)
    · exact .inl (hbc ▸ hab)
    · exact .inl (hab ▸ hbc)
    · exact .inr ⟨hab.trans hbc, UInt64.le_trans hle hle'⟩

instance : Std.Total srcLe where
  total a b := by
    rcases Nat.lt_trichotomy a.sourceIndex.toNat b.sourceIndex.toNat with h | h | h
    · exact .inl (.inl (UInt32.lt_iff_toNat_lt.mpr h))
    · have hidx : a.sourceIndex = b.sourceIndex := UInt32.toNat_inj.mp h
      rcases UInt64.le_total a.srcOffset b.srcOffset with hle | hle
      · exact .inl (.inr ⟨hidx, hle⟩)
      · exact .inr (.inr ⟨hidx.symm, hle⟩)
    · exact .inr (.inl (UInt32.lt_iff_toNat_lt.mpr h))

/-! ## The data segments of a map -/

/-- A data segment as the scheduler keeps it. -/
def ofSegment (s : ByteRangeSegment) : SourceSegment :=
  ⟨s.sourceIndex, s.srcOffset, s.dstOffset, s.length⟩

lemma mem_dataSegments {segs : List ByteRangeSegment} {seg : SourceSegment} :
    seg ∈ dataSegments segs ↔ ∃ s ∈ segs, s.length ≠ 0 ∧ s.kind = .data ∧ ofSegment s = seg := by
  simp [dataSegments, ofSegment, and_assoc]

lemma pairwise_apart_dataSegments_iff (segs : List ByteRangeSegment) :
    (dataSegments segs).Pairwise Apart ↔ segs.Pairwise fun s t => ¬ SharesSource s t := by
  rw [dataSegments, pairwise_map, pairwise_filter]
  refine Pairwise.iff fun s t => ?_
  simp only [decide_eq_true_eq]
  constructor
  · rintro h ⟨hs, ht, hidx, o, hso, hto⟩
    have hpos {s : ByteRangeSegment} (h : sourceExtent.Covers s o) : s.length ≠ 0 := by
      intro h0
      simp only [Extent.Covers, sourceExtent, h0, UInt64.toNat_zero] at h
      omega
    have := h ⟨hpos hso, hs⟩ ⟨hpos hto, ht⟩ hidx
    simp only [Extent.Covers, sourceExtent] at this hso hto
    omega
  · rintro h ⟨hs0, hs⟩ ⟨ht0, ht⟩ hidx
    have hs0' := toNat_pos hs0
    have ht0' := toNat_pos ht0
    by_contra hover
    simp only at hover
    refine h ⟨hs, ht, hidx, max s.srcOffset.toNat t.srcOffset.toNat, ?_⟩
    simp only [Extent.Covers, sourceExtent]
    omega

lemma validateSegments_eq_ok_iff {sources : List BaseSource} {segs : List SourceSegment}
    (hpos : ∀ seg ∈ segs, seg.length ≠ 0) :
    validateSegments sources segs = .ok () ↔
      ∀ seg ∈ segs, InSource sources seg.sourceIndex (seg.srcOffset.toNat + seg.length.toNat) := by
  induction segs with
  | nil => simp [validateSegments]
  | cons seg rest ih =>
    obtain ⟨hseg, hrest⟩ := forall_mem_cons.mp hpos
    rw [validateSegments, if_neg hseg, forall_mem_cons, ← ih hrest]
    cases hsource : sources[seg.sourceIndex.toNat]? with
    | none => simp [InSource, hsource]
    | some source =>
      have hin : InSource sources seg.sourceIndex (seg.srcOffset.toNat + seg.length.toNat) ↔
          ¬ source.totalBytes.toNat < seg.srcOffset.toNat + seg.length.toNat := by
        simp [InSource, hsource]
      simp only [out_of_bounds_iff]
      by_cases hbad : source.totalBytes.toNat < seg.srcOffset.toNat + seg.length.toNat <;>
        simp [hin, hbad]

/-! ## Merging -/

section Merge

variable (options : SchedulerOptions) (current : SourceWindow) (currentEnd : UInt64)
  (seg : SourceSegment) (rest : List SourceSegment)

/-- A window of its own for the next segment. -/
def flush : StatusOr (List SourceWindow) := do
  let windows ← mergeSegments options seg.window (seg.srcOffset + seg.length) rest
  .ok (current :: windows)

/-- What a round of the merging loop can do. -/
lemma mergeSegments_cons_cases :
    (seg.sourceIndex = current.sourceIndex ∧ seg.srcOffset < currentEnd ∧
      ¬ (mergeSegments options current currentEnd (seg :: rest)).IsOk) ∨
    (seg.sourceIndex = current.sourceIndex ∧ currentEnd ≤ seg.srcOffset ∧
      amplificationWithinLimit (current.extend seg).length (current.extend seg).payloadBytes
        options.mergeMaxAmplification = true ∧
      mergeSegments options current currentEnd (seg :: rest) =
        mergeSegments options (current.extend seg) (seg.srcOffset + seg.length) rest) ∨
    ((seg.sourceIndex = current.sourceIndex → currentEnd ≤ seg.srcOffset) ∧
      mergeSegments options current currentEnd (seg :: rest) = flush options current seg rest) := by
  rw [mergeSegments]
  by_cases hidx : seg.sourceIndex ≠ current.sourceIndex
  · rw [if_pos hidx]
    exact .inr (.inr ⟨fun h => absurd h hidx, rfl⟩)
  · rw [if_neg hidx]
    rw [not_not] at hidx
    by_cases hover : seg.srcOffset < currentEnd
    · rw [if_pos hover]
      exact .inl ⟨hidx, hover, by rintro ⟨_, hout⟩; simp at hout⟩
    · rw [if_neg hover]
      rw [UInt64.not_lt] at hover
      by_cases hmerge : seg.srcOffset - currentEnd ≤ options.mergeMaxGapBytes ∧
          amplificationWithinLimit (current.extend seg).length (current.extend seg).payloadBytes
            options.mergeMaxAmplification = true
      · exact .inr (.inl ⟨hidx, hover, hmerge.2, if_pos hmerge⟩)
      · exact .inr (.inr ⟨fun _ => hover, if_neg hmerge⟩)

variable {options current currentEnd seg rest}

lemma isOk_flush_iff : (flush options current seg rest).IsOk ↔
    (mergeSegments options seg.window (seg.srcOffset + seg.length) rest).IsOk := by
  constructor
  · rintro ⟨_, hout⟩
    obtain ⟨windows, hw, -⟩ := bind_eq_ok.mp hout
    exact ⟨windows, hw⟩
  · rintro ⟨windows, hw⟩
    exact ⟨current :: windows, bind_eq_ok.mpr ⟨windows, hw, rfl⟩⟩

lemma isOk_mergeSegments_iff {segs : List SourceSegment} :
    ∀ {prev : SourceSegment} {current : SourceWindow} {currentEnd : UInt64},
      current.sourceIndex = prev.sourceIndex →
      currentEnd.toNat = prev.srcOffset.toNat + prev.length.toNat →
      (∀ seg ∈ segs, seg.srcOffset.toNat + seg.length.toNat < 2 ^ 64) →
      (prev :: segs).Pairwise srcLe →
      ((mergeSegments options current currentEnd segs).IsOk ↔ (prev :: segs).IsChain Follows) := by
  induction segs with
  | nil =>
    intro prev current currentEnd _ _ _ _
    exact ⟨fun _ => .singleton prev, fun _ => ⟨[current], rfl⟩⟩
  | cons seg rest ih =>
    intro prev current currentEnd hidx hend hfits hsort
    obtain ⟨hseg, hrest⟩ := forall_mem_cons.mp hfits
    obtain ⟨hprev, hsort'⟩ := pairwise_cons.mp hsort
    have hle := hprev seg mem_cons_self
    have hnext : (seg.srcOffset + seg.length).toNat = seg.srcOffset.toNat + seg.length.toNat :=
      toNat_add_of_lt hseg
    have hcontinue : ∀ w : SourceWindow, w.sourceIndex = seg.sourceIndex →
        ((mergeSegments options w (seg.srcOffset + seg.length) rest).IsOk ↔
          (seg :: rest).IsChain Follows) := fun w hw => ih hw hnext hrest hsort'
    rw [isChain_cons_cons]
    have hfollows : (seg.sourceIndex = current.sourceIndex → currentEnd ≤ seg.srcOffset) →
        prev.Follows seg := by
      intro h
      rcases hle with hlt | ⟨heq, -⟩
      · exact .inl hlt
      · refine .inr ⟨heq, ?_⟩
        rw [← hend]
        exact UInt64.le_iff_toNat_le.mp (h (by rw [hidx, heq]))
    rcases mergeSegments_cons_cases options current currentEnd seg rest with
      ⟨heq, hover, hfail⟩ | ⟨heq, hover, -, hmerge⟩ | ⟨hover, hflush⟩
    · refine ⟨fun h => absurd h hfail, fun h => ?_⟩
      rcases h.1 with hlt | ⟨-, hle'⟩
      · exact absurd (heq.trans hidx) (UInt32.ne_of_lt hlt).symm
      · rw [← hend] at hle'
        exact absurd hover (not_lt.mpr hle')
    · rw [hmerge, hcontinue (current.extend seg) heq.symm]
      exact ⟨fun h => ⟨hfollows fun _ => hover, h⟩, fun h => h.2⟩
    · rw [hflush, isOk_flush_iff, hcontinue seg.window rfl]
      exact ⟨fun h => ⟨hfollows hover, h⟩, fun h => h.2⟩

end Merge

lemma le_of_amplificationWithinLimit {windowBytes payloadBytes : UInt64} {maxAmplification : UInt32}
    (h : amplificationWithinLimit windowBytes payloadBytes maxAmplification = true) :
    windowBytes.toNat ≤ maxAmplification.toNat * payloadBytes.toNat := by
  rw [amplificationWithinLimit] at h
  split_ifs at h with hzero hbig
  rw [decide_eq_true_eq] at h
  exact h.trans (Nat.mod_le _ _)

/-! ## What the merged windows are -/

section Merged

variable (options : SchedulerOptions) (sources : List BaseSource) (contents : ℕ → ℕ → UInt8)
  (target : ℕ → UInt8)

/-- A data segment that takes its bytes from inside of its source. -/
structure SegmentOk (seg : SourceSegment) : Prop where
  pos : 0 < seg.length.toNat
  inside : InSource sources seg.sourceIndex (seg.srcOffset.toNat + seg.length.toNat)
  carries : seg.slice.Carries (contents seg.sourceIndex.toNat) target

/-- It lies inside of its source and, with several segments, reads at most the permitted multiple. -/
structure Merged (w : SourceWindow) : Prop where
  ok : WindowOk contents target w
  inside : InSource sources w.sourceIndex (w.srcOffset.toNat + w.length.toNat)
  amplification : 2 ≤ w.slices.length →
    w.length.toNat ≤ options.mergeMaxAmplification.toNat * w.payloadBytes.toNat

variable {options sources contents target} {seg : SourceSegment} {segs : List SourceSegment}

lemma InSource.lt {idx : UInt32} {hi : ℕ} (h : InSource sources idx hi) : hi < 2 ^ 64 := by
  obtain ⟨source, -, _⟩ := h
  have := source.totalBytes.toNat_lt
  omega

lemma SegmentOk.merged_window (h : SegmentOk sources contents target seg) :
    Merged options sources contents target seg.window where
  ok :=
    { fits := h.inside.lt
      within := ⟨le_rfl, h.pos, le_rfl⟩
      payload := by simp [SourceSegment.window, SourceSegment.slice]
      carries := forall_mem_singleton.mpr h.carries }
  inside := h.inside
  amplification h2 := absurd h2 (by simp [SourceSegment.window])

lemma extend_end {current : SourceWindow} (hfits : seg.srcOffset.toNat + seg.length.toNat < 2 ^ 64)
    (hle : current.srcOffset.toNat ≤ seg.srcOffset.toNat) :
    (current.extend seg).srcOffset.toNat + (current.extend seg).length.toNat =
      seg.srcOffset.toNat + seg.length.toNat := by
  show current.srcOffset.toNat + (seg.srcOffset + seg.length - current.srcOffset).toNat = _
  have hend : (seg.srcOffset + seg.length).toNat = seg.srcOffset.toNat + seg.length.toNat :=
    toNat_add_of_lt hfits
  rw [toNat_sub_of_le (by omega)]
  omega

lemma Merged.extend {current : SourceWindow}
    (h : Merged options sources contents target current)
    (hseg : SegmentOk sources contents target seg) (hidx : seg.sourceIndex = current.sourceIndex)
    (hle : current.srcOffset.toNat + current.length.toNat ≤ seg.srcOffset.toNat)
    (hamp : amplificationWithinLimit (current.extend seg).length
      (current.extend seg).payloadBytes options.mergeMaxAmplification = true) :
    Merged options sources contents target (current.extend seg) := by
  have hfits := hseg.inside.lt
  have hend := extend_end hfits (by omega : current.srcOffset.toNat ≤ _)
  refine ⟨⟨?_, ?_, ?_, ?_⟩, ?_, fun _ => le_of_amplificationWithinLimit hamp⟩
  · rw [hend]
    exact hfits
  · rw [hend]
    exact h.ok.within.snoc hle hseg.pos
  · have hsum := h.ok.within.sum_le
    have hpay := h.ok.payload
    show (current.payloadBytes + seg.length).toNat =
      ((current.slices ++ [seg.slice]).map (·.length.toNat)).sum
    rw [toNat_add_of_lt (by omega), map_append, sum_append, hpay]
    rfl
  · refine forall_mem_append.mpr ⟨h.ok.carries, forall_mem_singleton.mpr ?_⟩
    exact hidx ▸ hseg.carries
  · rw [hend]
    exact hidx ▸ hseg.inside

lemma mergeSegments_spec {γ : Type*} (g : ℕ → γ)
    (hsegs : ∀ seg ∈ segs, SegmentOk sources contents target seg) :
    ∀ {current : SourceWindow} {currentEnd : UInt64} {out : List SourceWindow},
      Merged options sources contents target current →
      currentEnd.toNat = current.srcOffset.toNat + current.length.toNat →
      mergeSegments options current currentEnd segs = .ok out →
      along g out = current.slices.flatMap (·.along g) ++ segs.flatMap (·.slice.along g) ∧
      ∀ w ∈ out, Merged options sources contents target w := by
  induction segs with
  | nil =>
    intro current currentEnd out hcurrent _ h
    cases h
    exact ⟨by simp [along], by simpa using hcurrent⟩
  | cons seg rest ih =>
    intro current currentEnd out hcurrent hend h
    obtain ⟨hseg, hrest⟩ := forall_mem_cons.mp hsegs
    have hnext : (seg.srcOffset + seg.length).toNat = seg.srcOffset.toNat + seg.length.toNat :=
      toNat_add_of_lt hseg.inside.lt
    rcases mergeSegments_cons_cases options current currentEnd seg rest with
      ⟨-, -, hfail⟩ | ⟨hidx, hover, hamp, hmerge⟩ | ⟨-, hflush⟩
    · exact absurd ⟨out, h⟩ hfail
    · rw [hmerge] at h
      rw [UInt64.le_iff_toNat_le, hend] at hover
      have hextend := hcurrent.extend hseg hidx hover hamp
      have hend' := extend_end hseg.inside.lt (by omega : current.srcOffset.toNat ≤ _)
      obtain ⟨hover', hmerged⟩ := ih hrest hextend (hnext.trans hend'.symm) h
      refine ⟨?_, hmerged⟩
      rw [hover']
      simp [SourceWindow.extend]
    · rw [hflush] at h
      obtain ⟨windows, hwindows, hout⟩ := bind_eq_ok.mp h
      cases hout
      obtain ⟨hover', hmerged⟩ := ih hrest hseg.merged_window hnext hwindows
      refine ⟨?_, forall_mem_cons.mpr ⟨hcurrent, hmerged⟩⟩
      change current.slices.flatMap (·.along g) ++ along g windows = _
      rw [hover']
      simp [SourceSegment.window]

lemma mergeWindows_spec {γ : Type*} (g : ℕ → γ)
    {out : List SourceWindow} (hsegs : ∀ seg ∈ segs, SegmentOk sources contents target seg)
    (h : mergeWindows options segs = .ok out) :
    along g out = segs.flatMap (·.slice.along g) ∧
      ∀ w ∈ out, Merged options sources contents target w := by
  cases segs with
  | nil =>
    cases h
    exact ⟨rfl, by simp⟩
  | cons seg rest =>
    obtain ⟨hseg, hrest⟩ := forall_mem_cons.mp hsegs
    obtain ⟨hover, hmerged⟩ :=
      mergeSegments_spec g hrest hseg.merged_window (toNat_add_of_lt hseg.inside.lt) h
    refine ⟨?_, hmerged⟩
    rw [hover]
    simp [SourceSegment.window]

end Merged

/-! ## Planning a normalized map -/

section Planning

variable {options : SchedulerOptions} {sources : List BaseSource} {contents : ℕ → ℕ → UInt8}
  {map : ByteRangeMap}

/-- The bytes that the map denotes. -/
def targetByte (contents : ℕ → ℕ → UInt8) (map : ByteRangeMap) : ℕ → UInt8 :=
  denotedByte contents map.denote

def sortedSegments (map : ByteRangeMap) : List SourceSegment :=
  (dataSegments map.segments).insertionSort srcLe

lemma sortedSegments_perm (map : ByteRangeMap) :
    (sortedSegments map).Perm (dataSegments map.segments) := perm_insertionSort _ _

lemma mem_sortedSegments {seg : SourceSegment} : seg ∈ sortedSegments map ↔
    ∃ s ∈ map.segments, s.length ≠ 0 ∧ s.kind = .data ∧ ofSegment s = seg := by
  rw [(sortedSegments_perm map).mem_iff, mem_dataSegments]

lemma planWindows_eq (hnorm : normalizeByteRangeMap map = .ok map) :
    planWindows options sources map = (do
      validateSegments sources (sortedSegments map)
      let windows ← mergeWindows options (sortedSegments map)
      .ok (padSegments map.segments, windows)) := by
  rw [planWindows, hnorm]
  rfl

lemma validate_sortedSegments_iff (hc : map.Canonical) :
    validateSegments sources (sortedSegments map) = .ok () ↔
      ∀ s ∈ map.segments, s.kind = .data → InSource sources s.sourceIndex (sourceExtent.hi s) := by
  rw [validateSegments_eq_ok_iff]
  · constructor
    · intro h s hs hk
      exact h (ofSegment s) (mem_sortedSegments.mpr
        ⟨s, hs, length_pos_iff.mp (hc.tiled.inside hs).2.1, hk, rfl⟩)
    · intro h seg hseg
      obtain ⟨s, hs, -, hk, rfl⟩ := mem_sortedSegments.mp hseg
      exact h s hs hk
  · intro seg hseg
    obtain ⟨s, -, h0, -, rfl⟩ := mem_sortedSegments.mp hseg
    exact h0

/-- Merging accepts the sorted segments exactly when no two of them share a byte. -/
lemma isOk_mergeWindows_iff
    (hin : ∀ seg ∈ sortedSegments map, seg.srcOffset.toNat + seg.length.toNat < 2 ^ 64) :
    (mergeWindows options (sortedSegments map)).IsOk ↔
      map.segments.Pairwise fun s t => ¬ SharesSource s t := by
  have hsort : (sortedSegments map).Pairwise srcLe := pairwise_insertionSort _ _
  have hpos : ∀ seg ∈ sortedSegments map, 0 < seg.length.toNat := by
    intro seg hseg
    obtain ⟨s, -, h0, -, rfl⟩ := mem_sortedSegments.mp hseg
    exact toNat_pos h0
  have hchain : (sortedSegments map).IsChain Follows ↔
      map.segments.Pairwise fun s t => ¬ SharesSource s t := by
    rw [← pairwise_apart_dataSegments_iff, isChain_iff_pairwise,
      ← (sortedSegments_perm map).pairwise_iff fun h => Apart.symm h]
    constructor
    · exact fun h => (h.and hsort).imp_of_mem fun ha hb hab =>
        (follows_iff_apart hab.2 (hpos _ hb)).mp hab.1
    · exact fun h => (h.and hsort).imp_of_mem fun ha hb hab =>
        (follows_iff_apart hab.2 (hpos _ hb)).mpr hab.1
  rw [← hchain]
  cases hsegs : sortedSegments map with
  | nil => exact ⟨fun _ => .nil, fun _ => ⟨[], rfl⟩⟩
  | cons seg rest =>
    rw [hsegs] at hin hsort
    obtain ⟨hseg, hrest⟩ := forall_mem_cons.mp hin
    exact isOk_mergeSegments_iff rfl (toNat_add_of_lt hseg) hrest hsort

lemma isOk_planWindows_iff (hnorm : normalizeByteRangeMap map = .ok map) :
    (planWindows options sources map).IsOk ↔ Plannable sources map := by
  have hc := (normalize_spec hnorm).canonical
  have hfits : (∀ s ∈ map.segments, s.kind = .data →
      InSource sources s.sourceIndex (sourceExtent.hi s)) →
      ∀ seg ∈ sortedSegments map, seg.srcOffset.toNat + seg.length.toNat < 2 ^ 64 := by
    intro h seg hseg
    obtain ⟨s, hs, -, hk, rfl⟩ := mem_sortedSegments.mp hseg
    exact (h s hs hk).lt
  rw [planWindows_eq hnorm]
  constructor
  · rintro ⟨_, hplan⟩
    obtain ⟨⟨⟩, hvalid, hmerge⟩ := bind_eq_ok.mp hplan
    obtain ⟨windows, hwindows, -⟩ := bind_eq_ok.mp hmerge
    have hin := (validate_sortedSegments_iff hc).mp hvalid
    exact ⟨hin, (isOk_mergeWindows_iff (hfits hin)).mp ⟨windows, hwindows⟩⟩
  · rintro ⟨hin, hdisjoint⟩
    obtain ⟨windows, hwindows⟩ : (mergeWindows options (sortedSegments map)).IsOk :=
      (isOk_mergeWindows_iff (hfits hin)).mpr hdisjoint
    rw [(validate_sortedSegments_iff hc).mpr hin, hwindows]
    exact ⟨_, rfl⟩

lemma targetByte_of_mem (hc : map.Canonical) {s : ByteRangeSegment} (hs : s ∈ map.segments)
    {k : ℕ} (hk : k < s.length.toNat) :
    targetByte contents map (s.dstOffset.toNat + k) = byteOf contents (s.firstCell.advance k) := by
  have hcov : extent.Covers s (s.dstOffset.toNat + k) := by
    simp only [Extent.Covers, extent_lo, extent_hi]
    omega
  rw [targetByte, denotedByte, ByteRangeMap.denote, hc.tiled.denote_of_mem hs hcov,
    cell, Nat.add_sub_cancel_left]
  rfl

lemma segmentOk_of_mem (hc : map.Canonical) {s : ByteRangeSegment} (hs : s ∈ map.segments)
    (hk : s.kind = .data) (hin : InSource sources s.sourceIndex (sourceExtent.hi s)) :
    SegmentOk sources contents (targetByte contents map) (ofSegment s) where
  pos := by
    have := (hc.tiled.inside hs).2.1
    simp only [extent_lo, extent_hi] at this
    show 0 < s.length.toNat
    omega
  inside := hin
  carries := by
    have hend := (hc.tiled.inside hs).2.2
    have htotal := map.totalBytes.toNat_lt
    refine ⟨lt_of_le_of_lt hend htotal, fun k hlt => ?_⟩
    have hfits : s.srcOffset.toNat + s.length.toNat < 2 ^ 64 := hin.lt
    change k < s.length.toNat at hlt
    rw [show (ofSegment s).slice.dstOffset = s.dstOffset from rfl, targetByte_of_mem hc hs hlt,
      firstCell, hk]
    show contents s.sourceIndex.toNat (s.srcOffset + UInt64.ofNat k).toNat = _
    rw [toNat_add_ofNat (by omega)]
    rfl

/-- The padding and the slices of the windows, as what `g` gives over their destinations. -/
def planned {γ : Type*} (g : ℕ → γ) (pads : List ByteRangeSegment) (windows : List SourceWindow) :
    List γ :=
  (pads.flatMap fun pad => slice g pad.dstOffset.toNat pad.length.toNat) ++ along g windows

structure PadOk (target : ℕ → UInt8) (pad : ByteRangeSegment) : Prop where
  fits : pad.dstOffset.toNat + pad.length.toNat < 2 ^ 64
  bytes : ∀ k < pad.length.toNat, target (pad.dstOffset.toNat + k) = 0

lemma planWindows_spec {γ : Type*} (contents : ℕ → ℕ → UInt8) (g : ℕ → γ)
    (hnorm : normalizeByteRangeMap map = .ok map) {pads : List ByteRangeSegment}
    {windows : List SourceWindow} (h : planWindows options sources map = .ok (pads, windows)) :
    (planned g pads windows).Perm (slice g 0 map.totalBytes.toNat) ∧
      (∀ pad ∈ pads, PadOk (targetByte contents map) pad) ∧
      ∀ w ∈ windows, Merged options sources contents (targetByte contents map) w := by
  have hc := (normalize_spec hnorm).canonical
  rw [planWindows_eq hnorm] at h
  obtain ⟨⟨⟩, hvalid, hmerge⟩ := bind_eq_ok.mp h
  obtain ⟨windows, hwindows, hplan⟩ := bind_eq_ok.mp hmerge
  cases hplan
  have hin := (validate_sortedSegments_iff hc).mp hvalid
  have hsegs : ∀ seg ∈ sortedSegments map,
      SegmentOk sources contents (targetByte contents map) seg := by
    intro seg hseg
    obtain ⟨s, hs, -, hk, rfl⟩ := mem_sortedSegments.mp hseg
    exact segmentOk_of_mem hc hs hk (hin s hs hk)
  obtain ⟨hover, hmerged⟩ := mergeWindows_spec g hsegs hwindows
  refine ⟨?_, fun pad hpad => ?_, hmerged⟩
  · have hpos : ∀ s ∈ map.segments, s.length ≠ 0 := fun s hs =>
      length_pos_iff.mp (hc.tiled.inside hs).2.1
    have hpads : padSegments map.segments = map.segments.filter (·.kind = .pad) :=
      filter_congr fun s hs => by simp [hpos s hs]
    have hdata : dataSegments map.segments =
        (map.segments.filter fun s => !decide (s.kind = .pad)).map ofSegment := by
      refine congrArg (List.map _) (filter_congr fun s hs => ?_)
      cases hk : s.kind <;> simp [hpos s hs]
    have hsorted : (along g windows).Perm
        ((map.segments.filter fun s => !decide (s.kind = .pad)).flatMap fun s =>
          slice g s.dstOffset.toNat s.length.toNat) := by
      rw [hover]
      refine ((sortedSegments_perm map).flatMap_right _).trans (.of_eq ?_)
      rw [hdata, flatMap_map]
      rfl
    have htiled := hc.tiled.flatMap_slice (f := g)
    simp only [extent_lo, extent_hi, Nat.add_sub_cancel_left, Nat.sub_zero] at htiled
    rw [hpads, ← htiled]
    refine (hsorted.append_left _).trans ?_
    rw [← flatMap_append]
    exact (filter_append_perm _ _).flatMap_right _
  · obtain ⟨hmem, hkind⟩ := mem_filter.mp hpad
    obtain ⟨-, hkind⟩ := of_decide_eq_true hkind
    refine ⟨lt_of_le_of_lt (hc.tiled.inside hmem).2.2 map.totalBytes.toNat_lt, fun k hk => ?_⟩
    rw [targetByte_of_mem hc hmem hk, firstCell, hkind]
    rfl

end Planning

end TensorCast.Window
