import TensorCast.Window.PinnedSpec

/-!
# `Execute` delivers the map

A normalized map that cannot be planned is rejected before anything moves.  Otherwise `Execute`
returns, and if it returns OK, the sink was asked for every destination byte once, with the byte that
the map denotes.  The limit on amplification is a property of the merged windows; a piece of a window
that was cut to the cap may use less of what it reads.
-/

namespace TensorCast.Window

open Core Lib ByteRange Source Memory Sink ExecState

/-! ## Cutting ends -/

/-- The loop over the chunks of a window ends, because its counter does not wrap. -/
lemma splitChunks_isSome {capBytes : UInt64} {w : SourceWindow} (h0 : capBytes ≠ 0)
    (hfits : w.srcOffset.toNat + w.length.toNat < 2 ^ 64)
    (hcap : w.srcOffset.toNat + w.length.toNat + capBytes.toNat ≤ 2 ^ 64) {fuel : ℕ} :
    ∀ chunkStart : UInt64,
      w.srcOffset.toNat + w.length.toNat - chunkStart.toNat ≤ fuel →
      ∃ chunks, splitChunks capBytes w fuel chunkStart = some chunks := by
  have hend : (w.srcOffset + w.length).toNat = w.srcOffset.toNat + w.length.toNat :=
    toNat_add_of_lt hfits
  have hcap0 := toNat_pos h0
  induction fuel with
  | zero =>
    intro chunkStart hfuel
    refine ⟨[], ?_⟩
    exact if_neg (by rw [UInt64.lt_iff_toNat_lt]; omega)
  | succ fuel ih =>
    intro chunkStart hfuel
    unfold splitChunks
    by_cases hmore : chunkStart < w.srcOffset + w.length
    · have hlt := UInt64.lt_iff_toNat_lt.mp hmore
      have hnext : (chunkStart + capBytes).toNat = chunkStart.toNat + capBytes.toNat :=
        toNat_add_of_lt (by omega)
      obtain ⟨_, hrest⟩ := ih (chunkStart + capBytes) (by omega)
      simp only [if_pos hmore, hrest]
      exact ⟨_, rfl⟩
    · exact ⟨[], if_neg hmore⟩

lemma splitWindows_isSome {capBytes : UInt64} {fuel : ℕ} (hfuel : 2 ^ 64 ≤ fuel)
    {windows : List SourceWindow}
    (hfits : ∀ w ∈ windows, w.srcOffset.toNat + w.length.toNat < 2 ^ 64)
    (hcap : ∀ w ∈ windows, w.srcOffset.toNat + w.length.toNat + capBytes.toNat ≤ 2 ^ 64) :
    ∃ out, splitWindows capBytes fuel windows = some out := by
  induction windows with
  | nil => exact ⟨[], rfl⟩
  | cons w rest ih =>
    obtain ⟨hw, hrest⟩ := List.forall_mem_cons.mp hfits
    obtain ⟨hcapw, hcaprest⟩ := List.forall_mem_cons.mp hcap
    obtain ⟨out, hout⟩ := ih hrest hcaprest
    rw [splitWindows]
    by_cases hwhole : capBytes = 0 ∨ w.length ≤ capBytes
    · rw [if_pos hwhole, hout]
      exact ⟨_, rfl⟩
    · rw [if_neg hwhole]
      obtain ⟨chunks, hchunks⟩ : ∃ chunks, splitChunks capBytes w fuel w.srcOffset = some chunks :=
        splitChunks_isSome (not_or.mp hwhole).1 hw hcapw w.srcOffset (by omega)
      rw [hchunks, hout]
      exact ⟨_, rfl⟩

/-! ## What a run is asked to do -/

structure ReadsFrom (capBytes : UInt64) (w : SourceWindow) (r : SourceRead) : Prop where
  sourceIndex : r.sourceIndex = w.sourceIndex
  start_le : w.srcOffset.toNat ≤ r.offset.toNat
  end_le : r.offset.toNat + r.bytes.toNat ≤ w.srcOffset.toNat + w.length.toNat
  bytes_le : capBytes ≠ 0 → r.bytes.toNat ≤ capBytes.toNat
  whole : capBytes = 0 ∨ w.length ≤ capBytes → r = w.read

def SourceWindow.usedBytes (w : SourceWindow) : ℕ := (w.slices.map (·.length.toNat)).sum

/-- **What a run must do**: it reads only windows, or pieces of them, and if it succeeds, it has
written every byte of the destination once, with the byte that the map denotes. -/
structure Delivers (options : SchedulerOptions) (contents : ℕ → ℕ → UInt8) (map : ByteRangeMap)
    (windows : List SourceWindow) (result : StatusOr Unit) (s : ExecState) : Prop where
  reads : ∀ r ∈ s.reads, ∃ w ∈ windows, ReadsFrom options.windowCapBytes w r
  writes : result = .ok () → (written s.writes).Perm
    (slice (cellOf (targetByte contents map)) 0 map.totalBytes.toNat)

section Execute

variable {options : SchedulerOptions} {map : ByteRangeMap} {sources : List BaseSource}
  {contents : ℕ → ℕ → UInt8} {sink : PositionedSink} {pinnedPool : Option PinnedBufferPool}
  {usePinnedBuffers : Bool} {memory : ℕ → ℕ → UInt8}

lemma zeroChunkBytes_ne_zero (options : SchedulerOptions) : zeroChunkBytes options ≠ 0 := by
  rw [zeroChunkBytes]
  split
  · rename_i h
    exact UInt64.pos_iff_ne_zero.mp h
  · decide

lemma prefetchDepth_pos (options : SchedulerOptions) :
    0 < (sourceWindowScheduler options).prefetchDepth.toNat := by
  rw [sourceWindowScheduler]
  split
  · exact one_pos
  · rename_i h
    exact pos_of_ne_zero fun h0 => h (UInt32.toNat_inj.mp h0)

lemma executes_windows (options : SchedulerOptions) (sink : PositionedSink)
    (pinnedPool : Option PinnedBufferPool) (usePinnedBuffers : Bool) (hex : ExactSources sources contents) {target : ℕ → UInt8}
    {windows : List SourceWindow} (hwindows : ∀ w ∈ windows, Readable sources contents target w)
    {s : ExecState} (hpending : s.pending = []) :
    ∃ result s', (if usePinnedBuffers = true then
          executePinned (sourceWindowScheduler options) sources sink pinnedPool windows s
        else executeUnpinned sources sink windows s) = some (result, s') ∧
      Executes target windows s result s' ∧ (result = .ok () → s'.pending = []) := by
  by_cases hpinned : usePinnedBuffers = true
  · rw [if_pos hpinned]
    exact executePinned_spec sink hex (prefetchDepth_pos options) pinnedPool hwindows hpending
  · rw [if_neg hpinned]
    obtain ⟨result, s', heq, hpending', hexec⟩ := executeUnpinned_spec hex sink hwindows s
    exact ⟨result, s', heq, hexec, fun _ => hpending'.trans hpending⟩

lemma InSource.add_cap_le {idx : UInt32} {hi : ℕ} (h : InSource sources idx hi) {capBytes : UInt64}
    (hcap : ∀ source ∈ sources, source.totalBytes.toNat + capBytes.toNat ≤ 2 ^ 64) :
    hi + capBytes.toNat ≤ 2 ^ 64 := by
  obtain ⟨source, hsource, _⟩ := h
  have := hcap source (List.mem_of_getElem? hsource)
  omega

lemma execute_of_planned (hnorm : normalizeByteRangeMap map = .ok map)
    (hex : ExactSources sources contents)
    (hcap : ∀ source ∈ sources, source.totalBytes.toNat + options.windowCapBytes.toNat ≤ 2 ^ 64)
    {pads : List ByteRangeSegment} {merged windows : List SourceWindow}
    (hplan : planWindows options sources map = .ok (pads, merged)) {fuel : ℕ}
    (hsplit : splitWindows options.windowCapBytes fuel merged = some windows) :
    ∃ result s', execute options map sources sink pinnedPool usePinnedBuffers fuel
        { slots := memory } = some (result, s') ∧
      Delivers options contents map merged result s' := by
  obtain ⟨hcover, hpads, hmerged⟩ :=
    planWindows_spec contents (cellOf (targetByte contents map)) hnorm hplan
  obtain ⟨hperm, hcuts⟩ := splitWindows_spec (cellOf (targetByte contents map))
    (fun w hw => (hmerged w hw).ok) (fun w hw => (hmerged w hw).inside.add_cap_le hcap) hsplit
  have hreadable : ∀ w ∈ windows, Readable sources contents (targetByte contents map) w := by
    intro chunk hchunk
    obtain ⟨w, hw, hcut⟩ := hcuts chunk hchunk
    obtain ⟨source, hsource, hle⟩ := (hmerged w hw).inside
    exact ⟨hcut.ok, source, by rw [hcut.sourceIndex]; exact hsource, hcut.end_le.trans hle⟩
  obtain ⟨hwrites, hasks⟩ :=
    writePads_spec sink (zeroChunkBytes_ne_zero options) hpads { slots := memory }
  rw [execute, hplan]
  simp only [hsplit]
  split
  · rename_i status s₁ heq
    rw [heq] at hwrites
    refine ⟨_, _, rfl, fun r hr => ?_, nofun⟩
    rw [show s₁.reads = [] from hwrites.reads] at hr
    simp at hr
  · rename_i s₁ heq
    rw [heq] at hwrites hasks
    obtain ⟨result, s', hrun, hexec, hpending⟩ :=
      executes_windows options sink pinnedPool usePinnedBuffers hex hreadable hwrites.pending
    refine ⟨result, s', hrun, fun r hr => ?_, fun hok => ?_⟩
    · obtain ⟨_, hdone, hreads⟩ := hexec.reads
      rw [hreads, show s₁.reads = [] from hwrites.reads] at hr
      obtain ⟨chunk, hchunk, rfl⟩ := List.mem_map.mp hr
      obtain ⟨w, hw, hcut⟩ := hcuts chunk (hdone.subset hchunk)
      exact ⟨w, hw, hcut.sourceIndex, hcut.start_le, hcut.end_le, hcut.length_le,
        fun h => by rw [hcut.whole h]⟩
    · have htotal := (hasks rfl).trans (hexec.asks hok)
      rw [Asks, asked, asked, promised, hpending hok] at htotal
      have hwritten : (written s'.writes).Perm (planned (cellOf (targetByte contents map)) pads
          windows) := by simpa [written, promised, planned] using htotal
      exact hwritten.trans ((hperm.append_left _).trans hcover)

/-- **`Execute` delivers the map.**  A normalized map is rejected up front, with nothing read or written,
exactly when some data segment does not lie in its source or two of them share a byte of a source.
Otherwise the merged windows keep to the limit on amplification, `Execute` returns, and every run reads
nothing but these windows, cut to the cap, and if it returns OK, has asked the sink for every
destination byte once, with the byte that the map denotes.  The sources leave room for the cap below
`2 ^ 64`. -/
theorem execute_delivers_map (options : SchedulerOptions) (map : ByteRangeMap)
    (sources : List BaseSource) (contents : ℕ → ℕ → UInt8) (sink : PositionedSink)
    (pinnedPool : Option PinnedBufferPool) (usePinnedBuffers : Bool) (memory : ℕ → ℕ → UInt8)
    (hnorm : normalizeByteRangeMap map = .ok map) (hex : ExactSources sources contents)
    (hcap : ∀ source ∈ sources, source.totalBytes.toNat + options.windowCapBytes.toNat ≤ 2 ^ 64) :
    (¬ Plannable sources map ↔ ∃ status, planWindows options sources map = .error status ∧
      ∀ fuel, execute options map sources sink pinnedPool usePinnedBuffers fuel
        { slots := memory } = some (.error status, { slots := memory })) ∧
    (Plannable sources map → ∃ pads windows,
      planWindows options sources map = .ok (pads, windows) ∧
      (∀ w ∈ windows, 2 ≤ w.slices.length →
        w.length.toNat ≤ options.mergeMaxAmplification.toNat * w.usedBytes) ∧
      (∀ fuel, 2 ^ 64 ≤ fuel → ∃ outcome, execute options map sources sink pinnedPool
        usePinnedBuffers fuel { slots := memory } = some outcome) ∧
      ∀ fuel result s', execute options map sources sink pinnedPool usePinnedBuffers fuel
          { slots := memory } = some (result, s') →
        Delivers options contents map windows result s') := by
  have hiff : (planWindows options sources map).IsOk ↔ Plannable sources map :=
    isOk_planWindows_iff hnorm
  refine ⟨?_, fun hplannable => ?_⟩
  · rw [← hiff]
    cases hplan : planWindows options sources map with
    | ok plan =>
      refine ⟨fun h => absurd ⟨plan, rfl⟩ h, ?_⟩
      rintro ⟨status, h, -⟩
      simp at h
    | error status =>
      refine ⟨fun _ => ⟨status, rfl, fun fuel => ?_⟩, ?_⟩
      · rw [execute, hplan]
      · rintro - ⟨plan, h⟩
        simp at h
  · obtain ⟨⟨pads, merged⟩, hplan⟩ := hiff.mpr hplannable
    obtain ⟨-, -, hmerged⟩ := planWindows_spec contents id hnorm hplan
    refine ⟨pads, merged, hplan, fun w hw h2 => ?_, fun fuel hfuel => ?_, fun fuel result s' h => ?_⟩
    · rw [SourceWindow.usedBytes, ← (hmerged w hw).ok.payload]
      exact (hmerged w hw).amplification h2
    · obtain ⟨windows, hsplit⟩ := splitWindows_isSome hfuel
        (fun w hw => (hmerged w hw).inside.lt)
        (fun w hw => (hmerged w hw).inside.add_cap_le hcap)
      obtain ⟨result, s', heq, -⟩ := execute_of_planned hnorm hex hcap hplan hsplit
      exact ⟨_, heq⟩
    · cases hsplit : splitWindows options.windowCapBytes fuel merged with
      | none =>
        rw [execute, hplan] at h
        simp [hsplit] at h
      | some windows =>
        obtain ⟨_, _, heq, hdelivers⟩ := execute_of_planned hnorm hex hcap hplan hsplit
        cases h.symm.trans heq
        exact hdelivers

end Execute

/-! ## A window that is cut -/

/-- Two segments with a gap between them: six bytes from the start of the source, and its last
byte. -/
def gapMap : ByteRangeMap where
  totalBytes := 7
  numSources := 1
  segments := [⟨.data, 0, 6, 0, 0⟩, ⟨.data, 6, 1, 9, 0⟩]

/-- The gap is bridged, and the window of ten bytes is cut in two. -/
def gapOptions : SchedulerOptions where
  mergeMaxGapBytes := 3
  mergeMaxAmplification := 2
  windowCapBytes := 5

def gapSources : List BaseSource := [cpuMemorySource (fun i => UInt8.ofNat i) 10]

/-- The second piece reads five bytes for two bytes of two segments, above the limit of two. -/
theorem execute_cut_exceeds_amplification :
    let merged : SourceWindow := ⟨0, 0, 10, 7, [⟨0, 0, 6⟩, ⟨9, 6, 1⟩]⟩
    let first : SourceWindow := ⟨0, 0, 5, 5, [⟨0, 0, 5⟩]⟩
    let second : SourceWindow := ⟨0, 5, 5, 2, [⟨5, 5, 1⟩, ⟨9, 6, 1⟩]⟩
    normalizeByteRangeMap gapMap = .ok gapMap ∧
      planWindows gapOptions gapSources gapMap = .ok ([], [merged]) ∧
      splitWindows gapOptions.windowCapBytes 10 [merged] = some [first, second] ∧
      (execute gapOptions gapMap gapSources {} none false 10 {}).map
        (fun outcome => (outcome.1, outcome.2.reads)) =
        some (.ok (), [first.read, second.read]) ∧
      2 ≤ second.slices.length ∧
      gapOptions.mergeMaxAmplification.toNat * second.usedBytes < second.length.toNat := by
  decide +kernel

/-- Through pinned slots and an asynchronous sink that transfers nothing before it has to. -/
theorem execute_delivers_map_gap : ∃ s',
    execute gapOptions gapMap gapSources { async := true } (some { sliceBytes := 8 }) true 10 {} =
      some (.ok (), s') ∧
    (written s'.writes).Perm
      (slice (cellOf (targetByte (fun _ i => UInt8.ofNat i) gapMap)) 0 7) := by
  obtain ⟨hreject, haccept⟩ := execute_delivers_map gapOptions gapMap gapSources
    (fun _ i => UInt8.ofNat i) { async := true } (some { sliceBytes := 8 }) true (fun _ _ => 0)
    (by decide +kernel) (exactSources_singleton (exact_cpuMemorySource _ _))
    (by simp [gapSources, gapOptions, cpuMemorySource])
  have hrun : (execute gapOptions gapMap gapSources { async := true } (some { sliceBytes := 8 })
      true 10 {}).map Prod.fst = some (.ok ()) := by decide +kernel
  obtain ⟨⟨result, s'⟩, heq, hok⟩ := Option.map_eq_some_iff.mp hrun
  obtain rfl : result = .ok () := hok
  have hplannable : Plannable gapSources gapMap := by
    by_contra hnot
    obtain ⟨_, -, herror⟩ := hreject.mp hnot
    have := heq.symm.trans (herror 10)
    simp at this
  obtain ⟨-, _, -, -, -, hdelivers⟩ := haccept hplannable
  exact ⟨s', heq, (hdelivers 10 _ s' heq).writes rfl⟩

end TensorCast.Window
