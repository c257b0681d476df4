import TensorCast.Window.ExecuteSpec

/-!
# Execution through pinned slots

The slots in flight are those that the buffer has lent out, and every pending transfer belongs to
one of them.  So a window that goes into a free slot touches no bytes that are still to be
transferred, and the prefetch depth leaves a free slot for every window.
-/

namespace TensorCast.Window

open Core Lib ByteRange Source Memory Sink ExecState List Function

/-- The slots in flight are lent out, and hold what the pending transfers will take. -/
structure Coherent (numChunks : ℕ) (st : PinnedState) : Prop where
  numChunks_eq : st.spb.numChunks = numChunks
  readyQueue_eq : st.spb.readyQueue = []
  leased : st.spb.Leased (st.inflight.map (·.slotId)) []
  pending : ∀ t ∈ st.exec.pending, ∃ e ∈ st.inflight, e.slotId = t.slotId ∧ t.handle ∈ e.handles

section Inflight

variable {numChunks : ℕ} {st : PinnedState} (sink : PositionedSink)

/-- Waiting for the oldest slot in flight. -/
lemma waitInflight_spec (h : Coherent numChunks st) :
    Coherent numChunks (waitInflight sink st).2 ∧
      (waitInflight sink st).2.inflight = st.inflight.tail ∧
      (waitInflight sink st).2.exec.reads = st.exec.reads ∧
      st.exec.Asks (waitInflight sink st).2.exec [] := by
  rw [waitInflight]
  cases hin : st.inflight with
  | nil => exact ⟨h, hin, rfl, .refl _⟩
  | cons entry rest =>
    have hsettles := settles_waitHandles sink entry.handles st.exec
    have hleased := h.leased
    rw [hin] at hleased
    obtain ⟨_, hspb, hshape, hready, hleased', -⟩ := hleased.abortProducerSlot
    simp only [hspb]
    refine ⟨⟨hshape.numChunks.trans h.numChunks_eq, hready.trans h.readyQueue_eq, hleased', fun t ht => ?_⟩,
      rfl, hsettles.reads, hsettles.asks⟩
    obtain ⟨hmem, hnot⟩ := hsettles.pending t ht
    obtain ⟨e, he, hslot, hhandle⟩ := h.pending t hmem
    rw [hin] at he
    rcases mem_cons.mp he with rfl | he
    · exact absurd hhandle hnot
    · exact ⟨e, he, hslot, hhandle⟩

/-- Waiting for all slots in flight leaves no transfer behind. -/
lemma drain_spec {fuel : ℕ} :
    ∀ {st : PinnedState}, Coherent numChunks st → st.inflight.length ≤ fuel →
      (drain sink fuel st).2.exec.reads = st.exec.reads ∧
      ((drain sink fuel st).1 = .ok () →
        (drain sink fuel st).2.exec.pending = [] ∧
          st.exec.Asks (drain sink fuel st).2.exec []) := by
  have hempty : ∀ {st : PinnedState}, Coherent numChunks st → st.inflight = [] →
      st.exec.pending = [] := by
    intro st h hin
    refine eq_nil_iff_forall_not_mem.mpr fun t ht => ?_
    obtain ⟨e, he, -⟩ := h.pending t ht
    rw [hin] at he
    simp at he
  induction fuel with
  | zero =>
    intro st h hlen
    have hin := eq_nil_of_length_eq_zero (Nat.le_zero.mp hlen)
    exact ⟨rfl, fun _ => ⟨hempty h hin, .refl _⟩⟩
  | succ fuel ih =>
    intro st h hlen
    rw [drain]
    by_cases hin : st.inflight = []
    · rw [if_pos hin]
      exact ⟨rfl, fun _ => ⟨hempty h hin, .refl _⟩⟩
    · rw [if_neg hin]
      obtain ⟨hcoherent, htail, hreads, hasks⟩ := waitInflight_spec sink h
      split
      · rename_i status st' heq
        rw [heq] at hreads
        exact ⟨hreads, nofun⟩
      · rename_i st' heq
        rw [heq] at hcoherent htail hreads hasks
        have hlen' : st'.inflight.length ≤ fuel := by
          rw [htail, length_tail]
          omega
        obtain ⟨hreads', hok'⟩ := ih hcoherent hlen'
        refine ⟨hreads'.trans hreads, fun hok => ?_⟩
        obtain ⟨hpending, hasks'⟩ := hok' hok
        exact ⟨hpending, hasks.trans hasks'⟩

end Inflight

/-! ## One window -/

/-- A slot was taken for a window, besides those in flight, and holds its slices. -/
structure Loaded (numChunks : ℕ) (target : ℕ → UInt8) (window : SourceWindow) (slotId : ℕ)
    (st : PinnedState) : Prop where
  numChunks_eq : st.spb.numChunks = numChunks
  readyQueue_eq : st.spb.readyQueue = []
  leased : st.spb.Leased (slotId :: st.inflight.map (·.slotId)) []
  pending : ∀ t ∈ st.exec.pending, ∃ e ∈ st.inflight, e.slotId = t.slotId ∧ t.handle ∈ e.handles
  holds : Holds target window (st.exec.slots slotId)

section Window

variable {options : SchedulerOptions} {sources : List BaseSource} {contents : ℕ → ℕ → UInt8}
  {target : ℕ → UInt8} {window : SourceWindow} {slotId : ℕ} {st : PinnedState}
  (sink : PositionedSink)

lemma Loaded.coherent_push {numChunks : ℕ} (h : Loaded numChunks target window slotId st)
    {handles : List ℕ} {exec : ExecState} (hissue : Issues slotId handles st.exec exec) :
    Coherent numChunks
      { st with exec := exec, inflight := st.inflight ++ [⟨slotId, handles⟩] } where
  numChunks_eq := h.numChunks_eq
  readyQueue_eq := h.readyQueue_eq
  leased := by
    refine h.leased.perm ?_ .rfl
    rw [map_append]
    exact perm_append_comm
  pending t ht := by
    rcases hissue.pending t ht with hmem | ⟨hslot, hhandle⟩
    · obtain ⟨e, he, hrest⟩ := h.pending t hmem
      exact ⟨e, mem_append_left _ he, hrest⟩
    · exact ⟨⟨slotId, handles⟩, mem_append_right _ mem_cons_self, hslot.symm, hhandle⟩

lemma writeWindow_spec (hdepth : 0 < options.prefetchDepth.toNat)
    (h : Loaded options.prefetchDepth.toNat target window slotId st)
    (hroom : st.inflight.length < options.prefetchDepth.toNat) {st' : PinnedState}
    (hst' : (writeWindow options sink window slotId st).2 = st') :
    st'.exec.reads = st.exec.reads ∧
      ((writeWindow options sink window slotId st).1 = .ok () →
        Coherent options.prefetchDepth.toNat st' ∧
        st'.inflight.length < options.prefetchDepth.toNat ∧
        st.exec.Asks st'.exec (window.slices.flatMap (·.along (cellOf target)))) := by
  subst hst'
  rw [writeWindow]
  by_cases hasync : sink.async = true
  · rw [if_pos hasync]
    obtain ⟨result, handles, exec, heq, -, hissue, hasks⟩ :=
      issueSlices_spec sink [] st.exec h.holds
    rw [heq]
    cases result with
    | error status =>
      have hsettles := settles_waitHandles sink handles exec
      exact ⟨hsettles.reads.trans hissue.reads, nofun⟩
    | ok =>
      have hpush := h.coherent_push hissue
      simp only [length_append, length_singleton]
      by_cases hfull : options.prefetchDepth.toNat ≤ st.inflight.length + 1
      · rw [if_pos hfull]
        obtain ⟨hcoherent, htail, hreads, hasks'⟩ := waitInflight_spec sink hpush
        refine ⟨hreads.trans hissue.reads, fun _ => ⟨hcoherent, ?_, ?_⟩⟩
        · rw [htail, length_tail, length_append, length_singleton]
          omega
        · simpa using (hasks rfl).trans hasks'
      · rw [if_neg hfull]
        refine ⟨hissue.reads, fun _ => ⟨hpush, ?_, hasks rfl⟩⟩
        rw [length_append, length_singleton]
        omega
  · rw [if_neg hasync]
    obtain ⟨hwrites, hasks⟩ := writeSlices_spec sink h.holds st.exec
    split
    · rename_i status exec heq
      rw [heq] at hwrites
      exact ⟨hwrites.reads, nofun⟩
    · rename_i exec heq
      rw [heq] at hwrites hasks
      obtain ⟨_, hspb, hshape, hready, hleased, -⟩ := h.leased.abortProducerSlot
      rw [hspb]
      refine ⟨hwrites.reads, fun _ => ⟨⟨hshape.numChunks.trans h.numChunks_eq, hready.trans h.readyQueue_eq,
        hleased, fun t ht => h.pending t ?_⟩, hroom, hasks rfl⟩⟩
      rw [← hwrites.pending]
      exact ht

lemma asks_of_slots {s : ExecState} {reads : List SourceRead} {slots : ℕ → ℕ → UInt8} {tick : ℕ}
    (h : ∀ t ∈ s.pending, slots t.slotId = s.slots t.slotId) :
    s.Asks { s with tick := tick, reads := reads, slots := slots } [] := by
  have hpending : s.pending.map (Transfer.write slots) = s.pending.map (Transfer.write s.slots) :=
    map_congr_left fun t ht => by rw [Transfer.write, Transfer.write, h t ht]
  rw [Asks, append_nil, asked, asked, promised, promised, hpending]

lemma executeWindow_spec (hex : ExactSources sources contents)
    (hdepth : 0 < options.prefetchDepth.toNat) (hwindow : Readable sources contents target window)
    (h : Coherent options.prefetchDepth.toNat st)
    (hroom : st.inflight.length < options.prefetchDepth.toNat) :
    ∃ result st', executeWindow options sources sink window st = some (result, st') ∧
      st'.exec.reads = st.exec.reads ++ [window.read] ∧
      (result = .ok () → Coherent options.prefetchDepth.toNat st' ∧
        st'.inflight.length < options.prefetchDepth.toNat ∧
        st.exec.Asks st'.exec (window.slices.flatMap (·.along (cellOf target)))) := by
  -- fewer slots are in flight than there are, so one is free
  have hfree := h.leased.length_freeQueue
  rw [h.readyQueue_eq, h.numChunks_eq] at hfree
  obtain ⟨slotId, _, hqueue⟩ := exists_cons_of_length_pos
    (show 0 < st.spb.freeQueue.length by simp at hfree; omega)
  obtain ⟨spb, hget, hshape, hready, hleased, -⟩ := h.leased.getFreeChunk hqueue
  have hlt : slotId < spb.numChunks :=
    hleased.lt (by simp [StreamingPinnedBuffer.ledger])
  have hptr : spb.getChunkPtr slotId = some slotId := if_neg (by omega)
  have hsettles := settles_settle sink st.exec
  obtain ⟨result, tick, hread, hholds⟩ :=
    readWindow_spec hex hwindow.inside hwindow.ok (settle sink st.exec)
  have hreads : (settle sink st.exec).reads ++ [window.read] =
      st.exec.reads ++ [window.read] := by rw [hsettles.reads]
  rw [executeWindow, hget]
  simp only [hptr, hread]
  cases result with
  | error status => exact ⟨_, _, rfl, hreads, by rintro ⟨⟩⟩
  | ok data =>
    -- the slot is not in flight, so no pending transfer takes its bytes
    have hother : ∀ t ∈ (settle sink st.exec).pending, t.slotId ≠ slotId := by
      intro t ht heq
      obtain ⟨e, he, hslot, -⟩ := h.pending t (hsettles.pending t ht).1
      have hnodup := hleased.nodup
      simp only [StreamingPinnedBuffer.ledger, nodup_append, nodup_cons, append_nil] at hnodup
      refine hnodup.2.1.2.1.1 ?_
      rw [← heq, ← hslot]
      exact mem_map_of_mem he
    have hslots : ∀ t ∈ (settle sink st.exec).pending,
        update (settle sink st.exec).slots slotId
          (fill data ((settle sink st.exec).slots slotId)) t.slotId =
        (settle sink st.exec).slots t.slotId :=
      fun t ht => update_of_ne (hother t ht) _ _
    let loaded : PinnedState := { st with
      spb := spb
      exec := { settle sink st.exec with
        tick := tick
        reads := (settle sink st.exec).reads ++ [window.read]
        slots := update (settle sink st.exec).slots slotId
          (fill data ((settle sink st.exec).slots slotId)) } }
    have hfilled : st.exec.Asks loaded.exec [] := hsettles.asks.trans (asks_of_slots hslots)
    have hloaded : Loaded options.prefetchDepth.toNat target window slotId loaded :=
      ⟨hshape.numChunks.trans h.numChunks_eq, hready.trans h.readyQueue_eq, hleased,
        fun t ht => h.pending t (hsettles.pending t ht).1, by
          rw [show loaded.exec.slots slotId = _ from update_self ..]
          exact hholds data rfl _⟩
    obtain ⟨hreads', hok⟩ := writeWindow_spec sink hdepth hloaded hroom rfl
    refine ⟨_, _, rfl, hreads'.trans hreads, fun hres => ?_⟩
    obtain ⟨hcoherent, hlen, hasks⟩ := hok hres
    exact ⟨hcoherent, hlen, hfilled.trans hasks⟩

/-! ## All windows -/

lemma executeWindows_spec (hex : ExactSources sources contents)
    (hdepth : 0 < options.prefetchDepth.toNat) {windows : List SourceWindow}
    (hwindows : ∀ w ∈ windows, Readable sources contents target w) :
    ∀ {st : PinnedState}, Coherent options.prefetchDepth.toNat st →
      st.inflight.length < options.prefetchDepth.toNat →
      ∃ result st', executeWindows options sources sink windows st = some (result, st') ∧
        Executes target windows st.exec result st'.exec ∧
        (result = .ok () → Coherent options.prefetchDepth.toNat st') := by
  induction windows with
  | nil =>
    intro st h _
    exact ⟨.ok (), st, rfl, ⟨⟨[], by simp, by simp⟩, fun _ => .refl _⟩, fun _ => h⟩
  | cons window rest ih =>
    intro st h hroom
    obtain ⟨hwindow, hrest⟩ := forall_mem_cons.mp hwindows
    obtain ⟨result, st₁, hstep, hreads, hok⟩ :=
      executeWindow_spec sink hex hdepth hwindow h hroom
    rw [executeWindows, hstep]
    cases result with
    | error status =>
      exact ⟨.error status, st₁, rfl, .of_error hreads, nofun⟩
    | ok =>
      obtain ⟨hcoherent, hlen, hasks⟩ := hok rfl
      obtain ⟨result, st', heq, hexec, hcoherent'⟩ := ih hrest hcoherent hlen
      exact ⟨result, st', heq, .cons hreads hasks hexec, hcoherent'⟩

lemma releaseSlots_exec (pool : PinnedBufferPool) (st : PinnedState) :
    (releaseSlots pool st).2.exec = st.exec := by
  rw [releaseSlots]
  split
  · rfl
  · split <;> rfl

lemma cleanupSpb_reads (pool : PinnedBufferPool) (entries : List InFlight) :
    ∀ st, (cleanupSpb sink pool entries st).exec.reads = st.exec.reads := by
  induction entries with
  | nil => exact fun st => rfl
  | cons entry rest ih =>
    intro st
    rw [cleanupSpb, ih]
    exact (settles_waitHandles sink entry.handles st.exec).reads

section

variable (hex : ExactSources sources contents) (hdepth : 0 < options.prefetchDepth.toNat)
  {windows : List SourceWindow}

include hex hdepth

lemma executeSlots_spec (pool : PinnedBufferPool)
    (hwindows : ∀ w ∈ windows, Readable sources contents target w)
    (h : Coherent options.prefetchDepth.toNat st)
    (hroom : st.inflight.length < options.prefetchDepth.toNat) :
    ∃ result st', executeSlots options sources sink pool windows st = some (result, st') ∧
      Executes target windows st.exec result st'.exec ∧
      (result = .ok () → st'.exec.pending = []) := by
  obtain ⟨result, _, heq, hexec, hcoherent⟩ :=
    executeWindows_spec sink hex hdepth hwindows h hroom
  rw [executeSlots, heq]
  cases result with
  | error status => exact ⟨_, _, rfl, hexec, nofun⟩
  | ok =>
    obtain ⟨hreads, hok⟩ := drain_spec sink (hcoherent rfl) le_rfl
    obtain ⟨done, hdone, hreads'⟩ := hexec.reads
    simp only
    split
    · rename_i status st₂ hdrain
      rw [hdrain] at hreads
      exact ⟨_, _, rfl, ⟨⟨done, hdone, hreads.trans hreads'⟩, nofun⟩, nofun⟩
    · rename_i st₂ hdrain
      rw [hdrain] at hreads hok
      obtain ⟨hpending, hasks⟩ := hok rfl
      refine ⟨(releaseSlots pool st₂).1, (releaseSlots pool st₂).2, rfl,
        ⟨⟨done, hdone, ?_⟩, fun _ => ?_⟩, fun _ => ?_⟩ <;> rw [releaseSlots_exec]
      · exact hreads.trans hreads'
      · simpa using (hexec.asks rfl).trans hasks
      · exact hpending

/-- **The pinned part** never waits for a slot that does not come. -/
lemma executePinned_spec (pinnedPool : Option PinnedBufferPool)
    (hwindows : ∀ w ∈ windows, Readable sources contents target w)
    {s : ExecState} (hpending : s.pending = []) :
    ∃ result s', executePinned options sources sink pinnedPool windows s = some (result, s') ∧
      Executes target windows s result s' ∧ (result = .ok () → s'.pending = []) := by
  have hrejects : ∀ status : Status, Executes target windows s (.error status) s ∧
      ((.error status : StatusOr Unit) = .ok () → s.pending = []) := fun status =>
    ⟨⟨⟨[], by simp, by simp⟩, nofun⟩, nofun⟩
  unfold executePinned
  cases pinnedPool with
  | none => exact ⟨_, s, rfl, hrejects _⟩
  | some pool =>
    simp only
    split
    · exact ⟨_, s, rfl, hrejects _⟩
    split
    · exact ⟨_, s, rfl, hrejects _⟩
    split
    · exact ⟨_, s, rfl, hrejects _⟩
    cases halloc : pool.allocate with
    | error status => exact ⟨_, s, rfl, hrejects _⟩
    | ok =>
      obtain ⟨spb, hinit, hnum, hfresh⟩ :=
        StreamingPinnedBuffer.fresh_initializeBuffer (max 1 options.prefetchDepth.toNat)
          pool.sliceBytes
      rw [max_eq_right hdepth] at hnum
      have hcoherent : Coherent options.prefetchDepth.toNat { exec := s, spb := spb } :=
        ⟨hnum, hfresh.readyQueue, hfresh.leased, fun t ht => by simp [hpending] at ht⟩
      obtain ⟨result, _, heq, hexec, hok⟩ :=
        executeSlots_spec sink hex hdepth pool hwindows hcoherent hdepth
      rw [hinit]
      simp only [heq]
      cases result with
      | error status =>
        obtain ⟨done, hdone, hreads⟩ := hexec.reads
        refine ⟨_, _, rfl, ⟨⟨done, hdone, ?_⟩, nofun⟩, nofun⟩
        rw [cleanupSpb_reads]
        exact hreads
      | ok => exact ⟨_, _, rfl, hexec, hok⟩

end

end Window

end TensorCast.Window
