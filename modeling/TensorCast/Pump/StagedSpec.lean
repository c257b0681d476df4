import TensorCast.Pump.Account

/-!
# Runs of the staged pump

A run that returns OK has written every byte of every range once, whatever the interleaving was.  A
run that returns has all slots back in the free queue, if the consumer was never in `return_if_needed`
while the callback of the same copy was between its two steps.
-/

namespace TensorCast.Pump

open Core Lib Memory Sink List

variable {content : ℕ → UInt8} {env : Env} {ranges : List Range} {s s' : State} {t : Thread}
  {pool : StreamingPinnedBuffer} {memory : ℕ → ℕ → UInt8} {concurrency : ℕ}
  {allowed : State → Thread → Prop}

/-! ## What holds in every run -/

lemma Move.length_producers (h : Move env ranges s t s') :
    s'.producers.length = s.producers.length := by
  cases h with
  | producer => exact length_set
  | main => rfl
  | callback => rfl

/-- A step keeps the number of slots. -/
lemma Move.numChunks (h : Move env ranges s t s') :
    s'.shared.pool.numChunks = s.shared.pool.numChunks := by
  cases h with
  | producer i pc pc' sh' hpc hmove =>
    cases hmove
    case acquire hpool | release hpool => exact hpool.numChunks
    case ready hshape _ => exact hshape.numChunks
    all_goals rfl
  | main m' sh' hmove =>
    obtain ⟨_, _, m⟩ := s
    cases hmove
    case take hshape _ | drainTake hshape _ => exact hshape.numChunks
    case drop hpool | wrote hpool | wroteError hpool | drainReturn hpool => exact hpool.numChunks
    case giveUp hpool | reclaim hpool => exact hpool.numChunks
    all_goals rfl
  | callback index slot slot' sh' hslot hmove =>
    cases hmove
    case give hpool => exact hpool.numChunks
    all_goals rfl

section Runs

variable (hfresh : pool.Fresh)
  (hreach : Reaches (step env ranges) allowed (start pool memory concurrency) s)
include hfresh hreach

lemma reaches_leased : s.Leased :=
  hreach.invariant (leased_start hfresh.leased) fun _ _ _ _ _ hstep hleased =>
    (step_move hleased hstep).2

lemma reaches_size :
    s.shared.pool.numChunks = pool.numChunks ∧ s.producers.length = concurrency := by
  refine hreach.invariant (P := fun s => s.shared.pool.numChunks = pool.numChunks ∧
    s.producers.length = concurrency) ⟨rfl, length_replicate⟩ ?_
  intro s t s' hs _ hstep ⟨hnum, hlength⟩
  obtain ⟨hmove, -⟩ := step_move (reaches_leased hfresh hs) hstep
  exact ⟨hmove.numChunks.trans hnum, hmove.length_producers.trans hlength⟩

lemma reaches_control : Control s := by
  refine hreach.invariant (control_start _ _ _) fun s t s' hs _ hstep hcontrol => ?_
  exact hcontrol.move (step_move (reaches_leased hfresh hs) hstep).1

lemma reaches_smooth : Clean s → Smooth s ∧ Progress ranges s := by
  refine hreach.invariant (P := fun s => Clean s → Smooth s ∧ Progress ranges s)
    (fun _ => ⟨smooth_start _ _ _, progress_start hfresh.productionComplete _ _⟩) ?_
  intro s t s' hs _ hstep ih hclean
  obtain ⟨hmove, -⟩ := step_move (reaches_leased hfresh hs) hstep
  obtain ⟨hsmooth, hprogress⟩ := ih (hclean.of_move hmove)
  have hsmooth' := hsmooth.move (reaches_control hfresh hs) hmove hclean
  exact ⟨hsmooth', hprogress.move hsmooth hmove hsmooth' hclean⟩

lemma reaches_account (hreads : env.Reads content)
    (hranges : ∀ r ∈ ranges, r.offset.toNat + r.size.toNat ≤ 2 ^ 64) :
    Clean s → Account content ranges s := by
  refine hreach.invariant (P := fun s => Clean s → Account content ranges s)
    (fun _ => account_start hfresh.readyQueue _ _) ?_
  intro s t s' hs hallowed hstep ih hclean
  have hleased := reaches_leased hfresh hs
  obtain ⟨hmove, -⟩ := step_move hleased hstep
  have hclean₀ := hclean.of_move hmove
  exact (ih hclean₀).move hleased (reaches_smooth hfresh hs hclean₀).1 hreads hranges hmove
    (reaches_smooth hfresh (hs.snoc hallowed hstep) hclean).1 hclean

end Runs

/-! ## The end of a run -/

/-- When the consumer and the producers are at their end and no failure is recorded, there was
none. -/
lemma Control.clean (hs : Control s) (hok : s.shared.StatusOk)
    (hflushed : s.main.pc.flushed = true) (hdone : ∀ pc ∈ s.producers, pc = .done) : Clean s where
  status := hok
  producer pc hpc := by
    rw [hdone pc hpc]
    rfl
  main := by
    cases hpc : s.main.pc with
    | written => simp [hpc, MainPc.flushed, MainPc.joined] at hflushed
    | _ => rfl
  copy copy hcopy := by
    obtain ⟨index, hindex⟩ := getElem?_of_mem hcopy
    rcases hs.settled index copy hindex with hin | hrecorded | hfailed
    · rw [hs.flushed hflushed] at hin
      cases hin
    · obtain ⟨_, _, _, stage, _⟩ := copy
      cases stage <;> simp_all [AsyncSlot.failed, CopyStage.recorded?, CopyStage.result?]
    · exact absurd hok hfailed

/-- The calling thread is behind the drain. -/
def MainPc.drainedAll : MainPc → Bool
  | .closing | .returned _ => true
  | _ => false

lemma joined_of_drainedAll {pc : MainPc} (h : pc.drainedAll = true) : pc.joined = true := by
  cases pc <;> first | rfl | cases h

lemma MainMove.drainedAll {sh sh' : Shared} {m m' : Main} {done : Bool}
    (h : MainMove env done sh m m' sh') (hpc : m'.pc.drainedAll = true) :
    sh'.pool = sh.pool ∧ (m.pc.drainedAll = true ∨ sh.pool.readyQueue = [] ∨
      m.pc = .waiting ∧ done = true ∧ sh.shouldStop = false) := by
  cases h
  case finish hdone hstop => exact ⟨rfl, .inr (.inr ⟨rfl, hdone, hstop⟩)⟩
  case drainEnd hempty => exact ⟨rfl, .inr (.inl hempty)⟩
  case close => exact ⟨rfl, .inl rfl⟩
  case reclaim flush _ _ _ _ _ _ => cases flush <;> cases hpc
  all_goals cases hpc

section Runs

variable (hfresh : pool.Fresh)
  (hreach : Reaches (step env ranges) allowed (start pool memory concurrency) s)
include hfresh hreach

/-- **Nothing is left in the ready queue**: it was drained after a failure, and without one the
consumer has seen the end of production. -/
lemma reaches_drained : s.main.pc.drainedAll = true → s.shared.pool.readyQueue = [] := by
  refine hreach.invariant (P := fun s => s.main.pc.drainedAll = true →
    s.shared.pool.readyQueue = []) (fun h => nomatch h) ?_
  intro s t s' hs _ hstep ih hpc
  have hcontrol := reaches_control hfresh hs
  obtain ⟨hmove, -⟩ := step_move (reaches_leased hfresh hs) hstep
  cases hmove with
  | producer i pc pc' sh' hpc' hmove =>
    exact absurd (hcontrol.joined (joined_of_drainedAll hpc) pc (mem_of_getElem? hpc'))
      hmove.ne_done
  | callback index slot slot' sh' hslot hmove => exact hmove.frame.2.2.2.2.trans (ih hpc)
  | main m' sh' hmove =>
    obtain ⟨hpool, hcases⟩ := hmove.drainedAll hpc
    rw [show sh'.pool = _ from hpool]
    rcases hcases with hold | hempty | ⟨hwaiting, hall, hstop⟩
    · exact ih hold
    · exact hempty
    · -- no failure is recorded, since each one orders the threads to stop
      have hok : s.shared.StatusOk := by
        by_contra hfailed
        rcases hcontrol.stop hfailed with hstop' | hstops
        · exact absurd hstop' (Bool.eq_false_iff.mp hstop)
        · rw [hwaiting] at hstops
          cases hstops
      have hdone : ∀ pc ∈ s.producers, pc = .done := by simpa using hall
      have hclean := hcontrol.clean hok (by rw [hwaiting]; rfl) hdone
      exact ((reaches_smooth hfresh hs hclean).2.ended (by rw [hwaiting]; rfl)).1

lemma staged_delivers (hreads : env.Reads content)
    (hranges : ∀ r ∈ ranges, r.offset.toNat + r.size.toNat ≤ 2 ^ 64)
    (hconcurrency : 0 < concurrency) (hpc : s.main.pc = .returned (.ok ())) :
    (written s.shared.writes).Perm (ranges.flatMap (Range.cells content)) := by
  have hcontrol := reaches_control hfresh hreach
  have hdone := hcontrol.joined (by rw [hpc]; rfl)
  have hclean : Clean s := hcontrol.clean (hcontrol.verdict hpc) (by rw [hpc]; rfl) hdone
  have hready : s.shared.pool.readyQueue = [] := reaches_drained hfresh hreach (by rw [hpc]; rfl)
  -- some producer has seen the end of the ranges
  obtain ⟨pc, hmem⟩ :=
    exists_mem_of_length_pos ((reaches_size hfresh hreach).2.symm ▸ hconcurrency)
  have hexhausted : ranges.length ≤ s.shared.rangeIndex :=
    (reaches_smooth hfresh hreach hclean).2.exhausted pc hmem (by rw [hdone pc hmem]; rfl)
  -- no copy is running
  have hcopies : s.shared.copies.flatMap AsyncSlot.pieces = [] := by
    refine flatMap_eq_nil_iff.mpr fun copy hcopy => ?_
    obtain ⟨index, hindex⟩ := getElem?_of_mem hcopy
    rcases hcontrol.settled index copy hindex with hin | hrecorded | hfailed
    · rw [hcontrol.flushed (by rw [hpc]; rfl)] at hin
      cases hin
    · cases hstage : copy.stage <;> simp_all [AsyncSlot.pieces, CopyStage.recorded?]
    · exact absurd hclean.status hfailed
  have hpending : s.producers.flatMap (Producer.pending content) = [] :=
    flatMap_eq_nil_iff.mpr fun pc hpc => by rw [hdone pc hpc]; rfl
  have hpieces : s.producers.flatMap Producer.pieces = [] :=
    flatMap_eq_nil_iff.mpr fun pc hpc => by rw [hdone pc hpc]; rfl
  have haccount := (reaches_account hfresh hreach hreads hranges hclean).covers.account
  simpa [hpending, hpieces, Shared.unclaimed, drop_of_length_le hexhausted, Shared.pieces,
    hready, hpc, MainPc.pieces, hcopies] using haccount

end Runs

/-- **A run that returns has every slot back**, if the consumer keeps out of the callbacks' way. -/
lemma staged_returns_slots (hfresh : pool.Fresh)
    (hreach : Reaches (step env ranges) (fun s t => careful s t = true)
      (start pool memory concurrency) s) {status : StatusOr Unit}
    (hpc : s.main.pc = .returned status) :
    s.shared.pool.freeQueue.Perm (List.range pool.numChunks) := by
  have hcontrol := reaches_control hfresh hreach
  have hgave : GaveBack s := by
    refine hreach.invariant (fun _ _ h => nomatch h) fun s t s' hs hcareful hstep hgave => ?_
    exact hgave.move hcareful (step_move (reaches_leased hfresh hs) hstep).1
  have hready : s.shared.pool.readyQueue = [] := reaches_drained hfresh hreach (by rw [hpc]; rfl)
  have hcopies : s.shared.copies.flatMap AsyncSlot.slots = [] := by
    refine flatMap_eq_nil_iff.mpr fun copy hcopy => ?_
    obtain ⟨index, hindex⟩ := getElem?_of_mem hcopy
    rcases hgave index copy hindex with hin | hrefused | hslots
    · rw [hcontrol.flushed (by rw [hpc]; rfl)] at hin
      cases hin
    · rw [hpc] at hrefused
      cases hrefused
    · exact hslots
  have hproducers : s.producers.flatMap Producer.slots = [] :=
    flatMap_eq_nil_iff.mpr fun pc hmem => by
      rw [hcontrol.joined (by rw [hpc]; rfl) pc hmem]
      rfl
  have hslots := (reaches_leased hfresh hreach).slots
  rw [(reaches_size hfresh hreach).1] at hslots
  simpa [StreamingPinnedBuffer.ledger, hready, hproducers, hcopies, hpc, MainPc.slots] using hslots

end TensorCast.Pump
