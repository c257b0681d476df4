import TensorCast.Pump.Control

/-!
# Runs without a failure

A run that ends well has never failed before, so it goes through few of the transitions: nobody is
told to stop, nobody gives a slot back unused, and production is complete when the last producer
says so.
-/

namespace TensorCast.Pump

open Core Lib Memory Sink List Bool

variable {env : Env} {ranges : List Range} {sh sh' : Shared} {s s' : State} {t : Thread}

/-! ## States that have not failed -/

/-- The producer has a failure to record. -/
def Producer.failed : Producer → Bool
  | .failing _ _ => true
  | _ => false

/-- The calling thread has a failure to record. -/
def MainPc.failed : MainPc → Bool
  | .written _ (.error _) => true
  | _ => false

def AsyncSlot.failed (copy : AsyncSlot) : Bool :=
  match copy.stage.result? with
  | some (.error _) => true
  | _ => false

/-- No failure is recorded, and none is on its way to be. -/
structure Clean (s : State) : Prop where
  status : s.shared.StatusOk
  producer : ∀ pc ∈ s.producers, pc.failed = false
  main : s.main.pc.failed = false
  copy : ∀ copy ∈ s.shared.copies, copy.failed = false

lemma CallbackMove.failed {slot slot' : AsyncSlot} (h : CallbackMove env sh slot slot' sh')
    (hfailed : slot'.failed = false) : slot.failed = false := by
  cases h <;> simp_all [AsyncSlot.failed, CopyStage.result?]

lemma MainMove.copies_failed {done : Bool} {m m' : Main} (h : MainMove env done sh m m' sh')
    (hclean : ∀ copy ∈ sh'.copies, copy.failed = false) :
    ∀ copy ∈ sh.copies, copy.failed = false := by
  cases h
  case submit | refuse => exact fun copy hcopy => hclean copy (mem_append_left _ hcopy)
  case giveUp hslot _ _ => exact forall_mem_of_set hslot hclean id
  case reclaim hslot _ _ => exact forall_mem_of_set hslot hclean id
  all_goals exact hclean

/-- **Nothing makes up for a failure.** -/
lemma Clean.of_move (h : Move env ranges s t s') (hs : Clean s') : Clean s := by
  cases h with
  | producer i pc pc' sh' hpc hmove =>
    refine ⟨hmove.worse.status hs.status, forall_mem_of_set hpc hs.producer fun _ => ?_, hs.main,
      hmove.copies ▸ hs.copy⟩
    cases hmove
    case fail => exact absurd hs.status.2 (orElse_ne_ok _ _)
    all_goals rfl
  | main m' sh' hmove =>
    refine ⟨hmove.worse.status hs.status, hs.producer, ?_, hmove.copies_failed hs.copy⟩
    obtain ⟨_, _, m⟩ := s
    cases hmove
    case wroteError => exact absurd hs.status.1 (orElse_ne_ok _ _)
    case settle hpc _ _ _ _ _ => rcases hpc with ⟨rfl, -⟩ | ⟨rfl, -⟩ <;> rfl
    case settleError hpc _ => rcases hpc with ⟨rfl, -⟩ | ⟨rfl, -⟩ <;> rfl
    all_goals rfl
  | callback index slot slot' sh' hslot hmove =>
    exact ⟨hmove.statusOk.mp hs.status, hs.producer, hs.main,
      forall_mem_of_set hslot hs.copy hmove.failed⟩

/-! ## States on the way of success -/

def Producer.smooth : Producer → Bool
  | .failing _ _ | .stopping _ | .releasing _ => false
  | _ => true

def MainPc.smooth : MainPc → Bool
  | .quitting | .dropping _ | .written _ (.error _) | .refused _ | .stopping | .draining
  | .drained _ => false
  | _ => true

/-- The copy runs from a slot that it holds, or it has ended well. -/
def AsyncSlot.smooth (copy : AsyncSlot) : Bool :=
  match copy.stage with
  | .absent => false
  | .copying => !copy.returned
  | .copied status | .recorded status | .claimed status | .passed status | .finished status =>
    status.isOk

structure Smooth (s : State) : Prop where
  shouldStop : s.shared.shouldStop = false
  drainRequested : s.shared.drainRequested = false
  producer : ∀ pc ∈ s.producers, pc.smooth = true
  main : s.main.pc.smooth = true
  copy : ∀ copy ∈ s.shared.copies, copy.smooth = true

lemma smooth_start (pool : StreamingPinnedBuffer) (memory : ℕ → ℕ → UInt8) (concurrency : ℕ) :
    Smooth (start pool memory concurrency) where
  shouldStop := rfl
  drainRequested := rfl
  producer pc hpc := by
    rw [eq_of_mem_replicate hpc]
    rfl
  main := rfl
  copy _ h := nomatch h

lemma smooth_giveBack {slot : AsyncSlot} (h : slot.stage.recorded? = some (.ok ())) :
    slot.giveBack.smooth = true := by
  obtain ⟨_, _, _, stage, _⟩ := slot
  cases stage <;> simp_all [AsyncSlot.smooth, AsyncSlot.giveBack, CopyStage.recorded?, Except.toBool]

lemma CallbackMove.smooth {slot slot' : AsyncSlot} (h : CallbackMove env sh slot slot' sh')
    (hfailed : slot'.failed = false) (hslot : slot.smooth = true) : slot'.smooth = true := by
  cases h <;> simp_all [AsyncSlot.smooth, AsyncSlot.failed, CopyStage.result?, Except.toBool]

variable {pc pc' : Producer}

lemma Smooth.producer_move {i : ℕ} (hs : Smooth s) (hpc : s.producers[i]? = some pc)
    (h : ProducerMove env ranges s.shared pc pc' sh') (hfailed : pc'.failed = false) :
    Smooth { s with shared := sh', producers := s.producers.set i pc' } := by
  have hsmooth := hs.producer pc (mem_of_getElem? hpc)
  have hstop := hs.shouldStop
  have hpc' : pc'.smooth = true ∧ sh'.shouldStop = false ∧ sh'.drainRequested = false := by
    cases h
    case stop hstop' | yield hstop' => exact absurd hstop' (eq_false_iff.mp hstop)
    case noSlot | misread | overflow => cases hfailed
    case fail | shut | shutHolding | release => cases hsmooth
    all_goals exact ⟨rfl, hstop, hs.drainRequested⟩
  exact ⟨hpc'.2.1, hpc'.2.2, forall_mem_set hs.producer hpc'.1, hs.main, h.copies ▸ hs.copy⟩

lemma Smooth.main_move {m' : Main} (hs : Smooth s) (hcontrol : Control s)
    (h : MainMove env (s.producers.all (· = .done)) s.shared s.main m' sh')
    (hok : sh'.StatusOk) (hfailed : m'.pc.failed = false) :
    Smooth { s with shared := sh', main := m' } := by
  have hold := h.worse.status hok
  obtain ⟨sh, producers, m⟩ := s
  obtain ⟨hstop, hdrain, hproducer, hmain, hcopy⟩ := hs
  change MainMove env (producers.all (· = .done)) sh m m' sh' at h
  cases h
  case leave hstop' => exact absurd hstop' (eq_false_iff.mp hstop)
  case drain hstop' =>
    rcases hstop' with hstop' | hdrain'
    · exact absurd hstop' (eq_false_iff.mp hstop)
    · exact absurd hdrain' (eq_false_iff.mp hdrain)
  case missing => exact absurd hok.1 (by simp)
  case refuse | settleError => exact absurd hok.1 (orElse_ne_ok _ _)
  case quit | drop | wroteError | giveUp | stop | drainEnd | drainTake | drainReturn => cases hmain
  case write inflight d chunk destOffset status =>
    refine ⟨hstop, hdrain, hproducer, ?_, hcopy⟩
    cases status
    · cases hfailed
    · rfl
  case submit =>
    refine ⟨hstop, hdrain, hproducer, rfl, forall_mem_append.mpr ⟨hcopy, ?_⟩⟩
    exact forall_mem_singleton.mpr rfl
  case reclaim inflight d i flush index hindex slot hslot pool hpool =>
    have hrecorded := (hcontrol.reclaiming i flush index slot rfl hindex hslot).resolve_right
      (not_not.mpr hold)
    refine ⟨hstop, hdrain, hproducer, ?_, forall_mem_set hcopy (smooth_giveBack hrecorded)⟩
    cases flush <;> rfl
  all_goals exact ⟨hstop, hdrain, hproducer, rfl, hcopy⟩

/-- **A step after which nothing has failed leads from smooth states to smooth ones.** -/
lemma Smooth.move (hs : Smooth s) (hcontrol : Control s) (h : Move env ranges s t s')
    (hclean : Clean s') : Smooth s' := by
  cases h with
  | producer i pc pc' sh' hpc hmove =>
    have hi := (List.getElem?_eq_some_iff.mp hpc).1
    exact hs.producer_move hpc hmove (hclean.producer pc' (mem_of_getElem? (getElem?_set_self hi)))
  | main m' sh' hmove => exact hs.main_move hcontrol hmove hclean.status hclean.main
  | callback index slot slot' sh' hslot hmove =>
    have hi := (List.getElem?_eq_some_iff.mp hslot).1
    have hslot' := hclean.copy slot' (mem_of_getElem? (getElem?_set_self hi))
    have hflags : sh'.shouldStop = s.shared.shouldStop ∧
        sh'.drainRequested = s.shared.drainRequested := by
      cases hmove <;> exact ⟨rfl, rfl⟩
    exact ⟨hflags.1.trans hs.shouldStop, hflags.2.trans hs.drainRequested, hs.producer, hs.main,
      forall_mem_set hs.copy (hmove.smooth hslot' (hs.copy slot (mem_of_getElem? hslot)))⟩

/-! ## The end of production -/

/-- The producer still counts in `producers_remaining`. -/
def Producer.active : Producer → Bool
  | .signalling | .done => false
  | _ => true

/-- The producer has left its loop. -/
def Producer.past : Producer → Bool
  | .exiting | .signalling | .done => true
  | _ => false

/-- The consumer has left its loop. -/
def MainPc.ended : MainPc → Bool
  | .flushing | .reclaiming _ true | .waiting | .closing | .returned _ => true
  | _ => false

/-- What is known of the end of production in a run without a failure. -/
structure Progress (ranges : List Range) (s : State) : Prop where
  remaining : s.shared.producersRemaining = s.producers.countP Producer.active
  exhausted : ∀ pc ∈ s.producers, pc.past = true → ranges.length ≤ s.shared.rangeIndex
  signalling : .signalling ∈ s.producers → s.shared.producersRemaining = 0
  complete : s.shared.pool.productionComplete = true → s.shared.producersRemaining = 0
  ended : s.main.pc.ended = true → s.shared.pool.readyQueue = [] ∧ s.shared.producersRemaining = 0

lemma progress_start {pool : StreamingPinnedBuffer} (hpool : pool.productionComplete = false)
    (memory : ℕ → ℕ → UInt8) (concurrency : ℕ) :
    Progress ranges (start pool memory concurrency) where
  remaining := by
    simp [start, countP_replicate, Producer.active]
  exhausted pc hpc hpast := by
    rw [eq_of_mem_replicate hpc] at hpast
    cases hpast
  signalling h := nomatch eq_of_mem_replicate h
  complete h := absurd h (eq_false_iff.mp hpool)
  ended h := nomatch h

lemma Progress.remaining_ne_zero (hs : Progress ranges s) {pc : Producer} (hpc : pc ∈ s.producers)
    (hactive : pc.active = true) : s.shared.producersRemaining ≠ 0 := by
  rw [hs.remaining]
  exact (countP_pos_iff.mpr ⟨pc, hpc, hactive⟩).ne'

structure Counted (sh : Shared) (pc' : Producer) (sh' : Shared) : Prop where
  remaining : sh.producersRemaining = sh'.producersRemaining + if pc'.active = true then 0 else 1
  complete : sh'.pool.productionComplete = sh.pool.productionComplete
  rangeIndex : sh.rangeIndex ≤ sh'.rangeIndex
  signalling : pc' = .signalling → sh'.producersRemaining = 0

lemma ProducerMove.counted (h : ProducerMove env ranges sh pc pc' sh')
    (hpc : pc.smooth = true) (hactive : pc.active = true) (hpos : sh.producersRemaining ≠ 0) :
    Counted sh pc' sh' := by
  cases h
  case fail | shut | shutHolding | release => cases hpc
  case signal => cases hactive
  case exhausted | claim =>
    exact ⟨rfl, rfl, Nat.le_succ _, fun h => nomatch h⟩
  case acquire hpool => exact ⟨rfl, hpool.productionComplete, le_rfl, fun h => nomatch h⟩
  case ready hshape _ => exact ⟨rfl, hshape.productionComplete, le_rfl, fun h => nomatch h⟩
  case exit hmore =>
    refine ⟨?_, rfl, le_rfl, fun h => nomatch h⟩
    show sh.producersRemaining = sh.producersRemaining - 1 + 1
    omega
  case last hlast =>
    refine ⟨?_, rfl, le_rfl, fun _ => ?_⟩
    · show sh.producersRemaining = sh.producersRemaining - 1 + 1
      omega
    · show sh.producersRemaining - 1 = 0
      omega
  all_goals exact ⟨rfl, rfl, le_rfl, fun h => nomatch h⟩

lemma ProducerMove.past (h : ProducerMove env ranges sh pc pc' sh') (hpc' : pc'.past = true) :
    pc.past = true ∨ sh.shouldStop = true ∨ ranges.length ≤ sh.rangeIndex := by
  cases h
  case stop hstop => exact .inr (.inl hstop)
  case exhausted hrange => exact .inr (.inr hrange)
  case exit | last | signal => exact .inl rfl
  all_goals cases hpc'

lemma Progress.producer_move {i : ℕ} (hs : Progress ranges s) (hsmooth : Smooth s)
    (hpc : s.producers[i]? = some pc) (h : ProducerMove env ranges s.shared pc pc' sh') :
    Progress ranges { s with shared := sh', producers := s.producers.set i pc' } := by
  have hmem := mem_of_getElem? hpc
  have hi := (List.getElem?_eq_some_iff.mp hpc).1
  have hrest : s.producers.countP Producer.active =
      (if pc.active = true then 1 else 0) + (s.producers.eraseIdx i).countP Producer.active := by
    have hperm := getElem_cons_eraseIdx_perm hi
    rw [(List.getElem?_eq_some_iff.mp hpc).2] at hperm
    rw [← hperm.countP_eq, countP_cons, add_comm]
  have hset : (s.producers.set i pc').countP Producer.active =
      (if pc'.active = true then 1 else 0) + (s.producers.eraseIdx i).countP Producer.active := by
    rw [(set_perm_cons_eraseIdx hi pc').countP_eq, countP_cons, add_comm]
  have hpast : pc'.past = true → ranges.length ≤ s.shared.rangeIndex := fun hpc' => by
    rcases h.past hpc' with hold | hstop | hrange
    · exact hs.exhausted pc hmem hold
    · exact absurd hstop (eq_false_iff.mp hsmooth.shouldStop)
    · exact hrange
  by_cases hactive : pc.active = true
  · have hpos := hs.remaining_ne_zero hmem hactive
    have hcounted := h.counted (hsmooth.producer pc hmem) hactive hpos
    have hremaining := hs.remaining
    have hcount := hcounted.remaining
    refine ⟨?_, forall_mem_set (fun q hq hq' => ?_) fun hq' => ?_, fun hmem' => ?_, fun hc => ?_,
      fun he => absurd (hs.ended he).2 hpos⟩
    · dsimp only
      rw [hset]
      rw [hrest, if_pos hactive] at hremaining
      split_ifs at hcount ⊢ <;> omega
    · exact (hs.exhausted q hq hq').trans hcounted.rangeIndex
    · exact (hpast hq').trans hcounted.rangeIndex
    · rcases mem_or_eq_of_mem_set hmem' with hold | hnew
      · exact absurd (hs.signalling hold) hpos
      · exact hcounted.signalling hnew.symm
    · exact absurd (hs.complete (hcounted.complete ▸ hc)) hpos
  · -- only the last producer has a step left
    cases h
    case signal =>
      exact ⟨hs.remaining.trans (hrest.trans hset.symm), forall_mem_set hs.exhausted hpast,
        fun _ => hs.signalling hmem, fun _ => hs.signalling hmem, hs.ended⟩
    all_goals exact absurd rfl hactive

lemma Progress.main_move {m' : Main} (hs : Progress ranges s) (hsmooth : Smooth s)
    (h : MainMove env (s.producers.all (· = .done)) s.shared s.main m' sh')
    (hsmooth' : m'.pc.smooth = true) (hok : sh'.StatusOk) :
    Progress ranges { s with shared := sh', main := m' } := by
  obtain ⟨_, producers, m⟩ := s
  obtain ⟨hremaining, hexhausted, hsignalling, hcomplete, hended⟩ := hs
  have hmain := hsmooth.main
  cases h
  case leave hstop => exact absurd hstop (eq_false_iff.mp hsmooth.shouldStop)
  case missing => exact absurd hok.1 (by simp)
  case refuse | settleError => exact absurd hok.1 (orElse_ne_ok _ _)
  case quit | drop | wroteError | giveUp | stop | drainEnd | drainTake | drainReturn => cases hmain
  case drain => cases hsmooth'
  case ended hempty hc =>
    exact ⟨hremaining, hexhausted, hsignalling, hcomplete, fun _ => ⟨hempty, hcomplete hc⟩⟩
  case take hshape _ =>
    exact ⟨hremaining, hexhausted, hsignalling, hshape.productionComplete ▸ hcomplete,
      fun he => nomatch he⟩
  case wrote hpool =>
    exact ⟨hremaining, hexhausted, hsignalling, hpool.productionComplete ▸ hcomplete,
      fun he => nomatch he⟩
  case settle inflight d pc i flush hpc index hindex slot hslot hstage =>
    refine ⟨hremaining, hexhausted, hsignalling, hcomplete, fun he => hended ?_⟩
    rcases hpc with ⟨rfl, rfl⟩ | ⟨rfl, rfl⟩
    · cases he
    · rfl
  case reclaim inflight d i flush index hindex slot hslot pool hpool =>
    refine ⟨hremaining, hexhausted, hsignalling, hpool.productionComplete ▸ hcomplete, fun he => ?_⟩
    have hpc : MainPc.ended (.reclaiming i flush) = true := by
      cases flush
      · cases he
      · rfl
    exact ⟨hpool.readyQueue.trans (hended hpc).1, (hended hpc).2⟩
  case flushed | finish | close =>
    exact ⟨hremaining, hexhausted, hsignalling, hcomplete, fun _ => hended rfl⟩
  all_goals
    exact ⟨hremaining, hexhausted, hsignalling, hcomplete, fun he => nomatch he⟩

lemma Progress.move (hs : Progress ranges s) (hsmooth : Smooth s) (h : Move env ranges s t s')
    (hsmooth' : Smooth s') (hclean : Clean s') : Progress ranges s' := by
  cases h with
  | producer i pc pc' sh' hpc hmove => exact hs.producer_move hsmooth hpc hmove
  | main m' sh' hmove => exact hs.main_move hsmooth hmove hsmooth'.main hclean.status
  | callback index slot slot' sh' hslot hmove =>
    obtain ⟨hremaining, hexhausted, hsignalling, hcomplete, hended⟩ := hs
    cases hmove
    case give status hstage pool hpool =>
      refine ⟨hremaining, hexhausted, hsignalling, hpool.productionComplete ▸ hcomplete,
        fun he => ⟨hpool.readyQueue.trans (hended he).1, (hended he).2⟩⟩
    case shut status hstage =>
      have hfailed := hsmooth.copy slot (mem_of_getElem? hslot)
      simp [AsyncSlot.smooth, hstage, Except.toBool] at hfailed
    all_goals exact ⟨hremaining, hexhausted, hsignalling, hcomplete, hended⟩

end TensorCast.Pump
