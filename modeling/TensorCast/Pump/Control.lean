import TensorCast.Pump.Moves

/-!
# Failures and the order of the shutdown

In every run of the staged pump no failure that is recorded is forgotten, each one makes the threads
stop, and one that is not recorded yet is on its way to be.  When the calling thread is behind the
wait for the producers, every producer is at its end and no copy is in flight.
-/

namespace TensorCast.Pump

open Core Lib Memory Sink List

variable {env : Env} {ranges : List Range} {sh sh' : Shared}

/-! ## Recorded failures -/

/-- No failure is recorded. -/
def Shared.StatusOk (sh : Shared) : Prop :=
  sh.consumerStatus = .ok () ∧ sh.producerStatus = .ok ()

lemma orElse_ne_ok (current : StatusOr Unit) (status : Status) :
    orElse current status ≠ .ok () := by
  rcases current with first | ⟨⟩ <;> simp [orElse]

lemma statusOk_of_finalStatus (h : finalStatus env sh = .ok ()) : sh.StatusOk := by
  unfold finalStatus at h
  rcases hconsumer : sh.consumerStatus with status | ⟨⟩
  · simp [hconsumer] at h
  · rcases hproducer : sh.producerStatus with status | ⟨⟩
    · simp [hconsumer, hproducer] at h
    · exact ⟨hconsumer, hproducer⟩

/-- What no step undoes: a failure that is recorded, and the order to stop. -/
structure Worse (sh' sh : Shared) : Prop where
  status : sh'.StatusOk → sh.StatusOk
  shouldStop : sh.shouldStop = true → sh'.shouldStop = true

lemma ProducerMove.worse {pc pc' : Producer} (h : ProducerMove env ranges sh pc pc' sh') :
    Worse sh' sh := by
  cases h
  case fail => exact ⟨fun hok => absurd hok.2 (orElse_ne_ok _ _), fun _ => rfl⟩
  all_goals exact ⟨fun hok => hok, fun hstop => hstop⟩

lemma MainMove.worse {done : Bool} {m m' : Main} (h : MainMove env done sh m m' sh') :
    Worse sh' sh := by
  cases h
  case missing => exact ⟨fun hok => absurd hok.1 (by simp), fun _ => rfl⟩
  case refuse | wroteError =>
    exact ⟨fun hok => absurd hok.1 (orElse_ne_ok _ _), fun hstop => hstop⟩
  case stop => exact ⟨fun hok => hok, fun _ => rfl⟩
  case settleError => exact ⟨fun hok => absurd hok.1 (orElse_ne_ok _ _), fun _ => rfl⟩
  all_goals exact ⟨fun hok => hok, fun hstop => hstop⟩

lemma CallbackMove.worse {slot slot' : AsyncSlot} (h : CallbackMove env sh slot slot' sh') :
    Worse sh' sh := by
  cases h <;> exact ⟨fun hok => hok, fun hstop => hstop⟩

/-! ## Stages of a copy -/

section Copies

variable {slot slot' : AsyncSlot}

lemma CallbackMove.recorded (h : CallbackMove env sh slot slot' sh') {status : StatusOr Unit}
    (hrecorded : slot.stage.recorded? = some status) : slot'.stage.recorded? = some status := by
  cases h with
  | copyError hstage | copyOk hstage | record _ hstage =>
    rw [hstage] at hrecorded
    cases hrecorded
  | pass _ hstage | claim _ hstage | give _ hstage | finish hstage | shut _ hstage =>
    rw [hstage] at hrecorded
    exact hrecorded

lemma CallbackMove.slots_nil (h : CallbackMove env sh slot slot' sh') (hslots : slot.slots = []) :
    slot'.slots = [] := by
  cases h with
  | copyError hstage | copyOk hstage | record _ hstage | pass _ hstage | finish hstage
  | shut _ hstage =>
    rw [← hslots]
    exact slots_stage (by rw [hstage]; rfl)
  | claim _ hstage hreturned => simp [AsyncSlot.slots, hreturned] at hslots
  | give _ hstage => simp [AsyncSlot.slots, hstage, CopyStage.isClaimed] at hslots

end Copies

/-! ## The invariant -/

/-- The calling thread is about to order the others to stop. -/
def MainPc.stops : MainPc → Bool
  | .refused _ | .stopping => true
  | _ => false

/-- The calling thread is behind the wait for the producers. -/
def MainPc.joined : MainPc → Bool
  | .draining | .drained _ | .closing | .returned _ => true
  | _ => false

/-- The consumer is at its end. -/
def MainPc.flushed (pc : MainPc) : Bool := pc = .waiting ∨ pc.joined = true

/-- What is known of failures and of the shutdown. -/
structure Control (s : State) : Prop where
  stop : ¬ s.shared.StatusOk → s.shared.shouldStop = true ∨ s.main.pc.stops = true
  /-- A copy is in flight, or it has come to its end without a failure, or some failure is
  recorded. -/
  settled : ∀ index copy, s.shared.copies[index]? = some copy →
    index ∈ s.main.inflight ∨ copy.stage.recorded? = some (.ok ()) ∨ ¬ s.shared.StatusOk
  reclaiming : ∀ i flush index copy, s.main.pc = .reclaiming i flush →
    s.main.inflight[i]? = some index → s.shared.copies[index]? = some copy →
      copy.stage.recorded? = some (.ok ()) ∨ ¬ s.shared.StatusOk
  flushed : s.main.pc.flushed = true → s.main.inflight = []
  joined : s.main.pc.joined = true → ∀ pc ∈ s.producers, pc = .done
  verdict : s.main.pc = .returned (.ok ()) → s.shared.StatusOk

lemma control_start (pool : StreamingPinnedBuffer) (memory : ℕ → ℕ → UInt8) (concurrency : ℕ) :
    Control (start pool memory concurrency) where
  stop h := absurd ⟨rfl, rfl⟩ h
  settled _ _ h := nomatch h
  reclaiming _ _ _ _ h := nomatch h
  flushed h := nomatch h
  joined h := nomatch h
  verdict h := nomatch h

section Producer

variable {s : State} {i : ℕ} {pc pc' : Producer}

section

variable (h : ProducerMove env ranges sh pc pc' sh')

include h

lemma ProducerMove.shouldStop (hfailed : ¬ sh'.StatusOk) :
    ¬ sh.StatusOk ∨ sh'.shouldStop = true := by
  cases h
  case fail => exact .inr rfl
  all_goals exact .inl hfailed

lemma ProducerMove.copies : sh'.copies = sh.copies := by
  cases h <;> rfl

lemma ProducerMove.ne_done : pc ≠ .done := by
  rintro rfl
  cases h

end

lemma Control.producer (hs : Control s) (hpc : s.producers[i]? = some pc)
    (h : ProducerMove env ranges s.shared pc pc' sh') :
    Control { s with shared := sh', producers := s.producers.set i pc' } := by
  -- a producer that moves is not at its end, so the calling thread still waits for it
  have hjoined : s.main.pc.joined ≠ true := fun hj =>
    h.ne_done (hs.joined hj pc (mem_of_getElem? hpc))
  refine ⟨fun hfailed => ?_, ?_, ?_, hs.flushed, fun hj => absurd hj hjoined, fun hv => ?_⟩
  · rcases h.shouldStop hfailed with hold | hstop
    · exact (hs.stop hold).imp_left h.worse.shouldStop
    · exact .inl hstop
  · rw [h.copies]
    exact fun index copy hcopy => (hs.settled index copy hcopy).imp_right
      (Or.imp_right (mt h.worse.status))
  · rw [h.copies]
    exact fun j flush index copy hmain hindex hcopy =>
      (hs.reclaiming j flush index copy hmain hindex hcopy).imp_right (mt h.worse.status)
  · refine absurd ?_ hjoined
    rw [show s.main.pc = _ from hv]
    rfl

end Producer

section Callback

variable {s : State} {index : ℕ} {slot slot' : AsyncSlot}

lemma CallbackMove.statusOk (h : CallbackMove env sh slot slot' sh') :
    sh'.StatusOk ↔ sh.StatusOk := by
  cases h <;> exact Iff.rfl

lemma Control.callback (hs : Control s) (hslot : s.shared.copies[index]? = some slot)
    (h : CallbackMove env s.shared slot slot' sh') :
    Control { s with shared := { sh' with copies := s.shared.copies.set index slot' } } := by
  have hstatus : Shared.StatusOk { sh' with copies := s.shared.copies.set index slot' } ↔
      s.shared.StatusOk := h.statusOk
  refine ⟨fun hfailed => ?_, fun j copy hcopy => ?_, fun j flush k copy hmain hindex hcopy => ?_,
    hs.flushed, hs.joined, fun hv => hstatus.mpr (hs.verdict hv)⟩
  · rw [hstatus] at hfailed
    exact (hs.stop hfailed).imp_left h.worse.shouldStop
  · rw [hstatus]
    rcases getElem?_set_cases hcopy with ⟨rfl, rfl⟩ | ⟨-, hold⟩
    · exact (hs.settled j slot hslot).imp_right (Or.imp_left h.recorded)
    · exact hs.settled j copy hold
  · rw [hstatus]
    rcases getElem?_set_cases hcopy with ⟨rfl, rfl⟩ | ⟨-, hold⟩
    · exact (hs.reclaiming j flush k slot hmain hindex hslot).imp_left h.recorded
    · exact hs.reclaiming j flush k copy hmain hindex hold

end Callback

section Main

variable {s : State} {m' : Main}

/-- The calling thread goes on without a failure, in the same part of its way. -/
lemma Control.main_goOn (hs : Control s) (hcopies : sh'.copies = s.shared.copies)
    (hstatus : sh'.StatusOk ↔ s.shared.StatusOk)
    (hstop : s.shared.shouldStop = true → sh'.shouldStop = true)
    (hinflight : m'.inflight = s.main.inflight) (hstops : s.main.pc.stops = false)
    (hreclaiming : ∀ i flush, m'.pc ≠ .reclaiming i flush)
    (hflushed : m'.pc.flushed = true → s.main.pc.flushed = true)
    (hjoined : m'.pc.joined = true → ∀ pc ∈ s.producers, pc = .done)
    (hverdict : m'.pc = .returned (.ok ()) → s.shared.StatusOk) :
    Control { s with shared := sh', main := m' } where
  stop hfailed := (hs.stop (mt hstatus.mpr hfailed)).elim (fun h => .inl (hstop h))
    fun h => nomatch hstops.symm.trans h
  settled index copy hcopy := by
    rw [hstatus, hinflight]
    exact hs.settled index copy (hcopies ▸ hcopy)
  reclaiming i flush _ _ h := absurd h (hreclaiming i flush)
  flushed h := hinflight.trans (hs.flushed (hflushed h))
  joined := hjoined
  verdict h := hstatus.mpr (hverdict h)

lemma control_of_running (hrunning : m'.pc.flushed = false)
    (hstop : ¬ sh'.StatusOk → sh'.shouldStop = true ∨ m'.pc.stops = true)
    (hsettled : ∀ index copy, sh'.copies[index]? = some copy →
      index ∈ m'.inflight ∨ copy.stage.recorded? = some (.ok ()) ∨ ¬ sh'.StatusOk)
    (hreclaiming : ∀ i flush index copy, m'.pc = .reclaiming i flush →
      m'.inflight[i]? = some index → sh'.copies[index]? = some copy →
        copy.stage.recorded? = some (.ok ()) ∨ ¬ sh'.StatusOk) :
    Control { s with shared := sh', main := m' } := by
  have hjoined : m'.pc.joined ≠ true := fun h => by simp [MainPc.flushed, h] at hrunning
  refine ⟨hstop, hsettled, hreclaiming, fun h => absurd h (Bool.eq_false_iff.mp hrunning),
    fun h => absurd h hjoined, fun hv => absurd ?_ hjoined⟩
  rw [show m'.pc = _ from hv]
  rfl

lemma control_of_failed (hfailed : ¬ sh'.StatusOk)
    (hstop : sh'.shouldStop = true ∨ m'.pc.stops = true) (hrunning : m'.pc.flushed = false) :
    Control { s with shared := sh', main := m' } :=
  control_of_running hrunning (fun _ => hstop) (fun _ _ _ => .inr (.inr hfailed))
    fun _ _ _ _ _ _ _ => .inr hfailed

lemma copy_of_giveBack {copies : List AsyncSlot} {index j : ℕ} {slot copy : AsyncSlot}
    (hslot : copies[index]? = some slot)
    (hcopy : (copies.set index slot.giveBack)[j]? = some copy) :
    ∃ old, copies[j]? = some old ∧ copy.stage = old.stage := by
  rcases getElem?_set_cases hcopy with ⟨rfl, rfl⟩ | ⟨-, hold⟩
  · exact ⟨slot, hslot, rfl⟩
  · exact ⟨copy, hold, rfl⟩

lemma Control.main (hs : Control s)
    (h : MainMove env (s.producers.all (· = .done)) s.shared s.main m' sh') :
    Control { s with shared := sh', main := m' } := by
  obtain ⟨sh, producers, m⟩ := s
  have hdone (hall : producers.all (· = .done) = true) : ∀ pc ∈ producers, pc = .done := by
    simpa using hall
  change MainMove env (producers.all (· = .done)) sh m m' sh' at h
  cases h
  case missing =>
    exact control_of_failed (fun hok => absurd hok.1 (by simp)) (.inl rfl) rfl
  case refuse | wroteError =>
    exact control_of_failed (fun hok => orElse_ne_ok _ _ hok.1) (.inr rfl) rfl
  case settleError => exact control_of_failed (fun hok => orElse_ne_ok _ _ hok.1) (.inl rfl) rfl
  case submit inflight d chunk destOffset =>
    refine control_of_running rfl (fun hfailed => (hs.stop hfailed).imp_right (nomatch ·))
      (fun index copy hcopy => ?_) (fun _ _ _ _ hpc => nomatch hpc)
    rcases getElem?_concat_cases hcopy with hcopy | ⟨rfl, rfl⟩
    · exact (hs.settled index copy hcopy).imp_left (mem_append_left _)
    · exact .inl mem_concat_self
  case giveUp inflight d index slot hslot pool hpool =>
    refine control_of_running rfl (fun _ => .inr rfl) (fun j copy hcopy => ?_)
      (fun _ _ _ _ hpc => nomatch hpc)
    obtain ⟨old, hold, hstage⟩ := copy_of_giveBack hslot hcopy
    rw [hstage]
    exact hs.settled j old hold
  case stop =>
    exact control_of_running rfl (fun _ => .inl rfl) hs.settled (fun _ _ _ _ hpc => nomatch hpc)
  case settle inflight d pc i flush hpc index hindex slot hslot hok =>
    have hstops : pc.stops ≠ true := by rcases hpc with ⟨rfl, -⟩ | ⟨rfl, -⟩ <;> exact nofun
    refine control_of_running rfl (fun hfailed => (hs.stop hfailed).imp_right (absurd · hstops))
      hs.settled fun j flush' k copy hmain hk hcopy => .inl ?_
    cases hmain
    obtain rfl : index = k := Option.some_inj.mp (hindex.symm.trans hk)
    obtain rfl : slot = copy := Option.some_inj.mp (hslot.symm.trans hcopy)
    exact hok
  case reclaim inflight d i flush index hindex slot hslot pool hpool =>
    refine control_of_running (by cases flush <;> rfl)
      (fun hfailed => (hs.stop hfailed).imp_right (nomatch ·)) (fun j copy hcopy => ?_)
      (fun _ _ _ _ hpc => by cases flush <;> cases hpc)
    obtain ⟨old, hold, hstage⟩ := copy_of_giveBack hslot hcopy
    rw [hstage]
    rcases hs.settled j old hold with hin | hrest
    · -- the copy that leaves the flight has come to its end
      rcases eq_or_mem_eraseIdx hindex hin with rfl | hin
      · exact .inr (hs.reclaiming i flush j old rfl hindex hold)
      · exact .inl hin
    · exact .inr hrest
  case flushed =>
    exact ⟨fun hfailed => (hs.stop hfailed).imp_right (nomatch ·), hs.settled,
      fun _ _ _ _ hpc => (nomatch hpc), fun _ => rfl, fun hj => (nomatch hj),
      fun hv => (nomatch hv)⟩
  case drain inflight d hall hstop | finish inflight d hall hstop =>
    exact hs.main_goOn rfl Iff.rfl id rfl rfl (fun _ _ h => nomatch h) (fun _ => rfl)
      (fun _ => hdone hall) (fun hv => nomatch hv)
  case close =>
    refine hs.main_goOn rfl Iff.rfl id rfl rfl (fun _ _ h => nomatch h) (fun _ => rfl)
      (fun _ => hs.joined rfl) (fun hv => ?_)
    exact statusOk_of_finalStatus (MainPc.returned.inj hv)
  case drainEnd | drainTake | drainReturn =>
    exact hs.main_goOn rfl Iff.rfl id rfl rfl (fun _ _ h => nomatch h) (fun _ => rfl)
      (fun _ => hs.joined rfl) (fun hv => nomatch hv)
  all_goals
    exact hs.main_goOn rfl Iff.rfl id rfl rfl (fun _ _ h => nomatch h) (fun h => nomatch h)
      (fun h => nomatch h) (fun hv => nomatch hv)

end Main

lemma Control.move {s s' : State} {t : Thread} (hs : Control s) (h : Move env ranges s t s') :
    Control s' := by
  cases h with
  | producer i pc pc' sh' hpc hmove => exact hs.producer hpc hmove
  | main m' sh' hmove => exact hs.main hmove
  | callback index slot slot' sh' hslot hmove => exact hs.callback hslot hmove

/-! ## Slots of copies -/

/-- The callback of a copy has set the flag, and has not yet given the slot back. -/
def State.claimedAt (s : State) (index : ℕ) : Bool :=
  match s.shared.copies[index]? with
  | some copy => copy.stage.isClaimed
  | none => false

/-- The consumer does not come to `return_if_needed` between the two steps in which the callback of
the copy sets the flag and gives the slot back. -/
def careful (s : State) : Thread → Bool
  | .main =>
    match s.main.pc with
    | .refused index => !s.claimedAt index
    | .reclaiming i _ => !(s.main.inflight[i]?.any s.claimedAt)
    | _ => true
  | _ => true

/-- A copy is in flight, or refused a moment ago, or it has given its slot back. -/
def GaveBack (s : State) : Prop :=
  ∀ index copy, s.shared.copies[index]? = some copy →
    index ∈ s.main.inflight ∨ s.main.pc = .refused index ∨ copy.slots = []

lemma slots_giveBack {slot : AsyncSlot} (h : slot.stage.isClaimed = false) :
    slot.giveBack.slots = [] := by
  rw [AsyncSlot.slots, show slot.giveBack.stage = slot.stage from rfl, h]
  rfl

section GaveBack

variable {s s' : State} {t : Thread}

lemma GaveBack.main {m' : Main} (hs : GaveBack s) (hcareful : careful s .main = true)
    (h : MainMove env (s.producers.all (· = .done)) s.shared s.main m' sh') :
    GaveBack { s with shared := sh', main := m' } := by
  obtain ⟨sh, producers, m⟩ := s
  change MainMove env (producers.all (· = .done)) sh m m' sh' at h
  cases h
  case submit inflight d chunk destOffset =>
    intro index copy hcopy
    rcases getElem?_concat_cases hcopy with hcopy | ⟨rfl, rfl⟩
    · exact (hs index copy hcopy).imp (mem_append_left _) (Or.imp_left (nomatch ·))
    · exact .inl mem_concat_self
  case refuse inflight d chunk destOffset status stage hstage =>
    intro index copy hcopy
    rcases getElem?_concat_cases hcopy with hcopy | ⟨rfl, rfl⟩
    · exact (hs index copy hcopy).imp_right (Or.imp_left (nomatch ·))
    · exact .inr (.inl rfl)
  case giveUp inflight d index slot hslot pool hpool =>
    have hclaimed : slot.stage.isClaimed = false := by
      simpa [careful, State.claimedAt, hslot] using hcareful
    intro j copy hcopy
    rcases getElem?_set_cases hcopy with ⟨rfl, rfl⟩ | ⟨hne, hold⟩
    · exact .inr (.inr (slots_giveBack hclaimed))
    · refine (hs j copy hold).imp_right (Or.imp_left fun hpc => ?_)
      exact absurd (MainPc.refused.inj hpc).symm hne
  case reclaim inflight d i flush index hindex slot hslot pool hpool =>
    have hclaimed : slot.stage.isClaimed = false := by
      simpa [careful, State.claimedAt, hslot, hindex] using hcareful
    intro j copy hcopy
    rcases getElem?_set_cases hcopy with ⟨rfl, rfl⟩ | ⟨hne, hold⟩
    · exact .inr (.inr (slots_giveBack hclaimed))
    · refine (hs j copy hold).imp (fun hin => ?_) (Or.imp_left (nomatch ·))
      exact (eq_or_mem_eraseIdx hindex hin).resolve_left hne
  case settle inflight d pc i flush hpc _ _ _ _ _ | settleError inflight d pc i flush hpc status =>
    refine fun j copy hcopy => (hs j copy hcopy).imp_right (Or.imp_left fun hrefused => ?_)
    rcases hpc with ⟨rfl, -⟩ | ⟨rfl, -⟩ <;> cases hrefused
  all_goals
    exact fun j copy hcopy => (hs j copy hcopy).imp_right (Or.imp_left (nomatch ·))

/-- **In a run in which the consumer keeps out of the callbacks' way, every copy that is not in
flight has given its slot back.** -/
lemma GaveBack.move (hs : GaveBack s) (hcareful : careful s t = true)
    (h : Move env ranges s t s') : GaveBack s' := by
  cases h with
  | producer i pc pc' sh' hpc hmove =>
    intro j copy hcopy
    exact hs j copy (hmove.copies ▸ hcopy)
  | main m' sh' hmove => exact hs.main hcareful hmove
  | callback index slot slot' sh' hslot hmove =>
    intro j copy hcopy
    rcases getElem?_set_cases hcopy with ⟨rfl, rfl⟩ | ⟨-, hold⟩
    · exact (hs j slot hslot).imp_right (Or.imp_right hmove.slots_nil)
    · exact hs j copy hold

end GaveBack

end TensorCast.Pump
