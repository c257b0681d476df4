import TensorCast.Flow.CreditLedger

/-!
# Credit is granted once, and in order of arrival

As long as nothing comes between the waking of a waiter and its return, the credit that the woken
waiters will be charged is still there for them.
-/

namespace TensorCast.Flow

open Core Lib FlowCreditLedger List

/-! ## Waking -/

lemma wakeLoop_append (available : ℤ) (waiters : List Waiter) :
    (wakeLoop available waiters).1 ++ (wakeLoop available waiters).2 = waiters := by
  induction waiters generalizing available with
  | nil => rfl
  | cons waiter rest ih =>
    rw [wakeLoop]
    split_ifs
    · simp [ih]
    · rfl

lemma wakeLoop_sum {available : ℤ} (h : 0 ≤ available) (waiters : List Waiter) :
    ((wakeLoop available waiters).1.map Waiter.requested).sum ≤ available := by
  induction waiters generalizing available with
  | nil => simpa [wakeLoop] using h
  | cons waiter rest ih =>
    rw [wakeLoop]
    split_ifs with hfits
    · have hrest := ih (show 0 ≤ available - waiter.requested by omega)
      simp only [map_cons, sum_cons]
      omega
    · simpa using h

namespace FlowCreditLedger

/-- The credit that the woken waiters have yet to be charged. -/
def promised (ledger : FlowCreditLedger) : ℤ := (ledger.woken.map Waiter.requested).sum

/-- There is credit for every woken waiter, and the waiters that have returned, are woken or in the
queue are all there ever were, in the order of their arrivals. -/
structure Sound (granted : List ℕ) (ledger : FlowCreditLedger) : Prop where
  promised_le : ledger.outstanding + ledger.promised ≤ ledger.totalCredit
  asked : ∀ waiter ∈ ledger.woken ++ ledger.waiters, 0 < waiter.requested
  arrived : granted ++ (ledger.woken ++ ledger.waiters).map Waiter.arrival =
    List.range ledger.arrivals

variable {granted : List ℕ} {ledger ledger' : FlowCreditLedger} {requestedSegments : ℤ}

lemma Sound.promised_nonneg (h : Sound granted ledger) : 0 ≤ ledger.promised := by
  refine sum_nonneg fun requested hmem => ?_
  obtain ⟨waiter, hwaiter, rfl⟩ := mem_map.mp hmem
  exact (h.asked waiter (mem_append_left _ hwaiter)).le

lemma Sound.outstanding_le (h : Sound granted ledger) :
    ledger.outstanding ≤ ledger.totalCredit := by
  have hpromised := h.promised_nonneg
  have hle := h.promised_le
  omega

lemma Sound.available_nonneg (h : Sound granted ledger) : 0 ≤ ledger.availableCredit := by
  have hle := h.outstanding_le
  unfold availableCredit
  omega

lemma wake_queue (ledger : FlowCreditLedger) :
    ledger.wakeWaitersLocked.woken ++ ledger.wakeWaitersLocked.waiters =
      ledger.woken ++ ledger.waiters := by
  show ledger.woken ++ (wakeLoop ledger.availableCredit ledger.waiters).1 ++
    (wakeLoop ledger.availableCredit ledger.waiters).2 = _
  rw [append_assoc, wakeLoop_append]

section

variable (h : Sound granted ledger) (hidle : ledger.woken = [] ∨ ledger.waiters = [])

include h hidle

/-- The loop goes by the outstanding credit alone, which is right when nobody is woken yet. -/
lemma Sound.wake :
    Sound granted ledger.wakeWaitersLocked where
  promised_le := by
    have hle := h.promised_le
    show ledger.outstanding +
      ((ledger.woken ++ (wakeLoop ledger.availableCredit ledger.waiters).1).map _).sum ≤
        ledger.totalCredit
    rcases hidle with hwoken | hwaiters
    · have hsum := wakeLoop_sum h.available_nonneg ledger.waiters
      rw [hwoken, nil_append]
      unfold availableCredit at hsum ⊢
      omega
    · simpa [hwaiters, wakeLoop, promised] using hle
  asked := by
    rw [wake_queue]
    exact h.asked
  arrived := by
    rw [wake_queue]
    exact h.arrived

lemma Sound.charge {segments : ℤ} (henough :
    ledger.outstanding + segments + ledger.promised ≤ ledger.totalCredit) :
    Sound granted (ledger.charge segments) := by
  have hcharged : Sound granted { ledger with outstanding := ledger.outstanding + segments } :=
    ⟨henough, h.asked, h.arrived⟩
  exact hcharged.wake hidle

end

/-! ## The sections, when nobody is woken -/

lemma checkRequested_ok {u : Unit} (h : ledger.checkRequested requestedSegments = .ok u) :
    0 < requestedSegments := by
  simp only [checkRequested, bind_eq_ok, refuseIf_eq_ok] at h
  omega

lemma acquire_cases {acquired : Acquired} (h : ledger.acquire requestedSegments = .ok acquired) :
    0 < requestedSegments ∧
      ((requestedSegments ≤ ledger.availableCredit ∧
        acquired = .granted (ledger.charge requestedSegments)) ∨
      acquired = .waiting
        { ledger with
          waiters := ledger.waiters ++ [⟨ledger.arrivals, requestedSegments⟩]
          arrivals := ledger.arrivals + 1 }) := by
  simp only [acquire, bind_eq_ok] at h
  obtain ⟨_, hchecked, h⟩ := h
  refine ⟨checkRequested_ok hchecked, ?_⟩
  split_ifs at h with himmediate
  · simp only [Bool.and_eq_true, decide_eq_true_eq] at himmediate
    cases h
    exact .inl ⟨himmediate.2, rfl⟩
  · cases h
    exact .inr rfl

lemma tryAcquire_cases {grant : ℤ} (h : ledger.tryAcquire requestedSegments = .ok (grant, ledger')) :
    0 < grant ∧ grant ≤ ledger.availableCredit ∧ ledger' = ledger.charge grant := by
  simp only [tryAcquire, bind_eq_ok, refuseIf_eq_ok] at h
  obtain ⟨_, hchecked, _, _, h⟩ := h
  have hpos := checkRequested_ok hchecked
  cases h
  refine ⟨?_, min_le_right _ _, rfl⟩
  omega

lemma resume_head {waiter : Waiter} {others : List Waiter} (h : ledger.woken = waiter :: others) :
    ledger.resume waiter.arrival =
      some (waiter.requested, { ledger with woken := others }.charge waiter.requested) := by
  simp [resume, h]

lemma Sound.enqueue (h : Sound granted ledger) (hpos : 0 < requestedSegments) :
    Sound granted
      { ledger with
        waiters := ledger.waiters ++ [⟨ledger.arrivals, requestedSegments⟩]
        arrivals := ledger.arrivals + 1 } where
  promised_le := h.promised_le
  asked := by
    rw [← append_assoc]
    exact forall_mem_append.mpr ⟨h.asked, forall_mem_singleton.mpr hpos⟩
  arrived := by
    rw [range_succ, ← h.arrived]
    simp

lemma Sound.charge_idle (h : Sound granted ledger) (hwoken : ledger.woken = []) {segments : ℤ}
    (havailable : segments ≤ ledger.availableCredit) : Sound granted (ledger.charge segments) := by
  refine h.charge (.inl hwoken) ?_
  unfold availableCredit at havailable
  simp only [promised, hwoken, map_nil, sum_nil]
  omega

/-- The credit that is charged when a woken waiter runs has been set aside for it. -/
lemma Sound.resume_head {waiter : Waiter} {others : List Waiter} (h : Sound granted ledger)
    (hwoken : ledger.woken = waiter :: others) (hidle : others = [] ∨ ledger.waiters = []) :
    Sound (granted ++ [waiter.arrival])
      ({ ledger with woken := others }.charge waiter.requested) := by
  have hle := h.promised_le
  have hpos := h.asked waiter (by simp [hwoken])
  simp only [promised, hwoken, map_cons, sum_cons] at hle
  have hawake : Sound (granted ++ [waiter.arrival]) { ledger with woken := others } := by
    refine ⟨?_, ?_, ?_⟩
    · simp only [promised]
      omega
    · exact (forall_mem_cons.mp (hwoken ▸ h.asked)).2
    · rw [← h.arrived, hwoken]
      simp
  refine hawake.charge hidle ?_
  simp only [promised]
  omega

lemma Sound.release (h : Sound granted ledger) (hwoken : ledger.woken = []) {segments : ℤ}
    (hsegments : segments ≤ ledger.outstanding) :
    Sound granted (ledger.release segments) ∧
      (ledger.release segments).outstanding = ledger.outstanding - max 0 segments := by
  have hle := h.promised_le
  unfold FlowCreditLedger.release
  split_ifs with hnone
  · exact ⟨h, by omega⟩
  · have hreleased : Sound granted
        { ledger with outstanding := max 0 (ledger.outstanding - segments) } := by
      refine ⟨?_, h.asked, h.arrived⟩
      simp only [promised] at hle ⊢
      omega
    refine ⟨hreleased.wake (.inl hwoken), ?_⟩
    show max 0 (ledger.outstanding - segments) = _
    omega

end FlowCreditLedger

/-! ## Runs -/

/-- A ledger of the given credit, with no calls made. -/
def World.start (total : ℤ) (hpos : 0 < total) : World where
  ledger := { totalCredit := total, positive := hpos }

/-- The ledger is sound, and what is outstanding is what the callers hold. -/
structure Kept (total : ℤ) (world : World) : Prop where
  sound : world.ledger.Sound world.granted
  leased : world.ledger.outstanding = world.leases.sum
  nonneg : ∀ segments ∈ world.leases, 0 ≤ segments
  total_eq : world.ledger.totalCredit = total

variable {total segments : ℤ} {world world' : World} {lease : ℕ}

lemma Kept.grant (h : Kept total world) {ledger : FlowCreditLedger} {granted : List ℕ}
    (hsound : (ledger.charge segments).Sound granted) (hnonneg : 0 ≤ segments)
    (houtstanding : ledger.outstanding = world.ledger.outstanding)
    (htotal : ledger.totalCredit = world.ledger.totalCredit) :
    Kept total ⟨ledger.charge segments, world.leases ++ [segments], granted⟩ where
  sound := hsound
  leased := by
    show ledger.outstanding + segments = _
    simp [houtstanding, h.leased]
  nonneg := forall_mem_append.mpr ⟨h.nonneg, forall_mem_singleton.mpr hnonneg⟩
  total_eq := htotal.trans h.total_eq

lemma Kept.leases_modify (h : Kept total world) {left : ℤ} (hlease : world.leases[lease]? = some left)
    (hsegments : segments ≤ left) :
    (world.leases.modify lease (· - segments)).sum = world.leases.sum - segments ∧
      ∀ other ∈ world.leases.modify lease (· - segments), 0 ≤ other := by
  rw [modify_eq_set_getElem?, hlease]
  obtain ⟨hlt, rfl⟩ := List.getElem?_eq_some_iff.mp hlease
  constructor
  · show (world.leases.set lease _).sum = _
    rw [sum_set', dif_pos hlt]
    omega
  · exact forall_mem_set h.nonneg (by omega)

lemma Kept.release (h : Kept total world) (hwoken : world.ledger.woken = [])
    (hhonest : Op.honest world (.release lease segments) = true)
    (hstep : step (.release lease segments) world = some world') : Kept total world' := by
  obtain ⟨left, hlease, hle⟩ : ∃ left, world.leases[lease]? = some left ∧ segments ≤ left := by
    rw [Op.honest, Option.any_eq_true] at hhonest
    simpa only [decide_eq_true_eq] using hhonest
  have hmem := mem_of_getElem? hlease
  have hleft := single_le_sum h.nonneg left hmem
  obtain ⟨hsound, houtstanding⟩ :=
    h.sound.release hwoken (hle.trans (hleft.trans h.leased.ge))
  cases hstep
  obtain ⟨_, hnonneg⟩ := h.leases_modify hlease hle
  have htotal : (world.ledger.release segments).totalCredit = total := by
    unfold release
    split_ifs
    · exact h.total_eq
    · exact h.total_eq
  refine ⟨hsound, ?_, ?_, htotal⟩
  · rw [houtstanding, h.leased]
    show _ = (if segments ≤ 0 then world.leases else _).sum
    split_ifs
    · omega
    · omega
  · split_ifs
    · exact h.nonneg
    · exact hnonneg

/-- One section keeps the invariant, if no woken waiter is overtaken by it. -/
lemma Kept.step (h : Kept total world) {op : Op} (hhonest : op.honest world = true)
    (hundisturbed : op.undisturbed world.ledger = true) (hstep : step op world = some world') :
    Kept total world' := by
  cases op with
  | acquire requestedSegments =>
    have hwoken : world.ledger.woken = [] := by simpa [Op.undisturbed] using hundisturbed
    unfold Flow.step at hstep
    cases hacquire : world.ledger.acquire requestedSegments with
    | error status =>
      obtain rfl := by simpa [hacquire] using hstep
      exact h
    | ok acquired =>
      obtain ⟨hpos, ⟨havailable, rfl⟩ | rfl⟩ := acquire_cases hacquire
      · simp only [hacquire] at hstep
        cases hstep
        exact h.grant (h.sound.charge_idle hwoken havailable) hpos.le rfl rfl
      · simp only [hacquire] at hstep
        cases hstep
        exact ⟨h.sound.enqueue hpos, h.leased, h.nonneg, h.total_eq⟩
  | resume arrival =>
    cases hwoken : world.ledger.woken with
    | nil => simp [Op.undisturbed, hwoken] at hundisturbed
    | cons waiter others =>
      obtain ⟨rfl, hidle⟩ : waiter.arrival = arrival ∧
          (others = [] ∨ world.ledger.waiters = []) := by
        simpa [Op.undisturbed, hwoken] using hundisturbed
      simp only [Flow.step, resume_head hwoken] at hstep
      cases hstep
      have hpos := h.sound.asked waiter (by simp [hwoken])
      exact h.grant (h.sound.resume_head hwoken hidle) hpos.le rfl rfl
  | tryAcquire requestedSegments =>
    have hwoken : world.ledger.woken = [] := by simpa [Op.undisturbed] using hundisturbed
    unfold Flow.step at hstep
    cases htry : world.ledger.tryAcquire requestedSegments with
    | error status =>
      obtain rfl := by simpa [htry] using hstep
      exact h
    | ok answer =>
      obtain ⟨hpos, havailable, hledger⟩ := tryAcquire_cases htry
      simp only [htry] at hstep
      cases hstep
      rw [hledger]
      exact h.grant (h.sound.charge_idle hwoken havailable) hpos.le rfl rfl
  | release lease segments =>
    exact h.release (by simpa [Op.undisturbed] using hundisturbed) hhonest hstep

lemma kept_of_reaches {hpos : 0 < total}
    (h : Reaches step (fun world op => op.honest world = true ∧ op.undisturbed world.ledger = true)
      (World.start total hpos) world) : Kept total world := by
  refine h.invariant ?_ fun world op world' _ hallowed hstep hkept =>
    hkept.step hallowed.1 hallowed.2 hstep
  exact ⟨⟨by simpa [World.start, promised] using hpos.le,
    by simp [World.start], rfl⟩, rfl, by simp [World.start], rfl⟩

/-- If no section comes between the waking of a waiter and its return, the outstanding credit is what
was granted and is not yet released, never exceeds the total, and the waiters are granted their credit
in the order in which they arrived. -/
theorem undisturbed_credit_granted_once (hpos : 0 < total)
    (h : Reaches step (fun world op => op.honest world = true ∧ op.undisturbed world.ledger = true)
      (World.start total hpos) world) :
    world.ledger.outstanding ≤ total ∧ world.ledger.outstanding = world.leases.sum ∧
      world.granted = List.range world.granted.length := by
  have hkept := kept_of_reaches h
  refine ⟨hkept.sound.outstanding_le.trans_eq hkept.total_eq, hkept.leased, ?_⟩
  have hfront : world.granted <+: range world.ledger.arrivals := by
    rw [← hkept.sound.arrived]
    exact prefix_append _ _
  have hlen := hfront.length_le
  rw [length_range] at hlen
  rw [prefix_iff_eq_take, take_range, min_eq_left hlen] at hfront
  exact hfront

/-- A waiter that is woken by a release and runs next. -/
def handOver : List Op := [.acquire 2, .acquire 1, .release 0 2, .resume 0]

theorem undisturbed_credit_granted_once_handOver :
    ∃ world : World, (world.ledger.outstanding ≤ 2 ∧ world.ledger.outstanding = world.leases.sum ∧
        world.granted = List.range world.granted.length) ∧
      world.granted = [0] ∧ world.leases = [0, 1] := by
  have hrun : run step (fun world op => op.honest world && op.undisturbed world.ledger) handOver
      (World.start 2 (by decide)) = some _ := rfl
  refine ⟨_, undisturbed_credit_granted_once _ ((reaches_of_run hrun).mono ?_), rfl, rfl⟩
  intro world op hallowed
  exact Bool.and_eq_true_iff.mp hallowed

/-- The released credit is granted to a `try_acquire` before the waiter that was woken for it has
run: four segments are out, of two. -/
theorem woken_waiter_overtaken :
    ∃ world, run step (fun world op => op.honest world)
        [.acquire 2, .acquire 2, .release 0 2, .tryAcquire 2, .resume 0]
        (World.start 2 (by decide)) = some world ∧
      world.ledger.outstanding = 4 ∧ world.ledger.totalCredit = 2 :=
  ⟨_, rfl, rfl, rfl⟩

end TensorCast.Flow
