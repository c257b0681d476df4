import TensorCast.Lib.Transition
import TensorCast.Lib.Values

/-!
# Idempotent operations of the control plane

Requests with one `client_request_id`, and the row of `control_plane_idempotency` that they share.
The first request reserves the row and runs its operation; the others look the row up and wait until
it is completed.  The cleanup that every reservation may start goes by the age of a row.  If it takes
a row that is in use, the operation is started again: the reservation is open, and
`begin_idempotent_operation` takes a row that has gone for a permission to execute.
-/

namespace TensorCast.GlobalStore.Idempotency

open Function Lib

/-! ## The repository -/

/-- `IDEMPOTENCY_PENDING_STATUS`, or what `encode_stored_grpc_status` makes of an answer. -/
inductive ResponseStatus
  | pending
  | stored (text : String)
deriving DecidableEq

structure IdempotencyRecord where
  operationKind : String
  requestFingerprint : String
  responseStatus : ResponseStatus := .pending
  responseProto : List UInt8 := []
  createdAt : ℤ
deriving DecidableEq

/-- What an operation has answered. -/
structure Outcome where
  responseStatus : String
  responseProto : List UInt8
deriving DecidableEq

/-- The update that `finalize_operation` makes. -/
def IdempotencyRecord.complete (record : IdempotencyRecord) (outcome : Outcome) :
    IdempotencyRecord :=
  { record with
    responseStatus := .stored outcome.responseStatus
    responseProto := outcome.responseProto }

/-- In microseconds: the monotonic clock before and under the lock of the cleanup, the time of day,
and that of the database. -/
structure Clock where
  unlocked : ℤ
  locked : ℤ
  now : ℤ
  currentTimestamp : ℤ

def idempotencyRetention : ℤ := 24 * 60 * 60 * 1000 * 1000

def cleanupInterval : ℤ := 60 * 1000 * 1000

/-! ## Calls -/

structure BeginIdempotentOperationResult where
  shouldExecute : Bool := false
  payloadMismatch : Bool := false
  timedOutWaitingForReplay : Bool := false
  requestFingerprint : String
  replayRecord : Option IdempotencyRecord := none
deriving DecidableEq

/-- A call that failed to reserve the row looks it up, and may wait for it.  One that executes is
finalized in the end, with what it stored unless that failed. -/
inductive Phase
  | looking
  | waiting
  | returned (result : BeginIdempotentOperationResult)
  | finalized (outcome : Option Outcome)
deriving DecidableEq

structure Call where
  operationKind : String
  requestFingerprint : String
  phase : Phase
deriving DecidableEq

namespace Call

variable (call : Call)

def execute : Phase :=
  .returned { shouldExecute := true, requestFingerprint := call.requestFingerprint }

def mismatch : Phase :=
  .returned { payloadMismatch := true, requestFingerprint := call.requestFingerprint }

def timedOut : Phase :=
  .returned { timedOutWaitingForReplay := true, requestFingerprint := call.requestFingerprint }

def replay (record : IdempotencyRecord) : Phase :=
  .returned { requestFingerprint := call.requestFingerprint, replayRecord := some record }

/-- `begin_idempotent_operation` after a reservation that failed. -/
def lookUp : Option IdempotencyRecord → Phase
  | none => call.execute
  | some record =>
    if record.operationKind ≠ call.operationKind then call.mismatch
    else if record.requestFingerprint ≠ call.requestFingerprint then call.mismatch
    else if record.responseStatus = .pending then .waiting
    else call.replay record

/-- One round of `wait_for_completed_record`, before or after its deadline. -/
def poll (late : Bool) (record : Option IdempotencyRecord) : Phase :=
  if late then call.timedOut
  else match record with
    | none => .waiting
    | some record => if record.responseStatus = .pending then .waiting else call.replay record

/-- The call runs its operation. -/
def running : Bool :=
  match call.phase with
  | .returned result => result.shouldExecute
  | _ => false

/-- The call has not returned yet, or runs its operation. -/
def UsesRecord : Prop :=
  call.phase = .looking ∨ call.phase = .waiting ∨ call.running = true

def Matches (record : IdempotencyRecord) : Prop :=
  record.operationKind = call.operationKind ∧ record.requestFingerprint = call.requestFingerprint

end Call

structure Service where
  record : Option IdempotencyRecord := none
  lastCleanupAt : ℤ := 0
  calls : ℕ → Option Call := fun _ => none

namespace Service

def maybeCleanup (s : Service) (clock : Clock) : Service :=
  if clock.unlocked - s.lastCleanupAt < cleanupInterval then s
  else if clock.locked - s.lastCleanupAt < cleanupInterval then s
  else { s with
    lastCleanupAt := clock.locked
    record := s.record.filter fun record => ¬ record.createdAt < clock.now - idempotencyRetention }

def setCall (s : Service) (i : ℕ) (call : Call) : Service :=
  { s with calls := update s.calls i (some call) }

def reserveOperation (s : Service) (i : ℕ) (operationKind requestFingerprint : String)
    (clock : Clock) : Service :=
  let s := s.maybeCleanup clock
  let call : Call := ⟨operationKind, requestFingerprint, .looking⟩
  match s.record with
  | some _ => s.setCall i call
  | none =>
    { s with
      record := some { operationKind, requestFingerprint, createdAt := clock.currentTimestamp }
    }.setCall i { call with phase := call.execute }

/-- A call goes on from one of the phases. -/
def move (s : Service) (i : ℕ) (start : Call → Bool) (next : Call → Phase) : Option Service :=
  (s.calls i).bind fun call =>
    if start call then some (s.setCall i { call with phase := next call }) else none

end Service

inductive Event
  | reserve (i : ℕ) (operationKind requestFingerprint : String) (clock : Clock)
  /-- The reservation of a request with another id. -/
  | other (clock : Clock)
  | lookUp (i : ℕ)
  | poll (i : ℕ) (late : Bool)
  | finalize (i : ℕ) (outcome : Option Outcome)

def step : Event → Service → Option Service
  | .reserve i kind fingerprint clock, s =>
    if (s.calls i).isSome then none else some (s.reserveOperation i kind fingerprint clock)
  | .other clock, s => some (s.maybeCleanup clock)
  | .lookUp i, s => s.move i (·.phase = .looking) (·.lookUp s.record)
  | .poll i late, s => s.move i (·.phase = .waiting) (·.poll late s.record)
  | .finalize i outcome, s =>
    { s with record := s.record.map fun record => outcome.elim record record.complete }.move i
      (·.running) fun _ => .finalized outcome

/-- A cleanup does not take the record while a call uses it. -/
def SparesRecord (s : Service) : Event → Prop
  | .reserve _ _ _ clock | .other clock => (s.maybeCleanup clock).record = s.record ∨
    ∀ i call, s.calls i = some call → ¬ call.UsesRecord
  | _ => True

/-! ## What a step keeps -/

/-- The record has the stored outcome of a call for its operation. -/
def Finished (calls : ℕ → Option Call) (record : IdempotencyRecord) : Prop :=
  ∃ i call outcome, calls i = some call ∧ call.Matches record ∧
    call.phase = .finalized (some outcome) ∧ record = record.complete outcome

/-- A call that was told not to execute, and neither that its payload differs nor that it waited too
long, has the outcome of a call for its operation. -/
def Call.Replays (call : Call) (calls : ℕ → Option Call) : Prop :=
  ∀ result, call.phase = .returned result → result.shouldExecute = false →
    result.payloadMismatch = false → result.timedOutWaitingForReplay = false →
    ∃ record, result.replayRecord = some record ∧ call.Matches record ∧ Finished calls record

def Call.Holds (call : Call) (record : Option IdempotencyRecord) : Prop :=
  call.UsesRecord → ∃ r, record = some r ∧ (call.phase ≠ .looking → call.Matches r)

structure Kept (s : Service) : Prop where
  once : ∀ i j call call', s.calls i = some call → s.calls j = some call' →
    call.running = true → call'.running = true → i = j
  call : ∀ i call, s.calls i = some call → call.Holds s.record ∧ call.Replays s.calls
  stored : ∀ record, s.record = some record → record.responseStatus ≠ .pending →
    Finished s.calls record

variable {s s' : Service} {call : Call} {record : IdempotencyRecord} {i : ℕ}

lemma Finished.update {calls : ℕ → Option Call} (h : Finished calls record)
    (hi : ∀ call, calls i = some call → call.UsesRecord) (call' : Call) :
    Finished (update calls i (some call')) record := by
  obtain ⟨j, call, outcome, hj, hmatch, hphase, hrecord⟩ := h
  have hne : j ≠ i := by
    rintro rfl
    simpa [Call.UsesRecord, Call.running, hphase] using hi call hj
  exact ⟨j, call, outcome, by rwa [update_of_ne hne], hmatch, hphase, hrecord⟩

lemma calls_maybeCleanup (s : Service) (clock : Clock) :
    (s.maybeCleanup clock).calls = s.calls := by
  unfold Service.maybeCleanup
  split_ifs <;> rfl

lemma move_cases {start : Call → Bool} {next : Call → Phase} (h : s.move i start next = some s') :
    ∃ call, s.calls i = some call ∧ start call = true ∧
      s' = s.setCall i { call with phase := next call } := by
  obtain ⟨call, hi, hnext⟩ := Option.bind_eq_some_iff.mp h
  split_ifs at hnext with hstart
  exact ⟨call, hi, hstart, (Option.some_inj.mp hnext).symm⟩

namespace Kept

lemma cleanup (h : Kept s) {clock : Clock} (hspares : (s.maybeCleanup clock).record = s.record ∨
    ∀ i call, s.calls i = some call → ¬ call.UsesRecord) : Kept (s.maybeCleanup clock) := by
  have hcalls := calls_maybeCleanup s clock
  refine ⟨by rw [hcalls]; exact h.once, ?_, ?_⟩ <;> rw [hcalls]
  · refine fun i call hi => ⟨fun huses => ?_, (h.call i call hi).2⟩
    rcases hspares with hsame | hnone
    · rw [hsame]
      exact (h.call i call hi).1 huses
    · exact absurd huses (hnone i call hi)
  · intro record hr
    unfold Service.maybeCleanup at hr
    split_ifs at hr
    · exact h.stored record hr
    · exact h.stored record hr
    · exact h.stored record (Option.filter_eq_some_iff.mp hr).1

lemma set (h : Kept s) (hi : ∀ call, s.calls i = some call → call.UsesRecord)
    {record : Option IdempotencyRecord}
    (hothers : ∀ j other, s.calls j = some other → other.Holds record)
    (hstored : ∀ r, record = some r → r.responseStatus ≠ .pending →
      s.record = some r ∨ Finished (update s.calls i (some call)) r)
    (hrunning : call.running = true → ∀ j other, s.calls j = some other → other.running = false)
    (hcall : call.Holds record ∧ call.Replays (update s.calls i (some call))) :
    Kept ({ s with record }.setCall i call) where
  once j k other other' hj hk hrun hrun' := by
    rcases update_some_cases hj with ⟨rfl, rfl⟩ | ⟨-, hj₀⟩ <;>
      rcases update_some_cases hk with ⟨rfl, rfl⟩ | ⟨-, hk₀⟩
    · rfl
    · cases hrun'.symm.trans (hrunning hrun _ _ hk₀)
    · cases hrun.symm.trans (hrunning hrun' _ _ hj₀)
    · exact h.once j k other other' hj₀ hk₀ hrun hrun'
  call j other hj := by
    rcases update_some_cases hj with ⟨rfl, rfl⟩ | ⟨-, hj⟩
    · exact hcall
    · refine ⟨hothers j other hj, fun result hphase hexecute hmatch htime => ?_⟩
      obtain ⟨r, hr, hmatches, hdone⟩ := (h.call j other hj).2 result hphase hexecute hmatch htime
      exact ⟨r, hr, hmatches, hdone.update hi call⟩
  stored r hr hdone :=
    (hstored r hr hdone).elim (fun hsame => (h.stored r hsame hdone).update hi call) id

lemma look (h : Kept s) (hi : s.calls i = some call) (huses : call.UsesRecord)
    (hr : s.record = some record) {phase : Phase}
    (hphase : phase = call.mismatch ∨ phase = call.timedOut ∨ call.Matches record ∧
      (phase = .waiting ∨ record.responseStatus ≠ .pending ∧ phase = call.replay record)) :
    Kept (s.setCall i { call with phase }) := by
  have huses' : ∀ other, s.calls i = some other → other.UsesRecord := by
    rw [hi]
    rintro _ ⟨⟩
    exact huses
  refine h.set huses' (fun j other hj => (h.call j other hj).1) (fun r hr _ => .inl hr) ?_ ?_
  · intro hrun
    rcases hphase with rfl | rfl | ⟨-, rfl | ⟨-, rfl⟩⟩ <;> cases hrun
  · rcases hphase with rfl | rfl | ⟨hmatch, rfl | ⟨hdone, rfl⟩⟩
    · refine ⟨by simp [Call.Holds, Call.UsesRecord, Call.running, Call.mismatch], ?_⟩
      rintro _ ⟨⟩ - ⟨⟩
    · refine ⟨by simp [Call.Holds, Call.UsesRecord, Call.running, Call.timedOut], ?_⟩
      rintro _ ⟨⟩ - - ⟨⟩
    · exact ⟨fun _ => ⟨record, hr, fun _ => hmatch⟩, nofun⟩
    · refine ⟨by simp [Call.Holds, Call.UsesRecord, Call.running, Call.replay], ?_⟩
      rintro _ ⟨⟩ - - -
      exact ⟨record, rfl, hmatch, (h.stored record hr hdone).update huses' _⟩

lemma step {event : Event} (h : Kept s) (hspares : SparesRecord s event)
    (hstep : step event s = some s') : Kept s' := by
  cases event with
  | other clock =>
    cases hstep
    exact h.cleanup hspares
  | reserve i kind fingerprint clock =>
    rw [Idempotency.step, ← calls_maybeCleanup s clock] at hstep
    replace h := h.cleanup hspares
    unfold Service.reserveOperation at hstep
    generalize s.maybeCleanup clock = s at h hstep
    split_ifs at hstep with hnew
    cases hstep
    have hfree : ∀ call, s.calls i = some call → call.UsesRecord := by
      intro call hi
      simp [hi] at hnew
    dsimp only
    cases hr : s.record with
    | some record =>
      refine h.set hfree (fun j other hj => (h.call j other hj).1) (fun r hr _ => .inl hr) nofun ?_
      exact ⟨fun _ => ⟨record, hr, fun hphase => absurd rfl hphase⟩, nofun⟩
    | none =>
      -- no call uses the record, for there is none
      have hunused : ∀ j other, s.calls j = some other → ¬ other.UsesRecord := by
        intro j other hj huses
        obtain ⟨r, hr', -⟩ := (h.call j other hj).1 huses
        cases hr.symm.trans hr'
      refine h.set hfree (fun j other hj huses => absurd huses (hunused j other hj)) ?_
        (fun _ j other hj => ?_) ⟨fun _ => ⟨_, rfl, fun _ => ⟨rfl, rfl⟩⟩, by rintro _ ⟨⟩ ⟨⟩⟩
      · rintro r ⟨⟩ hdone
        exact absurd rfl hdone
      · exact Bool.eq_false_iff.mpr fun hrun => hunused j other hj (.inr (.inr hrun))
  | lookUp i =>
    obtain ⟨call, hi, hlooking, rfl⟩ := move_cases hstep
    have huses : call.UsesRecord := .inl (of_decide_eq_true hlooking)
    obtain ⟨record, hr, -⟩ := (h.call i call hi).1 huses
    refine h.look hi huses hr ?_
    rw [hr, Call.lookUp]
    split_ifs with hkind hfingerprint hpending
    · exact .inl rfl
    · exact .inl rfl
    · exact .inr (.inr ⟨⟨not_not.mp hkind, not_not.mp hfingerprint⟩, .inl rfl⟩)
    · exact .inr (.inr ⟨⟨not_not.mp hkind, not_not.mp hfingerprint⟩, .inr ⟨hpending, rfl⟩⟩)
  | poll i late =>
    obtain ⟨call, hi, hwaiting, rfl⟩ := move_cases hstep
    replace hwaiting : call.phase = .waiting := of_decide_eq_true hwaiting
    obtain ⟨record, hr, hmatch⟩ := (h.call i call hi).1 (.inr (.inl hwaiting))
    refine h.look hi (.inr (.inl hwaiting)) hr (.inr ?_)
    rw [hr, Call.poll]
    split_ifs with hlate hpending
    · exact .inl rfl
    · exact .inr ⟨hmatch (by simp [hwaiting]), .inl rfl⟩
    · exact .inr ⟨hmatch (by simp [hwaiting]), .inr ⟨hpending, rfl⟩⟩
  | finalize i outcome =>
    obtain ⟨call, hi, hrunning, rfl⟩ := move_cases hstep
    have huses : call.UsesRecord := .inr (.inr hrunning)
    have hlooking : call.phase ≠ .looking := by
      intro hphase
      simp [Call.running, hphase] at hrunning
    obtain ⟨record, hr, hmatch⟩ := (h.call i call hi).1 huses
    refine h.set ?_ ?_ ?_ nofun ⟨by simp [Call.Holds, Call.UsesRecord, Call.running], nofun⟩
    · rintro other hother
      cases hi.symm.trans hother
      exact huses
    · intro j other hj huses
      obtain ⟨r, hr', hmatch'⟩ := (h.call j other hj).1 huses
      refine ⟨_, by rw [hr']; rfl, fun hphase => ?_⟩
      cases outcome <;> exact hmatch' hphase
    · rw [hr]
      rintro r ⟨⟩ hdone
      cases outcome with
      | none => exact .inl rfl
      | some outcome => exact .inr ⟨i, _, outcome, update_self _ _ _, hmatch hlooking, rfl, rfl⟩

end Kept

/-- While the cleanup spares records in use: at most one call runs its operation at a time, and a call
that is told not to execute, and neither that its payload differs nor that it waited too long, has the
stored outcome of a finished call for its operation. -/
theorem operations_run_one_at_a_time (h : Reaches step SparesRecord {} s) :
    (∀ i j call call', s.calls i = some call → s.calls j = some call' →
      call.running = true → call'.running = true → i = j) ∧
    ∀ i call, s.calls i = some call → call.Replays s.calls := by
  have hkept : Kept s := h.invariant (by constructor <;> simp)
    fun _ _ _ _ hspares hstep hkept => hkept.step hspares hstep
  exact ⟨hkept.once, fun i call hi => (hkept.call i call hi).2⟩

def Clock.at (time : ℤ) : Clock := ⟨time, time, time, time⟩

/-- A request to register a replica. -/
def registration (i : ℕ) (time : ℤ) : Event := .reserve i "register_replica" "f" (.at time)

theorem operations_run_one_at_a_time_replayed :
    ∃ (s : Service) (call : Call), s.calls 1 = some call ∧ call.Replays s.calls ∧
      call.phase = call.replay ⟨"register_replica", "f", .stored "OK", [7], 0⟩ := by
  have hwait : Reaches step SparesRecord {} _ :=
    ((Reaches.snoc (t := registration 0 0) .refl (.inl rfl) rfl).snoc (t := registration 1 1)
      (.inl rfl) rfl).snoc (t := .lookUp 1) trivial rfl
  have hrun := (hwait.snoc (t := Event.finalize 0 (some ⟨"OK", [7]⟩)) trivial rfl).snoc
    (t := Event.poll 1 false) trivial rfl
  exact ⟨_, _, rfl, (operations_run_one_at_a_time hrun).2 1 _ rfl, rfl⟩

/-- A duplicate that waited too long has no outcome, while the first call runs on.  And when the cleanup
takes a record between the reservation that failed and the lookup, two calls run. -/
theorem vanished_record_runs_twice :
    (∃ s, run step (fun _ _ => true)
        [registration 0 0, registration 1 1, .lookUp 1, .poll 1 true] {} = some s ∧
      (s.calls 0).map (·.running) = some true ∧
      (s.calls 1).map (·.phase) =
        some (.returned { timedOutWaitingForReplay := true, requestFingerprint := "f" })) ∧
    ∃ s, run step (fun _ _ => true)
        [registration 0 0, .finalize 0 (some ⟨"OK", []⟩), registration 1 1,
          .other (.at (idempotencyRetention + 1)), .lookUp 1,
          registration 2 (idempotencyRetention + 2)] {} = some s ∧
      (s.calls 1).map (·.running) = some true ∧ (s.calls 2).map (·.running) = some true :=
  ⟨⟨_, rfl, rfl, rfl⟩, _, rfl, rfl, rfl⟩

end TensorCast.GlobalStore.Idempotency
