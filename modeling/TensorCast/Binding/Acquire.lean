import TensorCast.Binding.Registry

/-!
# Attaching to a binding value

A caller that attaches to a value validates its request in one section and takes the attachment in
another.  Between the two the record may change, and the map may hold another record under the id;
the second section asks less than the first one did.  Both forms, for the current value and for a
staged one, are the same program with other checks.
-/

namespace TensorCast.Binding

open Core Lifecycle Lib Program Option

/-! ## The two forms as one program -/

/-- What the two forms differ in. -/
structure Acquisition where
  bindingId : String
  /-- What the first section asks of the record. -/
  validate : Record → StatusOr Unit
  /-- What the second section asks. -/
  attachable : Record → StatusOr Unit
  now : Time

namespace Acquisition

variable (a : Acquisition)

def attaching (record : ℕ) : Op Reply :=
  Reply.status <$> withRecord record fun r => r.attachIf (a.attachable r) a.now

/-- The request is valid; the record is looked for again. -/
def finding : Op Reply :=
  atomic (fun s => s) fun s =>
    match s.records.lookup a.bindingId with
    | none => .done (.status (.error (.notFound "binding_id not found")))
    | some record => a.attaching record

/-- The record has been found; the request is validated. -/
def validating (record : ℕ) : Op Reply :=
  atomic (fun s => { s with heap := Function.update s.heap record (s.heap record) }) fun s =>
    match a.validate (s.heap record) with
    | .error status => .done (.status (.error status))
    | .ok () => a.finding

/-- The whole acquisition. -/
def starting : Op Reply :=
  atomic (fun s => s) fun s =>
    match s.records.lookup a.bindingId with
    | none => .done (.status (.error (.notFound "binding_id not found")))
    | some record => a.validating record

end Acquisition

/-- The acquisition that a call makes, if its request can be valid at all. -/
def Call.acquisition : Call → Option Acquisition
  | .validateAndAcquireAttachmentRef request now =>
    match checkAcquireRef request with
    | .error _ => none
    | .ok () => some
        { bindingId := request.bindingValueRef.bindingId
          validate := fun r => r.checkAcquire request now
          attachable := fun r => r.checkAttach
          now }
  | .validateAndAcquireGroupStagedAttachmentRef request now =>
    match checkGroupRef request with
    | .error _ => none
    | .ok group => some
        { bindingId := request.bindingValueRef.bindingId
          validate := fun r => r.checkGroup request group now
          attachable := fun r => r.checkOpen
          now }
  | _ => none

/-- The two programs, with their checks as parameters. -/
lemma Acquisition.starting_eq (a : Acquisition) :
    (Reply.status <$> do
      match ← (do
        let some record ← find a.bindingId | return .error (.notFound "binding_id not found")
        withRecord record fun r => (a.validate r, r)) with
      | .error status => return .error status
      | .ok () =>
        let some record ← find a.bindingId | return .error (.notFound "binding_id not found")
        withRecord record fun r => r.attachIf (a.attachable r) a.now) = a.starting := by
  refine congrArg (atomic _) (funext fun s => ?_)
  dsimp only [Program.bind]
  cases s.records.lookup a.bindingId with
  | none => rfl
  | some record =>
    refine congrArg (atomic _) (funext fun s => ?_)
    dsimp only [Program.bind]
    cases a.validate (s.heap record) with
    | error status => rfl
    | ok _ =>
      refine congrArg (atomic _) (funext fun s => ?_)
      dsimp only [Program.bind]
      cases s.records.lookup a.bindingId with
      | none => rfl
      | some record => rfl

variable {c : Call}

lemma Call.program_eq_starting {a : Acquisition} (h : c.acquisition = some a) :
    c.program = a.starting := by
  cases c with
  | validateAndAcquireAttachmentRef request now =>
    cases href : checkAcquireRef request with
    | error status => simp [acquisition, href] at h
    | ok _ =>
      simp only [acquisition, href, some.injEq] at h
      subst h
      rw [← Acquisition.starting_eq, program, Binding.validateAndAcquireAttachmentRef,
        validateAcquireRequest, href]
      rfl
  | validateAndAcquireGroupStagedAttachmentRef request now =>
    cases href : checkGroupRef request with
    | error status => simp [acquisition, href] at h
    | ok group =>
      simp only [acquisition, href, some.injEq] at h
      subst h
      rewrite [← Acquisition.starting_eq, program,
        Binding.validateAndAcquireGroupStagedAttachmentRef, validateGroupStagedAcquireRequest, href]
      rfl
  | _ => simp [acquisition] at h

def Registry.attachAt (s : Registry) (record : ℕ) (now : Time) : Registry :=
  { s with heap := Function.update s.heap record ((s.heap record).attach now) }

/-! ## Stages -/

namespace Acquisition

variable {a : Acquisition} {known : Prop} {s s' : Registry} {p : Op Reply}
  {write : Registry → Registry} {next : Registry → Op Reply}

def Valid (a : Acquisition) (s : Registry) (record : ℕ) : Prop :=
  s.records.lookup a.bindingId = some record ∧ a.validate (s.heap record) = .ok ()

/-- What the caller has seen in its earlier sections still holds only if it is `known`. -/
inductive Stage (a : Acquisition) (known : Prop) (s : Registry) : Op Reply → Prop
  | ended (reply : Reply) : Stage a known s (.done reply)
  | starting : Stage a known s a.starting
  | validating (record : ℕ) (h : known → s.records.lookup a.bindingId = some record) :
    Stage a known s (a.validating record)
  | finding (h : known → ∃ record, a.Valid s record) : Stage a known s a.finding
  | attaching (record : ℕ) (h : known → a.Valid s record) : Stage a known s (a.attaching record)

/-- A section that replaces no record under the id and leaves a valid request valid. -/
def Spares (a : Acquisition) (s s' : Registry) : Prop :=
  s'.records.lookup a.bindingId = s.records.lookup a.bindingId ∧
    ∀ record, a.Valid s record → a.validate (s'.heap record) = .ok ()

lemma Spares.valid (h : a.Spares s s') {record : ℕ} (hv : a.Valid s record) :
    a.Valid s' record := ⟨h.1.trans hv.1, h.2 record hv⟩

lemma Stage.spared (h : a.Stage known s p) (hspares : known → a.Spares s s') :
    a.Stage known s' p := by
  cases h with
  | ended reply => exact .ended reply
  | starting => exact .starting
  | validating record h => exact .validating record fun hk => (hspares hk).1.trans (h hk)
  | finding h =>
    refine .finding fun hk => ?_
    obtain ⟨record, hv⟩ := h hk
    exact ⟨record, (hspares hk).valid hv⟩
  | attaching record h => exact .attaching record fun hk => (hspares hk).valid (h hk)

/-- The attachment is taken, and the call ends well. -/
def Attaches (a : Acquisition) (known : Prop) (s s' : Registry) (p : Op Reply) : Prop :=
  p = .done (.status (.ok ())) ∧ ∃ record,
    s' = s.attachAt record a.now ∧
    a.attachable (s.heap record) = .ok () ∧ (known → a.Valid s record)

/-- No attachment is taken, and the call has not ended well. -/
def KeepsRefs (s s' : Registry) (p : Op Reply) : Prop :=
  p ≠ .done (.status (.ok ())) ∧
    ∀ record, (s'.heap record).activeAttachmentRefs = (s.heap record).activeAttachmentRefs

/-- The caller goes on to the next stage, and only the last section takes an attachment. -/
lemma Stage.step (h : a.Stage known s (.atomic write next)) :
    a.Stage known (write s) (next s) ∧
      (KeepsRefs s (write s) (next s) ∨ a.Attaches known s (write s) (next s)) := by
  generalize hp : Program.atomic write next = p at h
  cases h with
  | ended reply => cases hp
  | starting =>
    obtain ⟨rfl, rfl⟩ := Program.atomic.inj hp
    dsimp only
    cases hlookup : s.records.lookup a.bindingId with
    | none => exact ⟨.ended _, .inl ⟨by simp, fun _ => rfl⟩⟩
    | some record => exact ⟨.validating record fun _ => hlookup, .inl ⟨nofun, fun _ => rfl⟩⟩
  | validating record h =>
    obtain ⟨rfl, rfl⟩ := Program.atomic.inj hp
    dsimp only
    rw [Function.update_eq_self]
    cases hvalid : a.validate (s.heap record) with
    | error status => exact ⟨.ended _, .inl ⟨by simp, fun _ => rfl⟩⟩
    | ok _ => exact ⟨.finding fun hk => ⟨record, h hk, hvalid⟩, .inl ⟨nofun, fun _ => rfl⟩⟩
  | finding h =>
    obtain ⟨rfl, rfl⟩ := Program.atomic.inj hp
    dsimp only
    cases hlookup : s.records.lookup a.bindingId with
    | none => exact ⟨.ended _, .inl ⟨by simp, fun _ => rfl⟩⟩
    | some record =>
      refine ⟨.attaching record fun hk => ?_, .inl ⟨nofun, fun _ => rfl⟩⟩
      obtain ⟨record', hv⟩ := h hk
      cases hlookup.symm.trans hv.1
      exact hv
  | attaching record h =>
    obtain ⟨rfl, rfl⟩ := Program.atomic.inj hp
    refine ⟨.ended _, ?_⟩
    dsimp only
    cases hcheck : a.attachable (s.heap record) with
    | error status =>
      refine .inl ⟨by simp [Record.attachIf, Program.bind], fun record' => ?_⟩
      simp [Record.attachIf]
    | ok _ => exact .inr ⟨rfl, record, rfl, hcheck, h⟩

end Acquisition

/-! ## Runs -/

/-- A section of one caller that disturbs none of the acquisitions of the others. -/
def Undisturbed (pool : Callers) (move : Pool.Move Call) : Prop :=
  ∀ (i j : ℕ) c p a c' write next, move = .resume j → i ≠ j → pool.threads[i]? = some (c, p) →
    c.acquisition = some a → pool.threads[j]? = some (c', .atomic write next) →
    a.Spares pool.shared (write pool.shared)

variable {allowed : Callers → Pool.Move Call → Prop}

lemma stage_of_reaches (known : Prop) {pool : Callers} (hrun : Reaches step allowed start pool)
    (hknown : known → ∀ pool move, allowed pool move → Undisturbed pool move) {i : ℕ} {p : Op Reply}
    {a : Acquisition} (hthread : pool.threads[i]? = some (c, p)) (ha : c.acquisition = some a) :
    a.Stage known pool.shared p := by
  refine Pool.forall_threads (A := fun c p s => ∀ a, c.acquisition = some a → a.Stage known s p)
    hrun ?_ ?_ ?_ i c p hthread a ha
  · intro c s a ha
    rw [Call.program_eq_starting ha]
    exact .starting
  · exact fun c write next s h a ha => (h a ha).step.1
  · intro pool i j c p c' write next hallowed hne hi hj h a ha
    refine (h a ha).spared fun hk => ?_
    exact hknown hk pool (.resume j) hallowed i j c p a c' write next rfl hne hi ha hj

/-! ## What the checks say -/

variable {r : Record}

lemma Record.checkAttach_eq_ok :
    r.checkAttach = .ok () ↔ r.retired = false ∧ r.retainedRef = true ∧ isReadyState r.state := by
  simp [Record.checkAttach, bind_eq_ok]

lemma Record.checkOpen_eq_ok : r.checkOpen = .ok () ↔ r.closed = false ∧ r.retired = false := by
  simp [Record.checkOpen, bind_eq_ok]

variable {request : AcquireBindingValueRequest} {now : Time}

lemma Record.current_of_checkAcquire (h : r.checkAcquire request now = .ok ()) :
    r.currentBindingValueId = request.bindingValueRef.bindingValueId ∧
      r.sealGeneration = request.bindingValueRef.sealGeneration := by
  simp only [Record.checkAcquire, bind_eq_ok, refuseIf_eq_ok, not_not] at h
  obtain ⟨-, -, -, -, -, hvalue, -, hseal, -⟩ := h
  exact ⟨hvalue, hseal⟩

lemma Record.staged_of_checkGroup {group : GroupRealizationAcquireRef}
    (h : r.checkGroup request group now = .ok ()) :
    ∃ staged, r.stagedValuesById.lookup request.bindingValueRef.bindingValueId = some staged ∧
      staged.expectedPreviousSealGeneration = request.bindingValueRef.sealGeneration := by
  simp only [Record.checkGroup, bind_eq_ok] at h
  obtain ⟨-, -, -, -, h⟩ := h
  split at h
  · rename_i staged hstaged
    simp only [bind_eq_ok, refuseIf_eq_ok, not_not] at h
    obtain ⟨-, -, -, -, -, -, -, -, -, -, -, hseal, -⟩ := h
    exact ⟨staged, hstaged, hseal⟩
  · cases h

/-! ## The two forms -/

def Call.attaching : Call → Option (AcquireBindingValueRequest × Time)
  | .validateAndAcquireAttachmentRef request now => some (request, now)
  | .validateAndAcquireGroupStagedAttachmentRef request now => some (request, now)
  | _ => none

/-- The form for the current value does not ask whether the control of the binding is closed. -/
def Call.Attachable : Call → Record → Prop
  | .validateAndAcquireAttachmentRef _ _, r =>
    r.retired = false ∧ r.retainedRef = true ∧ isReadyState r.state
  | .validateAndAcquireGroupStagedAttachmentRef _ _, r => r.closed = false ∧ r.retired = false
  | _, _ => False

/-- The record has the value as its current one, or staged upon the seal generation. -/
def Call.NamesValue : Call → Record → Prop
  | .validateAndAcquireAttachmentRef request _, r =>
    r.currentBindingValueId = request.bindingValueRef.bindingValueId ∧
      r.sealGeneration = request.bindingValueRef.sealGeneration
  | .validateAndAcquireGroupStagedAttachmentRef request _, r =>
    ∃ staged, r.stagedValuesById.lookup request.bindingValueRef.bindingValueId = some staged ∧
      staged.expectedPreviousSealGeneration = request.bindingValueRef.sealGeneration
  | _, _ => False

/-- A call that attaches has nothing to run, or makes an acquisition that asks for what is said
above. -/
lemma Call.attaching_cases (h : c.attaching = some (request, now)) :
    (∃ reply, c.program = .done reply) ∨
    ∃ a, c.acquisition = some a ∧ a.bindingId = request.bindingValueRef.bindingId ∧ a.now = now ∧
      (∀ r, a.attachable r = .ok () → c.Attachable r) ∧
      ∀ r, a.validate r = .ok () → c.NamesValue r := by
  cases c with
  | validateAndAcquireAttachmentRef request' now' =>
    obtain ⟨rfl, rfl⟩ := Prod.mk.inj (some.inj h)
    cases href : checkAcquireRef request' with
    | error status =>
      refine .inl ⟨.status (.error status), ?_⟩
      rw [program, Binding.validateAndAcquireAttachmentRef, validateAcquireRequest, href]
      rfl
    | ok _ =>
      refine .inr ⟨_, by rw [acquisition, href], rfl, rfl, fun r hr => ?_, fun r hr => ?_⟩
      · exact Record.checkAttach_eq_ok.mp hr
      · exact Record.current_of_checkAcquire hr
  | validateAndAcquireGroupStagedAttachmentRef request' now' =>
    obtain ⟨rfl, rfl⟩ := Prod.mk.inj (some.inj h)
    cases href : checkGroupRef request' with
    | error status =>
      refine .inl ⟨.status (.error status), ?_⟩
      rw [program, Binding.validateAndAcquireGroupStagedAttachmentRef,
        validateGroupStagedAcquireRequest, href]
      rfl
    | ok group =>
      refine .inr ⟨_, by rw [acquisition, href], rfl, rfl, fun r hr => ?_, fun r hr => ?_⟩
      · exact Record.checkOpen_eq_ok.mp hr
      · exact Record.staged_of_checkGroup hr
  | _ => cases h

lemma acquisition_of_section {pool : Callers}
    (hrun : Reaches step allowed start pool) {i : ℕ} {write : Registry → Registry}
    {next : Registry → Op Reply} (hthread : pool.threads[i]? = some (c, .atomic write next)) :
    ¬ ∃ reply, c.program = .done reply := by
  refine Pool.forall_threads (A := fun c p _ => (∃ reply, c.program = .done reply) →
    ∃ reply, p = .done reply) hrun (fun _ _ => id) ?_ ?_ i c _ hthread |>.mt ?_
  · intro c write next s h hdone
    obtain ⟨reply, hreply⟩ := h hdone
    cases hreply
  · exact fun _ _ _ _ _ _ _ _ _ _ _ _ => id
  · rintro ⟨reply, hreply⟩
    cases hreply

/-- A retained binding with a current value. -/
def served (value : String) (generation : UInt64) : Record :=
  { bindingId := "b"
    bindingLayoutId := "l"
    state := .readyLocal
    retainedRef := true
    currentBindingValueId := value
    sealGeneration := generation }

def requestFor (value : String) (generation : UInt64) : AcquireBindingValueRequest :=
  { bindingValueRef := ⟨"b", "l", value, generation⟩
    reservationCapability :=
      { capabilityId := "reservation", bindingValueRef := ⟨"b", "l", value, generation⟩ }
    callerPid := some 7
    groupRealizationAcquire := some { transactionId := "t", partId := "p", stagingToken := "k" } }

def stagedValue : StagedBindingValue :=
  { transactionId := "t"
    versionSetId := "set"
    partId := "p"
    bindingValueId := "v2"
    stagingToken := "k"
    stagingEpoch := 1
    expectedPreviousSealGeneration := 1 }

def callTime : Time := ((0 : ℤ) : WithTop ℤ)

/-- The record is validated, closed and reclaimed; another one is inserted under the id, and found. -/
def replacedInBetween : List (Pool.Move Call) :=
  [.call (.insert (some (served "v1" 1))), .resume 0,
    .call (.validateAndAcquireAttachmentRef (requestFor "v1" 1) callTime), .resume 1, .resume 1,
    .call (.closeControl "b"), .resume 2, .resume 2, .resume 2, .resume 2,
    .call (.insert (some (served "v2" 2))), .resume 3,
    .resume 1]

/-- The control of a binding is closed, which the daemon retains; then it is validated and found. -/
def closedBefore : List (Pool.Move Call) :=
  [.call (.insert (some { served "v1" 1 with controlLifetime := .daemonRetained })), .resume 0,
    .call (.closeControl "b"), .resume 1, .resume 1, .resume 1,
    .call (.validateAndAcquireAttachmentRef (requestFor "v1" 1) callTime), .resume 2, .resume 2,
    .resume 2]

/-- A value is staged, validated and found. -/
def stagedBefore : List (Pool.Move Call) :=
  [.call (.insert (some { served "v1" 1 with ownerPid := 7 })), .resume 0,
    .call (.insertStagedValue "b" stagedValue callTime), .resume 1, .resume 1,
    .call (.validateAndAcquireGroupStagedAttachmentRef (requestFor "v2" 1) callTime), .resume 2,
    .resume 2, .resume 2]

def AttachesTo (pool : Callers) (i : ℕ) (c : Call) (record : Record) : Prop :=
  ∃ write next address, pool.threads[i]? = some (c, .atomic write next) ∧
    next pool.shared = .done (.status (.ok ())) ∧
    write pool.shared = pool.shared.attachAt address callTime ∧ pool.shared.heap address = record

lemma undisturbed_call (pool : Callers) (c : Call) : Undisturbed pool (.call c) := by
  intro i j c' p a c'' write next hmove
  cases hmove

lemma undisturbed_second {s : Registry} {c c' : Call} {p p' : Op Reply} (h : c.acquisition = none) :
    Undisturbed { shared := s, threads := [(c, p), (c', p')] } (.resume 1) := by
  rintro i j c₁ p₁ a c₂ write next hmove hne hi ha -
  obtain rfl := Pool.Move.resume.inj hmove
  match i, hne, hi with
  | 0, _, hi =>
    cases hi
    rw [h] at ha
    cases ha
  | i + 2, _, hi => cases hi

end TensorCast.Binding
