import TensorCast.Binding.Records
import TensorCast.Lib.Sections

/-!
# The binding registry

`records_` maps binding ids to records that are shared: a caller may still use a record when the map
has let go of it.  So records live in a heap, and the map holds addresses.  The map and every record
have a lock each; an operation is a program whose sections run under one of these locks.
-/

namespace TensorCast.Binding

open Core Lifecycle Lib Program

/-- The heap of records, with the next free address, and `records_`. -/
structure Registry where
  heap : ℕ → Record := fun _ => {}
  next : ℕ := 0
  records : AList (fun _ : String => ℕ) := ∅

/-- A program on the registry. -/
abbrev Op := Program Registry

structure HashOrder where
  order : List (Sigma fun _ : String => ℕ) → List (Sigma fun _ : String => ℕ)
  perm : ∀ entries, (order entries).Perm entries

/-- The order in which the entries stand. -/
def HashOrder.asIs : HashOrder := ⟨id, fun _ => .refl _⟩

/-- `records_.find`, under the lock of the map. -/
def find (bindingId : String) : Op (Option ℕ) := read fun s => s.records.lookup bindingId

/-- A section under the lock of a record. -/
def withRecord {α : Type} (record : ℕ) (f : Record → α × Record) : Op α :=
  atomically fun s =>
    ((f (s.heap record)).1, { s with heap := Function.update s.heap record (f (s.heap record)).2 })

/-! ## Reclaiming -/

def Record.reclaimable (r : Record) : Bool :=
  (r.closed || r.retired) && !r.retainedRef && r.exportRefs ≤ 0 && r.activeAttachmentRefs ≤ 0

def Registry.eraseRecord (s : Registry) (bindingId : String) (record : ℕ) : Registry :=
  if s.records.lookup bindingId = some record then
    { s with records := s.records.erase bindingId }
  else s

def eraseIfReclaimable (bindingId : String) (record : ℕ) : Op Unit := do
  let reclaimable ← withRecord record fun r => (r.reclaimable, r)
  if reclaimable then modify fun s => s.eraseRecord bindingId record

/-! ## Records come, are closed and retire -/

/-- Puts a record into the map under its id. -/
def Registry.emplace (s : Registry) (record : Record) : StatusOr Unit × Registry :=
  if (s.records.lookup record.bindingId).isSome then
    (.error (.alreadyExists "binding_id already exists"), s)
  else
    (.ok (),
      { heap := Function.update s.heap s.next record
        next := s.next + 1
        records := s.records.insert record.bindingId s.next })

def insert (record : Option Record) : Op (StatusOr Unit) :=
  match record with
  | none => return .error (.invalidArgument "binding record is required")
  | some record =>
    if record.bindingId = "" then return .error (.invalidArgument "binding_id is required")
    else atomically fun s => s.emplace record

def Record.close (r : Record) : Record :=
  { r with
    closed := true
    stagedValuesById := ∅
    retainedRef := if r.controlLifetime = .pidBound then false else r.retainedRef }

def closeControl (bindingId : String) : Op Bool := do
  let some record ← find bindingId | return false
  withRecord record fun r => ((), r.close)
  eraseIfReclaimable bindingId record
  return true

def Record.retire (r : Record) (reason : String) : Record :=
  { r with
    retired := true
    retainedRef := false
    retiredReason := reason
    bindingCurrentValuePublicationToken := ""
    activePublishedCurrent := none
    stagedValuesById := ∅ }

def retireRetained (bindingId reason : String) : Op (StatusOr Unit) := do
  let some record ← find bindingId | return .error (.notFound "binding_id not found")
  withRecord record fun r => ((), r.retire reason)
  eraseIfReclaimable bindingId record
  return .ok ()

/-! ## Staged values -/

def StagedBindingValue.complete (value : StagedBindingValue) (r : Record) (now : Time) :
    StagedBindingValue :=
  { value with
    createdAt := if value.createdAt = ⊥ then now else value.createdAt
    daemonId := if value.daemonId = "" then r.daemonId else value.daemonId
    daemonSessionId := if value.daemonSessionId = "" then r.daemonSessionId else value.daemonSessionId
    artifactId := if value.artifactId = "" then value.selectionArtifactId else value.artifactId }

def Record.checkStage (r : Record) (value : StagedBindingValue) : StatusOr Unit := do
  refuseIf r.closed (.failedPrecondition "binding is closed")
  refuseIf r.retired (.failedPrecondition "binding is retired")
  refuseIf (r.currentBindingValueId = value.bindingValueId)
    (.failedPrecondition "staged binding value must not be current")
  refuseIf (value.expectedPreviousSealGeneration ≠ 0 ∧
      value.expectedPreviousSealGeneration ≠ r.sealGeneration)
    (.failedPrecondition "expected previous seal generation mismatch")
  refuseIf (r.stagedValuesById.lookup value.bindingValueId).isSome
    (.alreadyExists "staged binding value already exists")

def Record.stage (r : Record) (value : StagedBindingValue) (now : Time) : StatusOr Unit × Record :=
  match r.checkStage value with
  | .error status => (.error status, r)
  | .ok () =>
    (.ok (), { r with
      stagedValuesById := r.stagedValuesById.insert value.bindingValueId (value.complete r now) })

def insertStagedValue (bindingId : String) (value : StagedBindingValue) (now : Time) :
    Op (StatusOr Unit) :=
  match validateStagedBindingValue bindingId value now with
  | .error status => return .error status
  | .ok () => do
    let some record ← find bindingId | return .error (.notFound "binding_id not found")
    withRecord record fun r => r.stage value now

def Record.unstage (r : Record) (bindingValueId : String) : StatusOr Unit × Record :=
  if 0 < r.activeAttachmentRefs then
    (.error (.failedPrecondition "binding has active attachment refs"), r)
  else if (r.stagedValuesById.lookup bindingValueId).isNone then
    (.error (.notFound "staged binding value not found"), r)
  else (.ok (), { r with stagedValuesById := r.stagedValuesById.erase bindingValueId })

def removeStagedValue (bindingId bindingValueId : String) : Op (StatusOr Unit) := do
  let some record ← find bindingId | return .error (.notFound "binding_id not found")
  withRecord record fun r => r.unstage bindingValueId

/-- Removes staged values until `maxToRemove` have gone, in all calls together; zero is no limit. -/
def removeWhere (doomed : StagedBindingValue → Bool) (maxToRemove : ℕ) :
    List (Sigma fun _ : String => StagedBindingValue) → ℕ →
      AList (fun _ : String => StagedBindingValue) →
      (ℕ × Bool) × AList (fun _ : String => StagedBindingValue)
  | [], removed, staged => ((removed, false), staged)
  | ⟨id, value⟩ :: rest, removed, staged =>
    if doomed value then
      if maxToRemove ≠ 0 ∧ maxToRemove ≤ removed + 1 then ((removed + 1, true), staged.erase id)
      else removeWhere doomed maxToRemove rest (removed + 1) (staged.erase id)
    else removeWhere doomed maxToRemove rest removed staged

def Record.removeStaged (r : Record) (doomed : StagedBindingValue → Bool)
    (maxToRemove removed : ℕ) : (ℕ × Bool) × Record :=
  if 0 < r.activeAttachmentRefs then ((removed, false), r)
  else
    let (result, staged) :=
      removeWhere doomed maxToRemove r.stagedValuesById.entries removed r.stagedValuesById
    (result, { r with stagedValuesById := staged })

/-- The entries of `records_`, in the order of an iteration. -/
def snapshot (order : HashOrder) : Op (List (Sigma fun _ : String => ℕ)) :=
  read fun s => order.order s.records.entries

/-- The common body of the two functions that remove staged values of all records. -/
def removeStagedValues (order : HashOrder) (doomed : StagedBindingValue → Bool)
    (maxToRemove : ℕ) : Op ℕ := do
  let entries ← snapshot order
  let mut removed := 0
  for entry in entries do
    let (removed', stop) ← withRecord entry.2 fun r => r.removeStaged doomed maxToRemove removed
    removed := removed'
    if stop then return removed
  return removed

def removeStagedValuesForTransaction (order : HashOrder) (transactionId : String)
    (maxToRemove : ℕ) : Op ℕ :=
  removeStagedValues order (fun value => value.transactionId = transactionId) maxToRemove

def sweepStagedValues (order : HashOrder) (now : Time) (maxToRemove : ℕ) : Op ℕ :=
  removeStagedValues order (fun value => finiteDeadlineDue value.expiresAt now) maxToRemove

def clearStagedValues (order : HashOrder) : Op ℕ := do
  let entries ← snapshot order
  let mut removed := 0
  for entry in entries do
    let size ← withRecord entry.2 fun r =>
      (r.stagedValuesById.entries.length, { r with stagedValuesById := ∅ })
    removed := removed + size
  return removed

/-! ## Attachments -/

def Record.attach (r : Record) (now : Time) : Record :=
  { r with
    firstAcquiredAt :=
      if r.activeAttachmentRefs = 0 ∧ r.firstAcquiredAt = ⊥ then now else r.firstAcquiredAt
    lastAcquiredAt := now
    idleDeadline := ⊤
    activeAttachmentRefs := r.activeAttachmentRefs + 1 }

/-- Whether a record can be attached to; `closed` is not asked. -/
def Record.checkAttach (r : Record) : StatusOr Unit := do
  refuseIf r.retired (.failedPrecondition "binding is retired")
  refuseIf (!r.retainedRef) (.failedPrecondition "binding is not retained")
  refuseIf (!isReadyState r.state) (.failedPrecondition "binding is not ready")

def Record.attachIf (check : StatusOr Unit) (r : Record) (now : Time) : StatusOr Unit × Record :=
  match check with
  | .error status => (.error status, r)
  | .ok () => (.ok (), r.attach now)

def acquireAttachmentRef (bindingId : String) (now : Time) : Op (StatusOr Unit) := do
  let some record ← find bindingId | return .error (.notFound "binding_id not found")
  withRecord record fun r => r.attachIf r.checkAttach now

/-- What `validate_acquire_request` asks of the reference before it looks for the record. -/
def checkAcquireRef (request : AcquireBindingValueRequest) : StatusOr Unit := do
  let ref := request.bindingValueRef
  refuseIf (ref.bindingId = "" ∧ request.localServingRef ≠ "")
    (.invalidArgument "local_serving_ref is diagnostic only; binding_value_ref is required")
  validateNonempty ref.bindingId "binding_value_ref.binding_id"
  validateNonempty ref.bindingLayoutId "binding_value_ref.binding_layout_id"
  validateNonempty ref.bindingValueId "binding_value_ref.binding_value_id"
  refuseIf (ref.sealGeneration = 0) (.invalidArgument "binding_value_ref.seal_generation is required")

def Record.checkCaller (r : Record) (request : AcquireBindingValueRequest) : StatusOr Unit :=
  match r.allowedCallerPid, request.callerPid with
  | none, _ => .ok ()
  | some _, none => .error (.unauthenticated "caller_pid is required")
  | some allowed, some caller =>
    refuseIf (allowed ≠ caller) (.permissionDenied "caller_pid mismatch")

/-- The last part of both validations: the reservation that the request carries. -/
def Record.checkReservation (r : Record) (request : AcquireBindingValueRequest) (now : Time) :
    StatusOr Unit := do
  let capability := request.reservationCapability
  validateNonempty capability.capabilityId "reservation_capability.capability_id"
  refuseIf (r.reservationCapabilityId ≠ "" ∧ r.reservationCapabilityId ≠ capability.capabilityId)
    (.permissionDenied "reservation capability mismatch")
  refuseIf (capability.bindingValueRef ≠ request.bindingValueRef)
    (.permissionDenied "reservation capability binding value mismatch")
  refuseIf (capability.daemonId ≠ request.expectedDaemonId)
    (.permissionDenied "reservation capability daemon_id mismatch")
  refuseIf (capability.daemonSessionId ≠ request.expectedDaemonSessionId)
    (.permissionDenied "reservation capability daemon_session_id mismatch")
  refuseIf (capability.deviceUuid ≠ request.expectedDeviceUuid)
    (.permissionDenied "reservation capability device_uuid mismatch")
  refuseIf (capability.member ≠ request.expectedMember)
    (.permissionDenied "reservation capability member mismatch")
  refuseIf (∃ ms ∈ capability.expiresAtMs, fromUnixMillis ms ≤ now)
    (.unauthenticated "reservation capability expired")
  refuseIf (finiteDeadlineDue r.reservationExpiresAt now) (.unauthenticated "reservation expired")

def Record.checkAcquire (r : Record) (request : AcquireBindingValueRequest) (now : Time) :
    StatusOr Unit := do
  let ref := request.bindingValueRef
  r.checkAttach
  refuseIf (r.bindingLayoutId ≠ ref.bindingLayoutId)
    (.failedPrecondition "binding_layout_id mismatch")
  refuseIf (r.currentBindingValueId ≠ ref.bindingValueId)
    (.failedPrecondition "binding_value_id mismatch")
  refuseIf (r.sealGeneration ≠ ref.sealGeneration) (.failedPrecondition "seal_generation mismatch")
  refuseIf (request.localServingRef ≠ "" ∧ r.localServingRef ≠ request.localServingRef)
    (.failedPrecondition "local_serving_ref mismatch")
  refuseIf (r.daemonId ≠ request.expectedDaemonId) (.failedPrecondition "daemon_id mismatch")
  refuseIf (r.daemonSessionId ≠ request.expectedDaemonSessionId)
    (.failedPrecondition "daemon_session_id mismatch")
  refuseIf (r.deviceUuid ≠ request.expectedDeviceUuid) (.failedPrecondition "device_uuid mismatch")
  refuseIf (r.servingMember ≠ request.expectedMember) (.failedPrecondition "member mismatch")
  refuseIf (r.targetLayoutHash ≠ request.expectedTargetLayoutHash)
    (.failedPrecondition "target_layout_hash mismatch")
  refuseIf (r.tensorSchemaHash ≠ request.expectedTensorSchemaHash)
    (.failedPrecondition "tensor_schema_hash mismatch")
  refuseIf (r.servingBuildDigest ≠ request.expectedServingBuildDigest)
    (.failedPrecondition "serving_build_digest mismatch")
  r.checkCaller request
  r.checkReservation request now

def validateAcquireRequest (request : AcquireBindingValueRequest) (now : Time) :
    Op (StatusOr Unit) :=
  match checkAcquireRef request with
  | .error status => return .error status
  | .ok () => do
    let some record ← find request.bindingValueRef.bindingId
      | return .error (.notFound "binding_id not found")
    withRecord record fun r => (r.checkAcquire request now, r)

def validateAndAcquireAttachmentRef (request : AcquireBindingValueRequest) (now : Time) :
    Op (StatusOr Unit) := do
  match ← validateAcquireRequest request now with
  | .error status => return .error status
  | .ok () => acquireAttachmentRef request.bindingValueRef.bindingId now

/-! ## Attachments to staged values -/

/-- What `validate_group_staged_acquire_request` asks before it looks for the record. -/
def checkGroupRef (request : AcquireBindingValueRequest) :
    StatusOr GroupRealizationAcquireRef := do
  let some group := request.groupRealizationAcquire
    | .error (.invalidArgument "group_realization_acquire is required")
  let ref := request.bindingValueRef
  validateNonempty group.transactionId "group_realization_acquire.transaction_id"
  validateNonempty group.partId "group_realization_acquire.part_id"
  validateNonempty group.stagingToken "group_realization_acquire.staging_token"
  validateNonempty ref.bindingId "binding_value_ref.binding_id"
  validateNonempty ref.bindingLayoutId "binding_value_ref.binding_layout_id"
  validateNonempty ref.bindingValueId "binding_value_ref.binding_value_id"
  return group

/-- What is asked of a binding without a serving member: the caller owns it. -/
def Record.checkOwnerStaged (r : Record) (staged : StagedBindingValue)
    (request : AcquireBindingValueRequest) : StatusOr Unit := do
  refuseIf request.callerPid.isNone (.unauthenticated "caller_pid is required")
  refuseIf (some r.ownerPid ≠ request.callerPid) (.permissionDenied "caller_pid mismatch")
  refuseIf (request.expectedDaemonId ≠ "" ∧ staged.daemonId ≠ request.expectedDaemonId)
    (.failedPrecondition "daemon_id mismatch")
  refuseIf (request.expectedDaemonSessionId ≠ "" ∧
      staged.daemonSessionId ≠ request.expectedDaemonSessionId)
    (.failedPrecondition "daemon_session_id mismatch")
  refuseIf (r.deviceUuid ≠ request.expectedDeviceUuid) (.failedPrecondition "device_uuid mismatch")
  refuseIf (request.expectedTargetLayoutHash ≠ "" ∧
      staged.targetLayoutHash ≠ request.expectedTargetLayoutHash)
    (.failedPrecondition "target_layout_hash mismatch")

def Record.checkServingStaged (r : Record) (staged : StagedBindingValue)
    (request : AcquireBindingValueRequest) (now : Time) : StatusOr Unit := do
  refuseIf (!r.retainedRef) (.failedPrecondition "binding is not retained")
  refuseIf (request.localServingRef ≠ "" ∧ r.localServingRef ≠ request.localServingRef)
    (.failedPrecondition "local_serving_ref mismatch")
  refuseIf (staged.daemonId ≠ request.expectedDaemonId) (.failedPrecondition "daemon_id mismatch")
  refuseIf (staged.daemonSessionId ≠ request.expectedDaemonSessionId)
    (.failedPrecondition "daemon_session_id mismatch")
  refuseIf (r.deviceUuid ≠ request.expectedDeviceUuid) (.failedPrecondition "device_uuid mismatch")
  refuseIf (r.servingMember ≠ request.expectedMember) (.failedPrecondition "member mismatch")
  refuseIf (staged.targetLayoutHash ≠ request.expectedTargetLayoutHash)
    (.failedPrecondition "target_layout_hash mismatch")
  refuseIf (staged.tensorSchemaHash ≠ request.expectedTensorSchemaHash)
    (.failedPrecondition "tensor_schema_hash mismatch")
  refuseIf (r.servingBuildDigest ≠ request.expectedServingBuildDigest)
    (.failedPrecondition "serving_build_digest mismatch")
  r.checkCaller request
  r.checkReservation request now

def Record.checkOpen (r : Record) : StatusOr Unit := do
  refuseIf r.closed (.failedPrecondition "binding is closed")
  refuseIf r.retired (.failedPrecondition "binding is retired")

def Record.checkGroup (r : Record) (request : AcquireBindingValueRequest)
    (group : GroupRealizationAcquireRef) (now : Time) : StatusOr Unit := do
  let ref := request.bindingValueRef
  r.checkOpen
  refuseIf (r.bindingLayoutId ≠ ref.bindingLayoutId)
    (.failedPrecondition "binding_layout_id mismatch")
  let some staged := r.stagedValuesById.lookup ref.bindingValueId
    | .error (.notFound "staged binding value not found")
  refuseIf (finiteDeadlineDue staged.expiresAt now)
    (.failedPrecondition "staged binding value expired")
  refuseIf (staged.transactionId ≠ group.transactionId)
    (.failedPrecondition "group transaction_id mismatch")
  refuseIf (group.versionSetId ≠ "" ∧ staged.versionSetId ≠ group.versionSetId)
    (.failedPrecondition "group version_set_id mismatch")
  refuseIf (staged.partId ≠ group.partId) (.failedPrecondition "group part_id mismatch")
  refuseIf (staged.stagingToken ≠ group.stagingToken) (.failedPrecondition "staging_token mismatch")
  refuseIf (staged.expectedPreviousSealGeneration ≠ ref.sealGeneration)
    (.failedPrecondition "expected previous seal generation mismatch")
  if r.servingMember.memberId = "" then r.checkOwnerStaged staged request
  else r.checkServingStaged staged request now

def validateGroupStagedAcquireRequest (request : AcquireBindingValueRequest) (now : Time) :
    Op (StatusOr Unit) :=
  match checkGroupRef request with
  | .error status => return .error status
  | .ok group => do
    let some record ← find request.bindingValueRef.bindingId
      | return .error (.notFound "binding_id not found")
    withRecord record fun r => (r.checkGroup request group now, r)

def validateAndAcquireGroupStagedAttachmentRef (request : AcquireBindingValueRequest)
    (now : Time) : Op (StatusOr Unit) := do
  match ← validateGroupStagedAcquireRequest request now with
  | .error status => return .error status
  | .ok () =>
    let some record ← find request.bindingValueRef.bindingId
      | return .error (.notFound "binding_id not found")
    withRecord record fun r => r.attachIf r.checkOpen now

/-! ## Attachments and exports go -/

def Record.keepalive (r : Record) (now : Time) : StatusOr Unit × Record :=
  if r.retired then (.error (.failedPrecondition "binding is retired"), r)
  else if r.activeAttachmentRefs ≤ 0 then
    (.error (.failedPrecondition "binding has no active attachment refs"), r)
  else (.ok (), { r with lastAcquiredAt := now, idleDeadline := ⊤ })

def keepaliveAttachmentRef (bindingId : String) (now : Time) : Op (StatusOr Unit) := do
  let some record ← find bindingId | return .error (.notFound "binding_id not found")
  withRecord record fun r => r.keepalive now

def Record.detach (r : Record) (now : Time) (idleTtl : Duration) : Record :=
  let refs := if 0 < r.activeAttachmentRefs then r.activeAttachmentRefs - 1
    else r.activeAttachmentRefs
  if refs = 0 then
    { r with
      activeAttachmentRefs := refs
      lastReleasedAt := now
      idleDeadline := if idleTtl = ⊤ then r.idleDeadline else addDuration now idleTtl }
  else { r with activeAttachmentRefs := refs }

def releaseAttachmentRef (bindingId : String) (now : Time) (idleTtl : Duration) : Op Unit := do
  let some record ← find bindingId | return
  withRecord record fun r => ((), r.detach now idleTtl)
  eraseIfReclaimable bindingId record

def Record.dueReason (r : Record) (now : Time) : Option String :=
  if !isReadyState r.state && finiteDeadlineDue r.materializationDeadline now then
    some "materialization_timeout"
  else if r.firstAcquiredAt = ⊥ && finiteDeadlineDue r.unacquiredDeadline now then
    some "unacquired_ttl"
  else if r.activeAttachmentRefs = 0 && finiteDeadlineDue r.idleDeadline now then
    some "idle_ttl"
  else none

/-- Retires a retained record that is due.  Unlike `retire_retained`, this leaves the staged
values. -/
def Record.sweep (r : Record) (now : Time) : Bool × Record :=
  if r.retired || !r.retainedRef then (false, r)
  else
    match r.dueReason now with
    | none => (false, r)
    | some reason =>
      (true, { r with
        retired := true
        retainedRef := false
        retiredReason := reason
        bindingCurrentValuePublicationToken := ""
        activePublishedCurrent := none })

def sweepRetention (order : HashOrder) (now : Time) : Op ℕ := do
  let entries ← snapshot order
  let mut retiredCount := 0
  for entry in entries do
    let shouldRetire ← withRecord entry.2 fun r => r.sweep now
    if shouldRetire then
      retiredCount := retiredCount + 1
      eraseIfReclaimable entry.1 entry.2
  return retiredCount

def Record.dropExport (r : Record) : Record :=
  { r with exportRefs := if 0 < r.exportRefs then r.exportRefs - 1 else r.exportRefs }

def releaseExportRef (bindingId : String) : Op Unit := do
  let some record ← find bindingId | return
  withRecord record fun r => ((), r.dropExport)
  eraseIfReclaimable bindingId record

/-- A retained record loses its owner, another one is closed.  Unlike `close_control`, this leaves the
staged values. -/
def Record.ownerExited (r : Record) (ownerPid : ℤ) : Record :=
  if r.controlLifetime = .daemonRetained ∧ r.retainedRef then
    { r with
      ownerPid := 0
      creatorPid := if r.creatorPid = ownerPid then 0 else r.creatorPid }
  else { r with closed := true, retainedRef := false, exportRefs := 0 }

def handlePidExit (order : HashOrder) (ownerPid : ℤ) : Op Unit := do
  if ownerPid ≤ 0 then return
  let entries ← read fun s : Registry =>
    (order.order s.records.entries).filter fun entry => (s.heap entry.2).ownerPid = ownerPid
  for entry in entries do
    withRecord entry.2 fun r => ((), r.ownerExited ownerPid)
    eraseIfReclaimable entry.1 entry.2

/-! ## Calls -/

/-- `update` is a service that has got a record and writes it under its lock. -/
inductive Call
  | insert (record : Option Record)
  | closeControl (bindingId : String)
  | retireRetained (bindingId reason : String)
  | insertStagedValue (bindingId : String) (value : StagedBindingValue) (now : Time)
  | removeStagedValue (bindingId bindingValueId : String)
  | removeStagedValuesForTransaction (order : HashOrder) (transactionId : String) (maxToRemove : ℕ)
  | sweepStagedValues (order : HashOrder) (now : Time) (maxToRemove : ℕ)
  | clearStagedValues (order : HashOrder)
  | acquireAttachmentRef (bindingId : String) (now : Time)
  | validateAndAcquireAttachmentRef (request : AcquireBindingValueRequest) (now : Time)
  | validateAndAcquireGroupStagedAttachmentRef (request : AcquireBindingValueRequest) (now : Time)
  | keepaliveAttachmentRef (bindingId : String) (now : Time)
  | releaseAttachmentRef (bindingId : String) (now : Time) (idleTtl : Duration)
  | sweepRetention (order : HashOrder) (now : Time)
  | releaseExportRef (bindingId : String)
  | handlePidExit (order : HashOrder) (ownerPid : ℤ)
  | update (bindingId : String) (change : Record → Record)

/-- What a call returns. -/
inductive Reply
  | status (status : StatusOr Unit)
  | flag (flag : Bool)
  | count (count : ℕ)
  | void

/-- A service writes a record that it has got. -/
def updateRecord (bindingId : String) (change : Record → Record) : Op (StatusOr Unit) := do
  let some record ← find bindingId | return .error (.notFound "binding_id not found")
  withRecord record fun r => (.ok (), change r)

def Call.program : Call → Op Reply
  | .insert record => Reply.status <$> Binding.insert record
  | .closeControl bindingId => Reply.flag <$> Binding.closeControl bindingId
  | .retireRetained bindingId reason => Reply.status <$> Binding.retireRetained bindingId reason
  | .insertStagedValue bindingId value now =>
    Reply.status <$> Binding.insertStagedValue bindingId value now
  | .removeStagedValue bindingId bindingValueId =>
    Reply.status <$> Binding.removeStagedValue bindingId bindingValueId
  | .removeStagedValuesForTransaction order transactionId maxToRemove =>
    Reply.count <$> Binding.removeStagedValuesForTransaction order transactionId maxToRemove
  | .sweepStagedValues order now maxToRemove =>
    Reply.count <$> Binding.sweepStagedValues order now maxToRemove
  | .clearStagedValues order => Reply.count <$> Binding.clearStagedValues order
  | .acquireAttachmentRef bindingId now =>
    Reply.status <$> Binding.acquireAttachmentRef bindingId now
  | .validateAndAcquireAttachmentRef request now =>
    Reply.status <$> Binding.validateAndAcquireAttachmentRef request now
  | .validateAndAcquireGroupStagedAttachmentRef request now =>
    Reply.status <$> Binding.validateAndAcquireGroupStagedAttachmentRef request now
  | .keepaliveAttachmentRef bindingId now =>
    Reply.status <$> Binding.keepaliveAttachmentRef bindingId now
  | .releaseAttachmentRef bindingId now idleTtl =>
    (fun _ => Reply.void) <$> Binding.releaseAttachmentRef bindingId now idleTtl
  | .sweepRetention order now => Reply.count <$> Binding.sweepRetention order now
  | .releaseExportRef bindingId => (fun _ => Reply.void) <$> Binding.releaseExportRef bindingId
  | .handlePidExit order ownerPid => (fun _ => Reply.void) <$> Binding.handlePidExit order ownerPid
  | .update bindingId change => Reply.status <$> updateRecord bindingId change

abbrev Callers := Pool Call Registry Reply

/-- One step of the callers: a call comes, or one of them runs its next section. -/
def step : Pool.Move Call → Callers → Option Callers := Pool.step Call.program

/-- A registry without records that nobody calls. -/
def start : Callers := { shared := {} }

end TensorCast.Binding
