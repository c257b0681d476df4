import TensorCast.Lifecycle.Records

/-!
# The lifecycle kernel

The kernel holds the capabilities of one daemon, the binding records, an index from addresses to
capabilities, and the guards of the uses that were admitted.  Each operation runs under one lock, so
a run is a sequence of operations.  What an operation reads from the clock is an argument of it.
-/

namespace TensorCast.Lifecycle

open Core Function

structure CapabilityEntry where
  capability : LifecycleCapabilityRecord
  subject : LifecycleSubjectRecord
  address : CapabilityBindingAddress
  carriageKind : CredentialCarriageKind := .selfDescribing
  bindingMode : LifecycleBindingMode := .addressDerived
  activeUseCount : UInt64 := 0
  bindingId : Option String := none
deriving DecidableEq

structure LifecycleKernel where
  issuerDaemonId : String
  nextGuardId : UInt64 := 1
  capabilitiesById : String → Option CapabilityEntry := fun _ => none
  addressToCapabilityId : String → Option String := fun _ => none
  bindingsById : String → Option LifecycleBindingRecord := fun _ => none
  useGuardToCapabilityId : String → Option String := fun _ => none

def addressIndexKey (address : CapabilityBindingAddress) : String :=
  toString address.routePrincipal.principalKind.code ++ "|" ++
    address.routePrincipal.principalId ++ "|" ++
    toString address.family.code ++ "|" ++
    toString address.bindingSpace.code ++ "|" ++
    toString address.bindingKeyKind.code ++ "|" ++
    address.bindingKey

def CapabilityEntry.withState (entry : CapabilityEntry) (state : LifecycleRecordState) :
    CapabilityEntry := { entry with capability := { entry.capability with state } }

def CapabilityEntry.withExpiry (entry : CapabilityEntry) (capabilityExpiresAt : Time) :
    CapabilityEntry := { entry with capability := { entry.capability with capabilityExpiresAt } }

def LifecycleBindingRecord.withState (binding : LifecycleBindingRecord)
    (state : LifecycleBindingState) : LifecycleBindingRecord := { binding with state }

namespace LifecycleKernel

def setEntry (k : LifecycleKernel) (capabilityId : String) (entry : CapabilityEntry) :
    LifecycleKernel :=
  { k with capabilitiesById := update k.capabilitiesById capabilityId (some entry) }

def setBinding (k : LifecycleKernel) (bindingId : String) (binding : LifecycleBindingRecord) :
    LifecycleKernel :=
  { k with bindingsById := update k.bindingsById bindingId (some binding) }

/-- Takes an address out of the index. -/
def dropAddress (k : LifecycleKernel) (address : CapabilityBindingAddress) : LifecycleKernel :=
  { k with addressToCapabilityId := update k.addressToCapabilityId (addressIndexKey address) none }

end LifecycleKernel

def epochsMatch (lhs rhs : LifecycleEpochs) : Bool := lhs = rhs

def routePrincipalIsLocalIssuer (routePrincipal : LifecycleRoutePrincipal)
    (issuerDaemonId : String) : Bool :=
  routePrincipal.principalKind = .issuerDaemon && routePrincipal.principalId = issuerDaemonId

/-! ## Minting -/

def MintCapabilityRequest.namedBinding (request : MintCapabilityRequest) : Option String :=
  if request.bindingId.isSome then request.bindingId else request.address.bindingId

def validateMintRequest (issuerDaemonId : String) (request : MintCapabilityRequest) :
    StatusOr Unit :=
  if request.capabilityId = "" then .error (.invalidArgument "capability_id is required")
  else if request.subject.subjectId = "" then
    .error (.invalidArgument "subject.subject_id is required")
  else if request.address.routePrincipal.principalId = "" then
    .error (.invalidArgument "address.route_principal.principal_id is required")
  else if !routePrincipalIsLocalIssuer request.address.routePrincipal issuerDaemonId then
    .error (.failedPrecondition "lifecycle kernel only mints issuer-local capabilities")
  else if request.address.bindingKey = "" then
    .error (.invalidArgument "address.binding_key is required")
  else if !epochsMatch request.subject.epochs request.address.epochs then
    .error (.invalidArgument "subject epochs must match binding address epochs")
  else if request.capabilityExpiresAt = ⊥ then
    .error (.invalidArgument "capability_expires_at is required")
  else if request.bindingMode = .bindingRecord then
    if request.namedBinding.getD "" = "" then
      .error (.invalidArgument "binding_record mode requires binding_id")
    else if request.credentialExpiresAt.isNone then
      .error (.invalidArgument "binding_record mode requires credential_expires_at")
    else .ok ()
  else .ok ()

def newEntry (issuerDaemonId : String) (request : MintCapabilityRequest) (createdAt issuedAt : Time) :
    CapabilityEntry :=
  let created := if request.subject.createdAt = ⊥ then createdAt else request.subject.createdAt
  { subject := { request.subject with createdAt := created, lastObservedAt := created }
    address := request.address
    carriageKind := request.carriageKind
    bindingMode := request.bindingMode
    bindingId := request.namedBinding
    capability :=
      { capabilityId := request.capabilityId
        family := request.address.family
        frontDoorKind := request.frontDoorKind
        subjectId := request.subject.subjectId
        epochs := request.address.epochs
        leaseId := request.leaseId
        leaseGenerationOrEquivalent := request.leaseGenerationOrEquivalent
        issuerDaemonId
        issuedAt
        capabilityExpiresAt := request.capabilityExpiresAt
        state := .active
        workflowCompanion := request.workflowCompanion
        holderScope := request.holderScope
        resolutionHints := request.resolutionHints
        direction := request.direction
        localOnly := request.localOnly
        workflowGate := request.workflowGate
        constraintClaims := request.constraintClaims } }

def newBinding (request : MintCapabilityRequest) (issuedAt : Time) : LifecycleBindingRecord :=
  let bindingId := request.namedBinding.getD ""
  { bindingId
    capabilityId := request.capabilityId
    address := { request.address with bindingId := some bindingId }
    issuedAt
    credentialExpiresAt := request.credentialExpiresAt.getD ⊥
    state := .active
    bindingFencingContext := request.bindingFencingContext }

namespace LifecycleKernel

def mintCapability (k : LifecycleKernel) (request : MintCapabilityRequest)
    (createdAt issuedAt : Time) : LifecycleKernel × StatusOr LifecycleCapabilityRecord :=
  match validateMintRequest k.issuerDaemonId request with
  | .error status => (k, .error status)
  | .ok () =>
    let addressKey := addressIndexKey request.address
    if (k.capabilitiesById request.capabilityId).isSome then
      (k, .error (.alreadyExists "capability_id already exists"))
    else if request.bindingMode = .addressDerived ∧ (k.addressToCapabilityId addressKey).isSome then
      (k, .error (.alreadyExists "binding address already exists"))
    else
      let entry := newEntry k.issuerDaemonId request createdAt issuedAt
      let k := k.setEntry request.capabilityId entry
      match request.bindingMode with
      | .addressDerived =>
        ({ k with
            addressToCapabilityId :=
              update k.addressToCapabilityId addressKey (some request.capabilityId) },
          .ok entry.capability)
      | .bindingRecord =>
        let binding := newBinding request issuedAt
        (k.setBinding binding.bindingId binding, .ok entry.capability)

/-! ## Renewing -/

def renewedBinding (request : RenewCapabilityRequest) (entry : CapabilityEntry) : String :=
  match request.bindingId with
  | some bindingId => bindingId
  | none => entry.bindingId.getD ""

/-- The end of a renewal: an expired capability becomes active again. -/
def reactivate (k : LifecycleKernel) (capabilityId : String) (entry : CapabilityEntry) :
    LifecycleKernel × StatusOr LifecycleCapabilityRecord :=
  let entry := if entry.capability.state = .expired then entry.withState .active else entry
  (k.setEntry capabilityId entry, .ok entry.capability)

def renewCapability (k : LifecycleKernel) (request : RenewCapabilityRequest) :
    LifecycleKernel × StatusOr LifecycleCapabilityRecord :=
  match k.capabilitiesById request.capabilityId with
  | none => (k, .error (.notFound "capability_id not found"))
  | some entry =>
    let entry := entry.withExpiry request.capabilityExpiresAt
    let k := k.setEntry request.capabilityId entry
    match entry.bindingMode, request.credentialExpiresAt with
    | .bindingRecord, some credentialExpiresAt =>
      let bindingId := renewedBinding request entry
      match k.bindingsById bindingId with
      | none => (k, .error (.notFound "binding_id not found"))
      | some binding =>
        let k := k.setBinding bindingId { binding with credentialExpiresAt, state := .active }
        k.reactivate request.capabilityId entry
    | _, _ => k.reactivate request.capabilityId entry

/-! ## Redeeming -/

/-- Both are made and differ. -/
def claimsConflict (expected observed : String) : Bool :=
  expected ≠ "" && observed ≠ "" && expected ≠ observed

def validateConstraintClaims (expected observed : ConstraintClaims) : StatusOr Unit :=
  if claimsConflict expected.artifactId observed.artifactId then
    .error (.failedPrecondition "artifact_id constraint mismatch")
  else if claimsConflict expected.digestAlg observed.digestAlg then
    .error (.failedPrecondition "digest_alg constraint mismatch")
  else if claimsConflict expected.digestHex observed.digestHex then
    .error (.failedPrecondition "digest_hex constraint mismatch")
  else if claimsConflict expected.direction observed.direction then
    .error (.failedPrecondition "direction constraint mismatch")
  else if claimsConflict expected.operationId observed.operationId then
    .error (.failedPrecondition "operation_id constraint mismatch")
  else if claimsConflict expected.holderScope observed.holderScope then
    .error (.permissionDenied "holder_scope constraint mismatch")
  else if expected.localOnly && !observed.localOnly then
    .error (.failedPrecondition "local_only constraint mismatch")
  else .ok ()

/-- A binding record whose credentials have expired is marked on the way. -/
def resolveEntryForCredential (k : LifecycleKernel) (credential : ParsedCredential) (now : Time) :
    LifecycleKernel × StatusOr String :=
  if !routePrincipalIsLocalIssuer credential.address.routePrincipal k.issuerDaemonId then
    (k, .error (.failedPrecondition "credential issuer is not local to this lifecycle kernel"))
  else
    match credential.bindingMode with
    | .bindingRecord =>
      let bindingId := credential.address.bindingId.getD ""
      if bindingId = "" then
        (k, .error (.invalidArgument "binding_record credential missing binding_id"))
      else
        match k.bindingsById bindingId with
        | none => (k, .error (.notFound "binding_id not found"))
        | some binding =>
          if binding.address.family ≠ credential.address.family ∨
              binding.address.bindingSpace ≠ credential.address.bindingSpace ∨
              binding.address.bindingKeyKind ≠ credential.address.bindingKeyKind ∨
              binding.address.bindingKey ≠ credential.address.bindingKey then
            (k, .error (.failedPrecondition "binding_id address mismatch"))
          else if binding.state = .revoked then
            (k, .error (.permissionDenied "binding_id revoked"))
          else if binding.credentialExpiresAt ≤ now then
            (k.setBinding bindingId (binding.withState .expired),
              .error (.permissionDenied "binding_id expired"))
          else if (k.capabilitiesById binding.capabilityId).isNone then
            (k, .error (.notFound "binding capability not found"))
          else (k, .ok binding.capabilityId)
    | .addressDerived =>
      match k.addressToCapabilityId (addressIndexKey credential.address) with
      | none => (k, .error (.notFound "binding address not found"))
      | some capabilityId =>
        if (k.capabilitiesById capabilityId).isNone then
          (k, .error (.notFound "binding capability not found"))
        else (k, .ok capabilityId)

/-- Marks the binding that an entry names as expired. -/
def expireBinding (k : LifecycleKernel) (bindingId : Option String) : LifecycleKernel :=
  match bindingId with
  | none => k
  | some bindingId =>
    match k.bindingsById bindingId with
    | none => k
    | some binding => k.setBinding bindingId (binding.withState .expired)

/-- Marks an entry whose lifetime is over as expired, and the binding that it names. -/
def maybeExpireEntry (k : LifecycleKernel) (capabilityId : String) (entry : CapabilityEntry)
    (now : Time) : LifecycleKernel × CapabilityEntry :=
  if entry.capability.capabilityExpiresAt ≤ now then
    let entry := entry.withState .expired
    ((k.setEntry capabilityId entry).expireBinding entry.bindingId, entry)
  else (k, entry)

/-- When `admit_redemption` resolves the credential, checks the lifetime and notes the use. -/
structure Clock where
  resolved : Time
  checked : Time
  observed : Time

/-- The last part of `admit_redemption`: the use gets a guard. -/
def grantUse (k : LifecycleKernel) (capabilityId : String) (entry : CapabilityEntry)
    (observed : Time) : LifecycleKernel × AdmittedCapabilityUse :=
  let guardId := "lkg-" ++ toString k.nextGuardId
  let entry := { entry with
    activeUseCount := entry.activeUseCount + 1
    subject := { entry.subject with lastObservedAt := observed } }
  ({ k.setEntry capabilityId entry with
      nextGuardId := k.nextGuardId + 1
      useGuardToCapabilityId :=
        update k.useGuardToCapabilityId guardId (some entry.capability.capabilityId) },
    { capability := entry.capability
      subject := entry.subject
      bindingRecord := entry.bindingId.bind k.bindingsById
      useGuard := { guardId, capabilityId := entry.capability.capabilityId } })

def admitRedemption (k : LifecycleKernel) (credential : ParsedCredential) (clock : Clock) :
    LifecycleKernel × StatusOr AdmittedCapabilityUse :=
  match k.resolveEntryForCredential credential clock.resolved with
  | (k, .error status) => (k, .error status)
  | (k, .ok capabilityId) =>
    match k.capabilitiesById capabilityId with
    | none => (k, .error (.notFound "binding capability not found"))
    | some entry =>
      let (k, entry) := k.maybeExpireEntry capabilityId entry clock.checked
      if entry.capability.state ≠ .active then
        (k, .error (.failedPrecondition "capability is not active"))
      else if !epochsMatch entry.capability.epochs credential.address.epochs then
        (k, .error (.failedPrecondition "credential epoch mismatch"))
      else
        match validateConstraintClaims entry.capability.constraintClaims
          credential.constraintClaims with
        | .error status => (k, .error status)
        | .ok () =>
          let (k, use) := k.grantUse capabilityId entry clock.observed
          (k, .ok use)

/-! ## Releasing and revoking -/

def eraseEntry (k : LifecycleKernel) (capabilityId : String) : LifecycleKernel :=
  match k.capabilitiesById capabilityId with
  | none => k
  | some entry =>
    { k.dropAddress entry.address with
      bindingsById :=
        match entry.bindingId with
        | none => k.bindingsById
        | some bindingId => update k.bindingsById bindingId none
      capabilitiesById := update k.capabilitiesById capabilityId none }

/-- One use less of the capability; the last use of one that is over erases it. -/
def dropUse (k : LifecycleKernel) (capabilityId : String) : LifecycleKernel :=
  match k.capabilitiesById capabilityId with
  | none => k
  | some entry =>
    if entry.activeUseCount = 0 then k
    else
      let entry := { entry with activeUseCount := entry.activeUseCount - 1 }
      let k := k.setEntry capabilityId entry
      if entry.activeUseCount = 0 ∧ (entry.capability.state = .draining ∨
          entry.capability.state = .expired ∨ entry.capability.state = .released) then
        k.eraseEntry entry.capability.capabilityId
      else k

def releaseUseGuard (k : LifecycleKernel) (useGuard : LifecycleUseGuard) :
    LifecycleKernel × StatusOr Unit :=
  match k.useGuardToCapabilityId useGuard.guardId with
  | none => (k, .error (.notFound "use_guard not found"))
  | some capabilityId =>
    let k := k.dropUse capabilityId
    ({ k with useGuardToCapabilityId := update k.useGuardToCapabilityId useGuard.guardId none },
      .ok ())

def revokeBindingRecord (k : LifecycleKernel) (bindingId : String) :
    LifecycleKernel × StatusOr Unit :=
  match k.bindingsById bindingId with
  | none => (k, .error (.notFound "binding_id not found"))
  | some binding =>
    (k.setBinding bindingId (binding.withState .revoked), .ok ())

def revokeBinding (k : LifecycleKernel) (bindingId : Option String) : LifecycleKernel :=
  match bindingId with
  | none => k
  | some bindingId => (k.revokeBindingRecord bindingId).1

def releaseCapability (k : LifecycleKernel) (capabilityId : String) :
    LifecycleKernel × StatusOr Unit :=
  match k.capabilitiesById capabilityId with
  | none => (k, .ok ())
  | some entry =>
    let entry := entry.withState .draining
    let k := k.setEntry capabilityId entry
    let k := k.revokeBinding entry.bindingId
    let k := k.dropAddress entry.address
    (if entry.activeUseCount = 0 then k.eraseEntry capabilityId else k, .ok ())

end LifecycleKernel

/-! ## Runs -/

/-- The operations of the kernel, with what they read from the clock. -/
inductive Operation
  | mintCapability (request : MintCapabilityRequest) (createdAt issuedAt : Time)
  | renewCapability (request : RenewCapabilityRequest)
  | admitRedemption (credential : ParsedCredential) (clock : LifecycleKernel.Clock)
  | releaseUseGuard (useGuard : LifecycleUseGuard)
  | revokeBindingRecord (bindingId : String)
  | releaseCapability (capabilityId : String)

def Operation.apply (k : LifecycleKernel) : Operation → LifecycleKernel
  | .mintCapability request createdAt issuedAt => (k.mintCapability request createdAt issuedAt).1
  | .renewCapability request => (k.renewCapability request).1
  | .admitRedemption credential clock => (k.admitRedemption credential clock).1
  | .releaseUseGuard useGuard => (k.releaseUseGuard useGuard).1
  | .revokeBindingRecord bindingId => (k.revokeBindingRecord bindingId).1
  | .releaseCapability capabilityId => (k.releaseCapability capabilityId).1

def step (operation : Operation) (k : LifecycleKernel) : Option LifecycleKernel :=
  some (operation.apply k)

def LifecycleKernel.start (issuerDaemonId : String) : LifecycleKernel := { issuerDaemonId }

end TensorCast.Lifecycle
