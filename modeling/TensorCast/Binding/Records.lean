import TensorCast.Lifecycle.Records

/-!
# Records of the binding registry

A binding is GPU memory of the daemon with at most one current value.  Its record says who controls
it, whether the daemon retains it, how many attachments and exports refer to it, and which values
are staged next to the current one.
-/

namespace TensorCast.Binding

open Core Lifecycle

inductive BindingState
  | unspecified | allocated | readyArtifact | readyLocal | mutable | dirty
deriving DecidableEq, Repr

def isReadyState (state : BindingState) : Bool :=
  state = .readyArtifact || state = .readyLocal

inductive ControlLifetime
  | pidBound | daemonRetained
deriving DecidableEq, Repr

/-- A deadline that is not `InfiniteFuture` and has come. -/
def finiteDeadlineDue (deadline now : Time) : Bool :=
  deadline ≠ ⊤ && deadline ≤ now

/-- `absl::Duration`; like `Time` it may be infinite on both sides. -/
abbrev Duration := WithBot (WithTop ℤ)

/-- `absl::Time + absl::Duration`: an infinite summand wins, the time before the duration. -/
def addDuration : Time → Duration → Time
  | ((n : ℤ) : WithTop ℤ), ((d : ℤ) : WithTop ℤ) => (((n + d : ℤ) : WithTop ℤ) : Time)
  | ((_ : ℤ) : WithTop ℤ), d => d
  | time, _ => time

/-- `absl::UnixEpoch() + absl::Milliseconds(ms)`, in quarters of a nanosecond. -/
def fromUnixMillis (ms : UInt64) : Time := ((((4000000 * ms.toNat : ℕ) : ℤ) : WithTop ℤ) : Time)

/-! ## References -/

structure BindingValueRef where
  bindingId : String := ""
  bindingLayoutId : String := ""
  bindingValueId : String := ""
  sealGeneration : UInt64 := 0
deriving DecidableEq, Repr

structure ServingBindingMemberRef where
  memberId : String := ""
  memberIndex : UInt32 := 0
  memberCount : UInt32 := 0
  groupId : String := ""
deriving DecidableEq, Repr

structure BindingReservationCapability where
  capabilityId : String := ""
  bindingValueRef : BindingValueRef := {}
  daemonId : String := ""
  daemonSessionId : String := ""
  deviceUuid : String := ""
  member : ServingBindingMemberRef := {}
  expiresAtMs : Option UInt64 := none
deriving DecidableEq, Repr

structure GroupRealizationAcquireRef where
  transactionId : String := ""
  versionSetId : String := ""
  partId : String := ""
  stagingToken : String := ""
deriving DecidableEq, Repr

structure AcquireBindingValueRequest where
  bindingValueRef : BindingValueRef := {}
  reservationCapability : BindingReservationCapability := {}
  expectedDaemonId : String := ""
  expectedDaemonSessionId : String := ""
  expectedDeviceUuid : String := ""
  expectedMember : ServingBindingMemberRef := {}
  expectedTargetLayoutHash : String := ""
  expectedTensorSchemaHash : String := ""
  expectedServingBuildDigest : String := ""
  localServingRef : String := ""
  callerPid : Option ℤ := none
  groupRealizationAcquire : Option GroupRealizationAcquireRef := none
deriving DecidableEq, Repr

/-! ## Records -/

/-- `selectionArtifactId` is `selection.artifact_id()`. -/
structure StagedBindingValue where
  transactionId : String := ""
  versionSetId : String := ""
  partId : String := ""
  bindingValueId : String := ""
  stagingToken : String := ""
  stagingEpoch : UInt64 := 0
  daemonId : String := ""
  daemonSessionId : String := ""
  selectionArtifactId : String := ""
  artifactId : String := ""
  targetLayoutHash : String := ""
  tensorSchemaHash : String := ""
  expectedPreviousSealGeneration : UInt64 := 0
  createdAt : Time := ⊥
  expiresAt : Time := ⊤
deriving DecidableEq

structure PublishedCurrentValue where
  bindingId : String
  bindingLayoutId : String
  bindingValueId : String
  sealGeneration : UInt64
  publicationId : String
  leaseId : String
  replicaId : String
  operationId : String
deriving DecidableEq, Repr

/-- `BindingRegistry::Record`.  The overflow of the counts is undefined and not modelled. -/
structure Record where
  bindingId : String := ""
  bindingLayoutId : String := ""
  ownerPid : ℤ := 0
  creatorPid : ℤ := 0
  deviceUuid : String := ""
  state : BindingState := .unspecified
  controlLifetime : ControlLifetime := .pidBound
  closed : Bool := false
  retainedRef : Bool := false
  exportRefs : ℤ := 0
  activeAttachmentRefs : ℤ := 0
  targetLayoutHash : String := ""
  tensorSchemaHash : String := ""
  bindingCurrentValuePublicationToken : String := ""
  currentBindingValueId : String := ""
  sealGeneration : UInt64 := 0
  activePublishedCurrent : Option PublishedCurrentValue := none
  localServingRef : String := ""
  daemonId : String := ""
  daemonSessionId : String := ""
  servingMember : ServingBindingMemberRef := {}
  servingBuildDigest : String := ""
  reservationCapabilityId : String := ""
  reservationExpiresAt : Time := ⊤
  allowedCallerPid : Option ℤ := none
  firstAcquiredAt : Time := ⊥
  lastAcquiredAt : Time := ⊥
  lastReleasedAt : Time := ⊥
  unacquiredDeadline : Time := ⊤
  idleDeadline : Time := ⊤
  materializationDeadline : Time := ⊤
  retired : Bool := false
  retiredReason : String := ""
  stagedValuesById : AList (fun _ : String => StagedBindingValue) := ∅
deriving DecidableEq

/-! ## Checks of values and requests -/

def validateNonempty (value fieldName : String) : StatusOr Unit :=
  refuseIf (value = "") (.invalidArgument (fieldName ++ " is required"))

def validateStagedBindingValue (bindingId : String) (value : StagedBindingValue) (now : Time) :
    StatusOr Unit := do
  validateNonempty bindingId "binding_id"
  validateNonempty value.transactionId "staged_value.transaction_id"
  validateNonempty value.versionSetId "staged_value.version_set_id"
  validateNonempty value.partId "staged_value.part_id"
  validateNonempty value.bindingValueId "staged_value.binding_value_id"
  validateNonempty value.stagingToken "staged_value.staging_token"
  refuseIf (value.stagingEpoch = 0) (.invalidArgument "staged_value.staging_epoch is required")
  refuseIf (finiteDeadlineDue value.expiresAt now)
    (.invalidArgument "staged_value.expires_at must be in the future")

end TensorCast.Binding
