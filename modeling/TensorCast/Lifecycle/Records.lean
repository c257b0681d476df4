import TensorCast.Core.Status

/-!
# Records of the lifecycle kernel

A capability is a bounded promise of the daemon.  A credential addresses it either through a
binding record, which can be revoked on its own, or through an address that is derived from the
credential.
-/

namespace TensorCast.Lifecycle

/-- `absl::Time`, from `InfinitePast` to `InfiniteFuture`. -/
abbrev Time := WithBot (WithTop ℤ)

-- the order that Mathlib finds first does not compute
instance preorderWithTop : Preorder (WithTop ℤ) :=
  @WithTop.instPreorder ℤ Int.instLinearOrder.toPreorder

/-! ## Kinds -/

inductive LifecycleCapabilityFamily
  | serve | export | placement | retention | publish | internal
deriving DecidableEq, Repr

def LifecycleCapabilityFamily.code : LifecycleCapabilityFamily → ℕ
  | .serve => 0 | .export => 1 | .placement => 2 | .retention => 3 | .publish => 4 | .internal => 5

inductive LifecycleFrontDoorKind
  | payloadRef | localCpuMemfdExport | localCudaIpcExport | placementLeaseEnvelope
  | placementLeaseLocalToken | retentionHandleToken | targetPublicationToken | internalRecord
deriving DecidableEq, Repr

inductive CredentialCarriageKind
  | selfDescribing | opaqueLocalCompat
deriving DecidableEq, Repr

inductive LifecycleBindingMode
  | addressDerived | bindingRecord
deriving DecidableEq, Repr

inductive LifecycleBindingSpace
  | payload | exportHandle | placementLease | retentionHandle | publication | internalRecord
deriving DecidableEq, Repr

def LifecycleBindingSpace.code : LifecycleBindingSpace → ℕ
  | .payload => 0 | .exportHandle => 1 | .placementLease => 2 | .retentionHandle => 3
  | .publication => 4 | .internalRecord => 5

inductive BindingKeyKind
  | payloadId | leaseId | handleId | publicationId | opaqueLocalToken | internalRecordId
deriving DecidableEq, Repr

def BindingKeyKind.code : BindingKeyKind → ℕ
  | .payloadId => 0 | .leaseId => 1 | .handleId => 2 | .publicationId => 3
  | .opaqueLocalToken => 4 | .internalRecordId => 5

inductive LifecycleRecordState
  | minting | active | draining | expired | released
deriving DecidableEq, Repr

inductive LifecycleBindingState
  | active | expired | revoked
deriving DecidableEq, Repr

inductive WorkflowGateKind
  | none | required
deriving DecidableEq, Repr

inductive LifecycleRoutePrincipalKind
  | issuerDaemon | workflowOwner | internalAuthority
deriving DecidableEq, Repr

def LifecycleRoutePrincipalKind.code : LifecycleRoutePrincipalKind → ℕ
  | .issuerDaemon => 0 | .workflowOwner => 1 | .internalAuthority => 2

inductive FencingPrincipalKind
  | issuerDaemon | workflowOwner | operation | queueLeader | bindingRecord | internalAuthority
deriving DecidableEq, Repr

inductive WorkflowOwnerKind
  | publication | operation | queue | internal
deriving DecidableEq, Repr

/-! ## Records -/

structure LifecycleRoutePrincipal where
  principalKind : LifecycleRoutePrincipalKind := .issuerDaemon
  principalId : String
deriving DecidableEq, Repr

structure FencingContext where
  principalKind : FencingPrincipalKind := .issuerDaemon
  principalId : String
  epoch : UInt64 := 0
deriving DecidableEq, Repr

structure WorkflowCompanionRef where
  ownerKind : WorkflowOwnerKind := .internal
  workflowId : String
  currentnessKey : Option String := none
  operationId : Option String := none
  fencingContext : Option FencingContext := none
deriving DecidableEq, Repr

structure LifecycleEpochs where
  subjectGeneration : UInt64 := 1
  fencingContext : Option FencingContext := none
deriving DecidableEq, Repr

structure ConstraintClaims where
  artifactId : String := ""
  digestAlg : String := ""
  digestHex : String := ""
  direction : String := ""
  operationId : String := ""
  holderScope : String := ""
  localOnly : Bool := false
deriving DecidableEq, Repr

/-- `LifecycleSubjectRecord`, with the fields that the kernel reads or writes. -/
structure LifecycleSubjectRecord where
  subjectId : String
  epochs : LifecycleEpochs := {}
  createdAt : Time := ⊥
  lastObservedAt : Time := ⊥
deriving DecidableEq

structure LifecycleCapabilityRecord where
  capabilityId : String
  family : LifecycleCapabilityFamily := .internal
  frontDoorKind : LifecycleFrontDoorKind := .internalRecord
  subjectId : String
  epochs : LifecycleEpochs := {}
  leaseId : UInt64 := 0
  leaseGenerationOrEquivalent : Option UInt64 := none
  issuerDaemonId : String
  issuedAt : Time := ⊥
  capabilityExpiresAt : Time := ⊥
  state : LifecycleRecordState := .minting
  workflowCompanion : Option WorkflowCompanionRef := none
  holderScope : Option String := none
  resolutionHints : Option String := none
  direction : Option String := none
  localOnly : Bool := false
  workflowGate : WorkflowGateKind := .none
  constraintClaims : ConstraintClaims := {}
deriving DecidableEq

structure CapabilityBindingAddress where
  routePrincipal : LifecycleRoutePrincipal
  family : LifecycleCapabilityFamily := .internal
  bindingSpace : LifecycleBindingSpace := .internalRecord
  bindingKeyKind : BindingKeyKind := .internalRecordId
  bindingKey : String
  epochs : LifecycleEpochs := {}
  bindingId : Option String := none
deriving DecidableEq, Repr

structure LifecycleBindingRecord where
  bindingId : String
  capabilityId : String
  address : CapabilityBindingAddress
  issuedAt : Time := ⊥
  credentialExpiresAt : Time := ⊥
  state : LifecycleBindingState := .active
  bindingFencingContext : Option FencingContext := none
deriving DecidableEq

/-- `ParsedCredential`, with the fields that the kernel reads. -/
structure ParsedCredential where
  address : CapabilityBindingAddress
  bindingMode : LifecycleBindingMode := .addressDerived
  constraintClaims : ConstraintClaims := {}
deriving DecidableEq, Repr

structure LifecycleUseGuard where
  guardId : String
  capabilityId : String
deriving DecidableEq, Repr

structure AdmittedCapabilityUse where
  capability : LifecycleCapabilityRecord
  subject : LifecycleSubjectRecord
  bindingRecord : Option LifecycleBindingRecord
  useGuard : LifecycleUseGuard
deriving DecidableEq

/-! ## Requests -/

structure MintCapabilityRequest where
  subject : LifecycleSubjectRecord
  address : CapabilityBindingAddress
  frontDoorKind : LifecycleFrontDoorKind := .internalRecord
  capabilityId : String
  leaseId : UInt64 := 0
  leaseGenerationOrEquivalent : Option UInt64 := none
  capabilityExpiresAt : Time := ⊥
  carriageKind : CredentialCarriageKind := .selfDescribing
  bindingMode : LifecycleBindingMode := .addressDerived
  constraintClaims : ConstraintClaims := {}
  credentialExpiresAt : Option Time := none
  bindingId : Option String := none
  workflowCompanion : Option WorkflowCompanionRef := none
  holderScope : Option String := none
  resolutionHints : Option String := none
  direction : Option String := none
  localOnly : Bool := false
  workflowGate : WorkflowGateKind := .none
  bindingFencingContext : Option FencingContext := none
deriving DecidableEq

structure RenewCapabilityRequest where
  capabilityId : String
  capabilityExpiresAt : Time := ⊥
  credentialExpiresAt : Option Time := none
  bindingId : Option String := none
deriving DecidableEq

end TensorCast.Lifecycle
