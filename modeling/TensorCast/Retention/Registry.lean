import TensorCast.Authority.Records
import TensorCast.Binding.Records

/-!
# Retention handles

A retention handle keeps a replica in the stable tier for a bounded time.  The registry groups the
handles by the identity of their selection, folds the policies of a group into one effective policy,
and hands that to the backend each time the group changes.  What a call asks of the token manager, the
lease manager, the lifecycle kernel and the store engine is given with it.
-/

namespace TensorCast.Retention

open Core Lifecycle
open Authority (ReplicaKey)
open Binding (Duration addDuration)

/-! ## Policies -/

inductive StableRetentionPolicy
  | bestEffort | ttl | pinned
deriving DecidableEq, Repr

inductive StableOverflowPolicy
  | evict | spill | reject
deriving DecidableEq, Repr

def retentionRank : StableRetentionPolicy → ℕ
  | .bestEffort => 0
  | .ttl => 1
  | .pinned => 2

def overflowRank : StableOverflowPolicy → ℕ
  | .evict => 0
  | .spill => 1
  | .reject => 2

structure StableDramCachePolicy where
  retentionPolicy : StableRetentionPolicy := .bestEffort
  retentionTtl : Option Int64 := none
  overflowPolicy : StableOverflowPolicy := .evict
  required : Bool := false
  requireSharedDiskForSpill : Bool := false
  requireRemoteStableForSpill : Bool := false
deriving DecidableEq

def bestEffortPolicy : StableDramCachePolicy := {}

structure EffectivePolicy where
  policy : StableDramCachePolicy
  retentionDeadline : Option Time
deriving DecidableEq

/-- The policy of a selection without handles. -/
def baseline : EffectivePolicy := ⟨bestEffortPolicy, none⟩

/-! ## Records -/

/-- `common::v1::ArtifactSelection`, with the fields that are read here. -/
structure ArtifactSelection where
  artifactId : String := ""
  viewId : String := ""
  logicalLayoutHash : String := ""
  selectionHash : String := ""
deriving DecidableEq

structure SelectionIdentity where
  artifactId : String
  logicalLayoutHash : String
  selectionHash : String
deriving DecidableEq

def buildSelectionIdentity (selection : ArtifactSelection) : StatusOr SelectionIdentity := do
  refuseIf (selection.artifactId = "") (.invalidArgument "selection.artifact_id is required")
  refuseIf (selection.logicalLayoutHash = "")
    (.invalidArgument "selection.logical_layout_hash is required")
  refuseIf (selection.selectionHash = "") (.invalidArgument "selection.selection_hash is required")
  return ⟨selection.artifactId, selection.logicalLayoutHash, selection.selectionHash⟩

structure Target where
  key : ReplicaKey
  chargedBytes : UInt64 := 0
deriving DecidableEq

structure AdmissionResult where
  admitted : Bool := false
  skipped : Bool := false

/-- `StoreEngineRetentionBackend::resolve_target`: the CPU replica of the artifact or of the view. -/
def resolveTarget (getReplicaSize : ReplicaKey → StatusOr UInt64) (selection : ArtifactSelection) :
    StatusOr Target := do
  refuseIf (selection.artifactId = "") (.invalidArgument "selection.artifact_id is required")
  let key : ReplicaKey :=
    { artifactId := selection.artifactId
      viewId := if selection.viewId = "" then none else some selection.viewId
      device := { type := .cpu, ordinal := -1 }
      replica := 0 }
  let size ← getReplicaSize key
  return ⟨key, size⟩

structure HandleRecord where
  handleId : String
  selectionKey : SelectionIdentity
  policy : StableDramCachePolicy
  expiresAt : Time
  chargedBytes : UInt64
  leaseId : UInt64
deriving DecidableEq

/-- The handles are a hash set, here a list that is read as a set. -/
structure SelectionRecord where
  target : Target
  handles : List String

/-- A call of the backend's `update_policy`, for the selection that it was made for. -/
structure Application where
  selectionKey : SelectionIdentity
  target : Target
  effective : EffectivePolicy
deriving DecidableEq

/-- The registry's tables, and the calls of `update_policy` so far, the latest first. -/
structure Registry where
  handles : AList fun _ : String => HandleRecord := ∅
  selections : AList fun _ : SelectionIdentity => SelectionRecord := ∅
  applied : List Application := []

/-- The registry's options, and whether it was given a backend and configured tokens. -/
structure Config where
  enabled : Bool := false
  defaultTtl : Duration := ((2400000000000 : ℤ) : WithTop ℤ)
  maxTtl : Duration := ((345600000000000 : ℤ) : WithTop ℤ)
  backend : Bool := true
  tokensConfigured : Bool := true

/-! ## The effective policy -/

/-- What the loop over the handles has gathered so far. -/
structure Gathered where
  policy : StableDramCachePolicy := bestEffortPolicy
  maxTtl : Option Int64 := none
  maxExpiry : Time := ⊥

/-- One round of the loop. -/
def Gathered.add (g : Gathered) (rec : HandleRecord) : Gathered :=
  let policy : StableDramCachePolicy :=
    { g.policy with
      retentionPolicy :=
        if retentionRank rec.policy.retentionPolicy > retentionRank g.policy.retentionPolicy then
          rec.policy.retentionPolicy
        else g.policy.retentionPolicy
      overflowPolicy :=
        if overflowRank rec.policy.overflowPolicy > overflowRank g.policy.overflowPolicy then
          rec.policy.overflowPolicy
        else g.policy.overflowPolicy
      required := g.policy.required || rec.policy.required
      requireSharedDiskForSpill :=
        g.policy.requireSharedDiskForSpill || rec.policy.requireSharedDiskForSpill
      requireRemoteStableForSpill :=
        g.policy.requireRemoteStableForSpill || rec.policy.requireRemoteStableForSpill }
  if rec.policy.retentionPolicy = .ttl then
    { policy
      maxTtl :=
        match rec.policy.retentionTtl, g.maxTtl with
        | none, max => max
        | some ttl, none => some ttl
        | some ttl, some max => if ttl > max then some ttl else some max
      maxExpiry := if rec.expiresAt > g.maxExpiry then rec.expiresAt else g.maxExpiry }
  else { g with policy }

/-- The policy that the loop ends with. -/
def Gathered.effective (g : Gathered) : EffectivePolicy :=
  if g.policy.retentionPolicy = .ttl then
    { policy := { g.policy with retentionTtl := g.maxTtl }
      retentionDeadline := if g.maxExpiry ≠ ⊥ then some g.maxExpiry else none }
  else
    { policy := { g.policy with retentionTtl := none }
      retentionDeadline := none }

def SelectionRecord.records (selection : SelectionRecord)
    (handles : AList fun _ : String => HandleRecord) : List HandleRecord :=
  selection.handles.filterMap fun handleId => handles.lookup handleId

def computeEffectivePolicy (handles : AList fun _ : String => HandleRecord)
    (selection : SelectionRecord) : EffectivePolicy :=
  if selection.handles = [] then baseline
  else ((selection.records handles).foldl Gathered.add {}).effective

namespace Registry

def applyEffectivePolicy (config : Config) (r : Registry) (selectionKey : SelectionIdentity)
    (selection : SelectionRecord) (effective : EffectivePolicy) : Registry :=
  if config.backend then
    { r with applied := ⟨selectionKey, selection.target, effective⟩ :: r.applied }
  else r

/-! ## Removing a handle -/

/-- The section that takes a handle out of both tables; returns the selection that is left. -/
def removeHandle (r : Registry) (handleId : String) (rec : HandleRecord) :
    Registry × Option SelectionRecord :=
  match r.selections.lookup rec.selectionKey with
  | none => ({ r with handles := r.handles.erase handleId }, none)
  | some selection =>
    let selection := { selection with handles := selection.handles.filter (· ≠ handleId) }
    let selections :=
      if selection.handles = [] then r.selections.erase rec.selectionKey
      else r.selections.insert rec.selectionKey selection
    ({ r with handles := r.handles.erase handleId, selections }, some selection)

/-- The downgrade after a handle is gone. -/
def applyRemaining (config : Config) (r : Registry) (selectionKey : SelectionIdentity)
    (remaining : Option SelectionRecord) (handles : AList fun _ : String => HandleRecord) :
    Registry :=
  match remaining with
  | none => r
  | some selection =>
    r.applyEffectivePolicy config selectionKey selection (computeEffectivePolicy handles selection)

def expireHandle (config : Config) (r : Registry) (handleId : String) : Registry :=
  match r.handles.lookup handleId with
  | none => r
  | some rec =>
    let (r, remaining) := r.removeHandle handleId rec
    r.applyRemaining config rec.selectionKey remaining r.handles

end Registry

/-! ## Acquire -/

/-- `absl::Milliseconds`, in quarters of a nanosecond. -/
def milliseconds (ms : Int64) : Duration := (((4000000 * ms.toInt : ℤ) : WithTop ℤ) : Duration)

/-- `absl::ToUnixMillis` as an unsigned number. -/
def toUnixMs : Time → UInt64
  | ((n : ℤ) : WithTop ℤ) => UInt64.ofInt (n / 4000000)
  | (⊤ : WithTop ℤ) => UInt64.ofNat (2 ^ 63 - 1)
  | ⊥ => UInt64.ofNat (2 ^ 63)

def zeroDuration : Duration := ((0 : ℤ) : WithTop ℤ)

def capByMax (config : Config) (ttl : Duration) : Duration :=
  if config.maxTtl > zeroDuration ∧ ttl > config.maxTtl then config.maxTtl else ttl

def capByPolicy (policy : StableDramCachePolicy) (ttl : Duration) : Duration :=
  match policy.retentionPolicy, policy.retentionTtl with
  | .ttl, some policyTtl =>
    if milliseconds policyTtl > zeroDuration ∧ ttl > milliseconds policyTtl then
      milliseconds policyTtl
    else ttl
  | _, _ => ttl

/-- What a caller gets. -/
structure Handle where
  handleId : String
  expiresAtMs : UInt64
  capabilityToken : String
  chargedBytes : UInt64
  diagnostics : String := ""

/-- A call of `acquire`, with the answers of the components that it asks. -/
structure AcquireCall where
  selection : ArtifactSelection
  ttlMs : UInt64
  /-- the store policy of the request, resolved, as a stable cache policy -/
  stablePolicy : StatusOr (Option StableDramCachePolicy)
  now : ℤ
  getReplicaSize : ReplicaKey → StatusOr UInt64
  /-- the 32 random bytes that are drawn for the handle -/
  handleId : String
  lease : StatusOr UInt64
  token : StatusOr String
  admission : StatusOr AdmissionResult
  capability : StatusOr Unit

/-- What an accepted request asks for. -/
structure Grant where
  identity : SelectionIdentity
  policy : StableDramCachePolicy
  expiresAt : Time
  target : Target

def AcquireCall.check (config : Config) (call : AcquireCall) : StatusOr Grant := do
  refuseIf (config.enabled = false) (.failedPrecondition "retention handles are disabled")
  refuseIf (config.backend = false) (.failedPrecondition "retention backend unavailable")
  refuseIf (config.tokensConfigured = false)
    (.failedPrecondition "capability tokens are not configured")
  refuseIf (call.selection.artifactId = "") (.invalidArgument "selection.artifact_id is required")
  refuseIf (call.selection.logicalLayoutHash = "" ∨ call.selection.selectionHash = "")
    (.invalidArgument "selection logical_layout_hash and selection_hash are required")
  let identity ← buildSelectionIdentity call.selection
  refuseIf (call.ttlMs = 0 ∧ config.defaultTtl ≤ zeroDuration)
    (.invalidArgument "ttl_ms is required")
  let ttl := if call.ttlMs > 0 then milliseconds call.ttlMs.toInt64 else config.defaultTtl
  refuseIf (ttl ≤ zeroDuration) (.invalidArgument "ttl_ms must be > 0")
  let ttl := capByMax config ttl
  let resolved ← call.stablePolicy
  let some policy := resolved
    | .error (.failedPrecondition "retention requires local stable_dram policy")
  let ttl := capByPolicy policy ttl
  refuseIf (ttl ≤ zeroDuration) (.invalidArgument "effective ttl_ms must be > 0")
  let expiresAt := addDuration ((call.now : WithTop ℤ) : Time) ttl
  let target ← resolveTarget call.getReplicaSize call.selection
  return { identity, policy, expiresAt, target }

/-- A status with a longer message. -/
def annotate (text : String) (status : Status) : Status := ⟨status.code, text ++ status.message⟩

namespace Registry

def enteredSelection (r : Registry) (handleId : String) (grant : Grant) : SelectionRecord :=
  let record := (r.selections.lookup grant.identity).getD ⟨grant.target, []⟩
  { target := if record.handles = [] then grant.target else record.target
    handles := record.handles.insert handleId }

/-- The section that enters a handle, and the policy that follows from it. -/
def enterHandle (config : Config) (r : Registry) (handleId : String) (grant : Grant)
    (leaseId : UInt64) : Registry :=
  let record := r.enteredSelection handleId grant
  let handles := r.handles.insert handleId
    { handleId
      selectionKey := grant.identity
      policy := grant.policy
      expiresAt := grant.expiresAt
      chargedBytes := grant.target.chargedBytes
      leaseId }
  let r := { r with handles, selections := r.selections.insert grant.identity record }
  r.applyEffectivePolicy config grant.identity record (computeEffectivePolicy handles record)

/-- A refusal after the lease was created gives the lease back, and that runs its finalizers. -/
def acquire (config : Config) (call : AcquireCall) (r : Registry) : StatusOr Handle × Registry :=
  match call.check config with
  | .error e => (.error e, r)
  | .ok grant =>
    match call.lease with
    | .error e => (.error (annotate "retention: failed to create retention lease: " e), r)
    | .ok leaseId =>
      let undone := r.expireHandle config call.handleId
      match call.token with
      | .error e => (.error (annotate "retention: failed to mint capability token: " e), undone)
      | .ok token =>
        match call.admission with
        | .error e => (.error (annotate "retention: stable cache admission failed: " e), undone)
        | .ok admission =>
          match call.capability with
          | .error e => (.error e, undone)
          | .ok () =>
            (.ok
              { handleId := call.handleId
                expiresAtMs := toUnixMs grant.expiresAt
                capabilityToken := token
                chargedBytes := grant.target.chargedBytes
                diagnostics :=
                  if !admission.admitted && admission.skipped then "stable_cache_skipped" else "" },
              r.enterHandle config call.handleId grant leaseId)

end Registry

/-! ## Renew and release -/

/-- The clock is read once more after the lease was renewed. -/
structure RenewCall where
  extendTtlMs : UInt64
  handleId : StatusOr String
  now : ℤ
  admission : StatusOr AdmissionResult
  lease : StatusOr Unit
  token : StatusOr String
  capability : StatusOr Unit

def RenewCall.check (config : Config) (call : RenewCall) (r : Registry) :
    StatusOr (String × HandleRecord × SelectionRecord × Time × String) := do
  refuseIf (config.enabled = false) (.failedPrecondition "retention handles are disabled")
  refuseIf (call.extendTtlMs = 0) (.invalidArgument "extend_ttl_ms is required")
  let handleId ← call.handleId
  let some rec := r.handles.lookup handleId
    | .error (.failedPrecondition "retention handle not found")
  let some selection := r.selections.lookup rec.selectionKey
    | .error (.failedPrecondition "retention handle selection missing")
  let ttl := milliseconds call.extendTtlMs.toInt64
  refuseIf (ttl ≤ zeroDuration) (.invalidArgument "extend_ttl_ms must be > 0")
  let ttl := capByPolicy rec.policy (capByMax config ttl)
  refuseIf (ttl ≤ zeroDuration) (.invalidArgument "effective ttl_ms must be > 0")
  let _ ← call.admission
  call.lease
  let expiresAt := addDuration ((call.now : WithTop ℤ) : Time) ttl
  let token ← call.token
  call.capability
  return (handleId, rec, selection, expiresAt, token)

namespace Registry

/-- The section that moves a handle's deadline, and the policy that follows from it. -/
def extendHandle (config : Config) (r : Registry) (handleId : String) (rec : HandleRecord)
    (selection : SelectionRecord) (expiresAt : Time) : Registry :=
  let handles := r.handles.insert handleId { rec with expiresAt }
  { r with handles }.applyEffectivePolicy config rec.selectionKey selection
    (computeEffectivePolicy handles selection)

def renew (config : Config) (call : RenewCall) (r : Registry) : StatusOr Handle × Registry :=
  match call.check config r with
  | .error e => (.error e, r)
  | .ok (handleId, rec, selection, expiresAt, token) =>
    (.ok
      { handleId
        expiresAtMs := toUnixMs expiresAt
        capabilityToken := token
        chargedBytes := rec.chargedBytes },
      r.extendHandle config handleId rec selection expiresAt)

/-- The finalizer of the lease finds the handle gone.  The kernel releases without an error. -/
def release (config : Config) (handleIdFromToken : StatusOr String) (r : Registry) :
    StatusOr Bool × Registry :=
  if config.enabled = false then
    (.error (.failedPrecondition "retention handles are disabled"), r)
  else
    match handleIdFromToken with
    | .error e => (.error e, r)
    | .ok handleId =>
      match r.handles.lookup handleId with
      | none => (.ok false, r)
      | some rec =>
        let (r, remaining) := r.removeHandle handleId rec
        let handles := r.handles
        let r := if rec.leaseId ≠ 0 then r.expireHandle config handleId else r
        (.ok true, r.applyRemaining config rec.selectionKey remaining handles)

end Registry

/-! ## Runs -/

inductive Op
  | acquire (call : AcquireCall)
  | renew (call : RenewCall)
  | release (handleIdFromToken : StatusOr String)
  /-- the lease of a handle has come to its end -/
  | expire (handleId : String)

def Op.run (config : Config) : Op → Registry → Registry
  | .acquire call, r => (r.acquire config call).2
  | .renew call, r => (r.renew config call).2
  | .release handleIdFromToken, r => (r.release config handleIdFromToken).2
  | .expire handleId, r => r.expireHandle config handleId

/-- Every call can be made at any time. -/
def step (config : Config) (op : Op) (r : Registry) : Option Registry := some (op.run config r)

/-- The handle ids that are drawn are new ones. -/
def Op.Fresh (r : Registry) : Op → Prop
  | .acquire call => r.handles.lookup call.handleId = none
  | _ => True

end TensorCast.Retention
