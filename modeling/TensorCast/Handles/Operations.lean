import TensorCast.Handles.Registry
import TensorCast.Sessions.Callbacks

/-!
# Calls of the registry of handle leases

A mint takes several sections under the mutex of the registry, and between them it calls the engine
and the lifecycle manager; a lease that is retired runs a callback into the registry.  Every section
and every call is an action here.  A mint carries along the answers that it is going to get.
-/

namespace TensorCast.Handles

open Core Lifecycle Lib
open Authority (ReplicaKey StableLease Context UnifiedMemoryAuthority)
open Authority.UnifiedMemoryAuthority (ExportRegistration)
open Sessions (zeroDuration)

/-! ## The engine -/

/-- The memory authority, and the allocation that `resolve_replica_and_uma_key` finds for a key. -/
structure Engine where
  uma : UnifiedMemoryAuthority
  resolve : ReplicaKey → StatusOr ReplicaKey

namespace Engine

variable (engine : Engine) (context : Context)

def setReplicaExported (key : ReplicaKey) (side : Side) (chunks : List UInt32) (on : Bool) :
    Engine × StatusOr ExportRegistration :=
  match engine.resolve key with
  | .error status => (engine, .error status)
  | .ok umaKey =>
    let (uma, result) := engine.uma.setExported context umaKey side.location chunks on
    ({ engine with uma }, result)

def acquireReplicaStableLease (key : ReplicaKey) (chunks : List UInt32) :
    Engine × StatusOr StableLease :=
  match engine.resolve key with
  | .error status => (engine, .error status)
  | .ok umaKey =>
    let (uma, result) := engine.uma.acquireStableLease context umaKey chunks
    ({ engine with uma }, result)

def releaseReplicaStableLease (lease : StableLease) : Engine :=
  match engine.resolve lease.key with
  | .error _ => engine
  | .ok umaKey => { engine with uma := (engine.uma.releaseStableLease umaKey lease.chunkIndices).1 }

def takeBack (ref : ExportRef) : StatusOr Made → Engine
  | .error _ => engine
  | .ok made =>
    match ref.side with
    | .cpu => made.stableLease.elim engine engine.releaseReplicaStableLease
    | .gpu => (engine.setReplicaExported context ref.key .gpu made.chunks false).1

end Engine

/-! ## The world -/

/-- The callback that a lease is created with. -/
structure Cleanup where
  token : Token
  ref : ExportRef
deriving DecidableEq

structure Config where
  options : Options := {}
  context : Context
  artifactChunkBytes : UInt64

/-- The arguments of `mint_cpu_memfd_lease` or `mint_cuda_ipc_lease`, and the answers that the call
is going to get. -/
structure MintRequest where
  side : Side
  key : ReplicaKey
  pid : Int32
  memfd : CpuMemfdDescriptor := {}
  exportedChunks : List UInt32 := []
  fdHeadroom : StatusOr Unit := .ok ()
  dupFd : StatusOr Int32 := .ok 0
  /-- the stable cache makes room when the lease is refused for want of bytes -/
  preempts : Bool := false
  replicaSize : StatusOr UInt64 := .ok 0
  now : ℤ := 0
  token : Token
  /-- the lifecycle manager refuses the lease -/
  refusal : Option Status := none
  capability : StatusOr Unit := .ok ()

namespace MintRequest

variable (req : MintRequest)

def check : StatusOr Unit := do
  refuseIf (req.pid ≤ 0) (.invalidArgument "pid must be > 0")
  match req.side with
  | .gpu => .ok ()
  | .cpu =>
    refuseIf (req.memfd.fd < 0) (.invalidArgument "memfd.fd must be >= 0")
    refuseIf (req.memfd.sizeBytes = 0) (.invalidArgument "memfd.size_bytes must be > 0")

/-- The first section of acquiring the export state. -/
def acquire (options : Options) (r : Registry) : Registry × Registry.Acquired :=
  match req.side with
  | .cpu => r.acquireCpuExportState options req.key req.memfd req.exportedChunks
  | .gpu => r.acquireGpuExportState options req.key

def ref (s : StateId) : ExportRef := ⟨req.side, req.key, s⟩

/-- What the first section does: it takes a reference to the state in the table, or makes a state
that is not ready. -/
lemma acquire_cases (options : Options) (r : Registry) :
    (∃ s, r.Has (req.ref s) ∧ req.acquire options r =
      (r.setState s { r.states s with refcount := (r.states s).refcount + 1 }, .joined s)) ∨
    (∃ status, req.acquire options r = (r, .refused status)) ∨
    ∃ state, (r.exports req.side).lookup req.key = none ∧
      state.ready = false ∧ (req.side = .cpu → state.chunks = req.exportedChunks) ∧
      req.acquire options r = (r.addState req.side req.key state, .created r.nextState) := by
  unfold acquire ref
  cases req.side with
  | cpu =>
    rcases Registry.acquireExportState_cases .cpu _ _ options req.key with
      h | h | ⟨state, hnone, hstate, h⟩
    · exact .inl h
    · exact .inr (.inl h)
    · rw [copyChunks] at hstate
      split_ifs at hstate
      · cases hstate
      · cases hstate
        exact .inr (.inr ⟨_, hnone, rfl, fun _ => rfl, h⟩)
  | gpu =>
    rcases Registry.acquireExportState_cases .gpu _ _ options req.key with
      h | h | ⟨state, hnone, hstate, h⟩
    · exact .inl h
    · exact .inr (.inl h)
    · cases hstate
      exact .inr (.inr ⟨{}, hnone, rfl, nofun, h⟩)

/-- The lease that is asked of the lifecycle manager. -/
def creation (options : Options) (cleanup : Cleanup) : Sessions.Action (Option Cleanup) :=
  if options.ttl > zeroDuration then
    .createTtlUseLease req.key req.pid options.ttl [some cleanup]
  else .createUseLease req.key req.pid [some cleanup]

/-- What the mint answers if the state has disappeared. -/
def disappeared : Status :=
  match req.side with
  | .cpu => .aborted "CPU export state disappeared during initialization"
  | .gpu => .aborted "GPU export state disappeared during initialization"

end MintRequest

inductive Answer
  | minted (result : StatusOr Token)
  | released (result : StatusOr Unit)

/-- The callbacks of leases of others do not come back to the registry, and are `none`. -/
structure World where
  registry : Registry := {}
  lifecycle : Sessions.World (Option Cleanup) := {}
  engine : Engine
  answers : List Answer := []

/-! ## Actions -/

inductive Action
  | mint (req : MintRequest)
  /-- waits until the state is initialized -/
  | await (req : MintRequest) (s : StateId)
  /-- what is checked before the engine is asked to make the export -/
  | prepare (req : MintRequest) (s : StateId)
  | acquireStable (req : MintRequest) (s : StateId) (fd : Int32) (retried : Bool)
  | exportOn (req : MintRequest) (s : StateId) (made : Made)
  | install (req : MintRequest) (s : StateId) (result : StatusOr Made)
  | record (req : MintRequest) (s : StateId)
  | createLease (req : MintRequest) (cleanup : Cleanup)
  | register (req : MintRequest) (cleanup : Cleanup) (id : UInt64)
  | mintCapability (req : MintRequest) (id : UInt64)
  | eraseToken (cleanup : Cleanup)
  | releaseState (ref : ExportRef)
  /-- a release in a section that already holds the mutex, in front of the answer -/
  | releaseUnderLock (ref : ExportRef) (status : Status)
  | exportOff (ref : ExportRef) (chunks : List UInt32)
  | releaseStable (lease : StableLease)
  | mintExternal (pid : Int32) (cleanup : Bool) (now : ℤ) (token : Token)
  | release (token : Token)
  | handlePidExit (pid : Int32)
  | lifecycle (a : Sessions.Action (Option Cleanup))
  /-- others use the engine -/
  | backend (engine : Engine)
  | answer (answer : Answer)

/-- A section under the mutex. -/
def World.locked (w : World) (f : Registry → Registry × List Action) :
    Option (World × List Action) :=
  if w.registry.mutexHeld then none
  else
    let (registry, more) := f w.registry
    some ({ w with registry }, more)

lemma World.of_locked {w w' : World} {f : Registry → Registry × List Action} {r : Registry}
    {more l : List Action} (h : w.locked f = some (w', more)) (hf : f w.registry = (r, l)) :
    w' = { w with registry := r } ∧ more = l := by
  rw [locked] at h
  split_ifs at h
  rw [hf] at h
  cases h
  exact ⟨rfl, rfl⟩

/-- What follows outside of the mutex when a state has lost its last reference. -/
def ExportState.teardown (state : ExportState) (ref : ExportRef) : List Action :=
  (if state.chunks = [] then [] else [.exportOff ref state.chunks]) ++
    state.stableLease.toList.map .releaseStable

/-- A callback of the registry, among those that the lifecycle manager runs. -/
def cleanupOf (a : Sessions.Action (Option Cleanup)) : List Action :=
  match a.runs with
  | some (some cleanup) => [.eraseToken cleanup]
  | _ => []

def refuse (status : Status) : Action := .answer (.minted (.error status))

/-- What an action does to the world, and which actions follow; nothing if it has to wait. -/
def act (config : Config) (a : Action) (w : World) : Option (World × List Action) :=
  match a with
  | .mint req =>
    match req.check with
    | .error status => some (w, [refuse status])
    | .ok () => w.locked fun r =>
      match req.acquire config.options r with
      | (r, .refused status) => (r, [refuse status])
      | (r, .joined s) => (r, [.await req s])
      | (r, .created s) => (r, [.prepare req s])
  | .await req s =>
    if (w.registry.states s).ready then
      w.locked fun r =>
        match (r.states s).status with
        | .ok () => (r, [.record req s])
        | .error status => (r, [.releaseState (req.ref s), refuse status])
    else none
  | .prepare req s =>
    match req.side with
    | .cpu =>
      match req.fdHeadroom >>= fun _ => req.dupFd with
      | .error status => some (w, [.install req s (.error status)])
      | .ok fd => some (w, [.acquireStable req s fd false])
    | .gpu =>
      match buildExportChunksForReplica req.replicaSize config.artifactChunkBytes with
      | .error status => some (w, [.install req s (.error status)])
      | .ok chunks => some (w, [.exportOn req s { chunks }])
  | .acquireStable req s fd retried =>
    match w.engine.acquireReplicaStableLease config.context req.key req.exportedChunks with
    | (engine, .error status) =>
      some ({ w with engine },
        if status.code = .resourceExhausted ∧ req.preempts ∧ ¬ retried then
          [.acquireStable req s fd true]
        else [.install req s (.error status)])
    | (engine, .ok lease) =>
      some ({ w with engine },
        [.exportOn req s { fd, chunks := req.exportedChunks, stableLease := some lease }])
  | .exportOn req s made =>
    match w.engine.setReplicaExported config.context req.key req.side made.chunks true with
    | (engine, .error status) =>
      some ({ w with engine },
        made.stableLease.toList.map .releaseStable ++ [.install req s (.error status)])
    | (engine, .ok registration) =>
      some ({ w with engine },
        [.install req s (.ok { made with keepalive := registration.keepalive })])
  | .install req s result =>
    if w.registry.mutexHeld then none
    else
      match w.registry.install (req.ref s) result with
      | none =>
        some ({ w with engine := w.engine.takeBack config.context (req.ref s) result },
          [refuse req.disappeared])
      | some registry =>
        some ({ w with registry },
          match result with
          | .ok _ => [.record req s]
          | .error status => [.releaseState (req.ref s), refuse status])
  | .record req s =>
    -- the token is drawn until it is new
    if req.token ∈ w.registry.leases then none
    else
      w.locked fun r =>
        match r.enterLease config.options req.now req.token (.exported (req.ref s) 0) with
        | (r, .error status) => (r, [.releaseState (req.ref s), refuse status])
        | (r, .ok ()) => (r, [.createLease req ⟨req.token, req.ref s⟩])
  | .createLease req cleanup =>
    match req.refusal with
    | some status => some (w, [.eraseToken cleanup, refuse status])
    | none =>
      (Sessions.act (req.creation config.options cleanup) w.lifecycle).map fun (lifecycle, more) =>
        ({ w with lifecycle },
          more.map .lifecycle ++ [.register req cleanup w.lifecycle.manager.nextId])
  | .register req cleanup id =>
    if w.registry.mutexHeld then none
    else
      match w.registry.registerLease cleanup.token id with
      | none =>
        -- the section goes on with the mutex held
        some ({ w with registry := { w.registry with mutexHeld := true } },
          [.lifecycle (.retireLease id),
            .releaseUnderLock cleanup.ref (.aborted "lease retired before token registration")])
      | some registry => some ({ w with registry }, [.mintCapability req id])
  | .mintCapability req id =>
    match req.capability with
    | .ok () => some (w, [.answer (.minted (.ok req.token))])
    | .error status => some (w, [.lifecycle (.retireLease id), refuse status])
  | .eraseToken cleanup =>
    w.locked fun r => (r.eraseToken cleanup.token, [.releaseState cleanup.ref])
  | .releaseState ref =>
    w.locked fun r =>
      match r.releaseExportState ref with
      | (r, none) => (r, [])
      | (r, some state) => (r, state.teardown ref)
  -- the mutex is not recursive: its own thread waits for it for ever
  | .releaseUnderLock _ _ => none
  | .exportOff ref chunks =>
    let engine := (w.engine.setReplicaExported config.context ref.key ref.side chunks false).1
    some ({ w with engine }, [])
  | .releaseStable lease =>
    some ({ w with engine := w.engine.releaseReplicaStableLease lease }, [])
  | .mintExternal pid cleanup now token =>
    if pid ≤ 0 then some (w, [refuse (.invalidArgument "pid must be > 0")])
    else if ¬ cleanup then some (w, [refuse (.invalidArgument "cleanup is required")])
    else if token ∈ w.registry.leases then none
    else
      w.locked fun r =>
        match r.enterLease config.options now token (.external pid) with
        | (r, .error status) => (r, [refuse status])
        | (r, .ok ()) => (r, [.lifecycle (.watchPid pid), .answer (.minted (.ok token))])
  | .release token =>
    w.locked fun r =>
      match r.leases.lookup token with
      | none => (r, [.answer (.released (.error (.notFound "lease_token not found")))])
      | some (.external pid) =>
        (r.eraseToken token, [.lifecycle (.unwatchPid pid), .answer (.released (.ok ()))])
      | some (.exported _ id) =>
        (r, [.lifecycle (.retireLease id), .answer (.released (.ok ()))])
  | .handlePidExit pid =>
    if pid ≤ 0 then some (w, []) else w.locked fun r => (r.dropExternal pid, [])
  | .lifecycle a =>
    (Sessions.act a w.lifecycle).map fun (lifecycle, more) =>
      ({ w with lifecycle }, cleanupOf a ++ more.map .lifecycle)
  | .backend engine => some ({ w with engine }, [])
  | .answer answer => some ({ w with answers := answer :: w.answers }, [])

/-! ## Runs -/

/-- What can be started.  Others do not hand the lifecycle manager callbacks of the registry. -/
def Action.isCall : Action → Bool
  | .mint _ | .mintExternal _ _ _ _ | .release _ | .handlePidExit _ | .backend _ => true
  | .lifecycle a => a.isCall && a.handsOver.all (·.isNone)
  | _ => false

/-- A call, as its first action. -/
structure Call where
  action : Action
  isCall : action.isCall = true

/-- The registry with the calls that are in progress. -/
abbrev Calls := Agendas World Action

def step (config : Config) : Agendas.Move Call → Calls → Option Calls :=
  Agendas.step (fun call => [call.action]) (act config)

def Reached (config : Config) (ok : World → Multiset Action → Action → Prop) (w : World)
    (p : Calls) : Prop :=
  Reaches (step config) (Agendas.Allowed ok) ⟨w, []⟩ p

/-- A registry and a lifecycle manager without leases, over any engine. -/
def World.start (monitor : Bool) (now : ℤ) (engine : Engine) : World :=
  { lifecycle := Sessions.World.start monitor now, engine }

end TensorCast.Handles
