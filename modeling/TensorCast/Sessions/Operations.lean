import TensorCast.Lib.Agenda
import TensorCast.Sessions.Manager

/-!
# Calls of the session lifecycle manager

A call locks the mutex of the manager for one section after another, and between them it calls the
monitor of the processes, the table of the references and the finalizers.  Each of these is an action.
The world around the manager also has a clock, the processes that have exited, and records that
nothing reads: the finalizers that the leases were given and those that have been run, and the latest
renewal of each lease and session.
-/

namespace TensorCast.Sessions

open Core Lifecycle Lib
open Function (update)
open Authority (ReplicaKey DeviceRegistry)
open Binding (Duration)

/-! ## References -/

/-- `RefTracker`: the processes that refer to a replica. -/
abbrev RefTracker := AList fun _ : ReplicaKey => List Int32

namespace RefTracker

/-- The processes of an entry, none without an entry. -/
def pids (refs : RefTracker) (key : ReplicaKey) : List Int32 := (refs.lookup key).getD []

def addRef (refs : RefTracker) (key : ReplicaKey) (pid : Int32) : RefTracker :=
  refs.insert key ((pids refs key).insert pid)

def dropRef (refs : RefTracker) (key : ReplicaKey) (pid : Int32) : RefTracker :=
  match refs.lookup key with
  | none => refs
  | some pids =>
    let pids := pids.filter (· ≠ pid)
    if pids = [] then refs.erase key else refs.insert key pids

def refCount (refs : RefTracker) (key : ReplicaKey) : ℕ := (pids refs key).length

end RefTracker

/-! ## The world -/

/-- A renewal that was acknowledged: when, and for how long. -/
structure Renewal where
  time : ℤ
  ttl : Duration

def Renewal.until (renewal : Renewal) : Time := deadlineAt renewal.time renewal.ttl

structure World (φ : Type) where
  manager : Manager φ := {}
  /-- `PidMonitor::watched_` -/
  watched : List Int32 := []
  refs : RefTracker := ∅
  /-- the ids in the `ReplicaSessionManager` -/
  sessions : List String := []
  now : ℤ := 0
  exited : List Int32 := []
  /-- the finalizers that the leases were given -/
  registered : List (UInt64 × Finalizer φ) := []
  /-- the finalizers that have been run -/
  ran : List (UInt64 × Finalizer φ) := []
  leaseRenewal : UInt64 → Option Renewal := fun _ => none
  sessionRenewal : String → Option Renewal := fun _ => none

/-! ## Actions -/

inductive Action (φ : Type)
  | createUseLease (subj : ReplicaKey) (pid : Int32) (extra : List φ)
  | createTtlUseLease (subj : ReplicaKey) (pid : Int32) (ttl : Duration) (extra : List φ)
  | createPlacementLease (subj : ReplicaKey) (ttl : Duration) (extra : List φ)
  | createRetentionLease (ttl : Duration) (finalizers : List φ)
  | createCommitLease (registry : DeviceRegistry) (artifactId : String) (deviceId pid : Int32)
  | keepaliveSession (sid : String) (ttl : Duration)
  | renewPlacement (id : UInt64) (ttl : Duration)
  | addFinalizer (id : UInt64) (f : φ)
  | releaseUseLease (order : IdOrder) (subj : ReplicaKey) (pid : Int32)
  | releaseByPid (order : IdOrder) (pid : Int32)
  | releaseSession (sid : String)
  | expireDue (now : Time) (order : IdOrder)
  | handlePidExit (order : IdOrder) (pid : Int32)
  | watchPid (pid : Int32)
  | unwatchPid (pid : Int32)
  /-- the section of `retire_lease_` -/
  | retireLease (id : UInt64)
  | finalize (lease : UInt64) (f : Finalizer φ)
  /-- the end of `retire_lease_`, which looks for the monitor -/
  | unwatchRetired (pids : List Int32)
  | monitorWatch (pid : Int32)
  | monitorUnwatch (pid : Int32)
  /-- `ReplicaSessionManager::erase` -/
  | eraseSession (sid : String)
  /-- the second section of `handle_pid_exit` -/
  | retirePidGuards (order : IdOrder) (pid : Int32) (guards : List UInt64)
  | dropRefs (pid : Int32)
  | addRef (key : ReplicaKey) (pid : Int32)
  | dropRef (key : ReplicaKey) (pid : Int32)
  /-- `sync_pid_watches_` -/
  | syncPidWatches
  /-- the loop of the monitor has noticed an exit -/
  | noticeExit (order : IdOrder) (pid : Int32)
  /-- `ReplicaSessionManager::put` -/
  | putSession (sid : String)
  /-- the clock goes on -/
  | tick (now : ℤ)
  /-- a process exits -/
  | exit (pid : Int32)

variable {φ : Type}

def World.created (w : World φ) (result : Manager φ × LeaseRec φ) : World φ :=
  { w with
    manager := result.1
    registered := result.2.finalizers.map (result.2.id, ·) ++ w.registered }

/-- What follows the creation of a lease with a guard on a process. -/
def Manager.watchAfter (m : Manager φ) (pid : Int32) : List (Action φ) :=
  if m.monitor then [.monitorWatch pid] else []

/-- What an action does to the world, and which actions follow.  A refused call does nothing. -/
def act (a : Action φ) (w : World φ) : Option (World φ × List (Action φ)) :=
  let m := w.manager
  match a with
  | .createUseLease subj pid extra =>
    some (w.created (m.createUseLease subj pid extra), m.watchAfter pid)
  | .createTtlUseLease subj pid ttl extra =>
    if ttl ≤ zeroDuration then some (w, [])
    else some (w.created (m.createTtlUseLease w.now subj pid ttl extra), m.watchAfter pid)
  | .createPlacementLease subj ttl extra =>
    some (w.created (m.createPlacementLease w.now subj ttl extra), [])
  | .createRetentionLease ttl finalizers =>
    if ttl ≤ zeroDuration then some (w, [])
    else some (w.created (m.createRetentionLease w.now ttl finalizers), [])
  | .createCommitLease registry artifactId deviceId pid =>
    some (w.created (m.createCommitLease registry artifactId deviceId pid), m.watchAfter pid)
  | .keepaliveSession sid ttl =>
    if ttl ≤ zeroDuration then some (w, [])
    else
      some ({ w with
        manager := m.keepaliveSession w.now sid ttl
        sessionRenewal := update w.sessionRenewal sid (some ⟨w.now, ttl⟩) }, [])
  | .renewPlacement id ttl =>
    match m.renewPlacement w.now id ttl with
    | .error _ => some (w, [])
    | .ok manager =>
      some ({ w with
        manager
        leaseRenewal := update w.leaseRenewal id (some ⟨w.now, ttl⟩) }, [])
  | .addFinalizer id f =>
    match m.addFinalizer id f with
    | .error _ => some (w, [])
    | .ok manager => some ({ w with manager, registered := (id, .extra f) :: w.registered }, [])
  | .releaseUseLease order subj pid =>
    match m.findUseLease order subj pid with
    | none => some (w, [])
    | some id => some (w, if id = 0 then [] else [.retireLease id])
  | .releaseByPid order pid => some (w, (m.leasesOfPid order pid).map .retireLease)
  | .releaseSession sid =>
    match m.releaseSession sid with
    | none => some (w, [])
    | some manager => some ({ w with manager }, [.eraseSession sid])
  | .expireDue now order =>
    let collected := m.expireDue now
    some ({ w with manager := collected.manager },
      (order.order collected.toRetire).map .retireLease ++
        collected.sessionsToErase.map .eraseSession)
  | .handlePidExit order pid =>
    some ({ w with manager := m.dropExternalWatches pid },
      [.retirePidGuards order pid (m.pidGuards pid)])
  | .retirePidGuards order pid guards =>
    some (w, (order.order (m.leasesOfGuards guards)).map .retireLease ++ [.dropRefs pid])
  | .watchPid pid =>
    if pid ≤ 0 then some (w, [])
    else some ({ w with manager := m.watchPid pid }, m.watchAfter pid)
  | .unwatchPid pid =>
    if pid ≤ 0 then some (w, [])
    else
      let (manager, shouldUnwatch) := m.unwatchPid pid
      some ({ w with manager }, if shouldUnwatch && m.monitor then [.monitorUnwatch pid] else [])
  | .retireLease id =>
    match m.byId.lookup id with
    | none => some (w, [])
    | some lease =>
      let (manager, pids) := m.retireLease lease
      some ({ w with manager }, lease.finalizers.map (.finalize id) ++ [.unwatchRetired pids])
  | .finalize lease f =>
    let refs :=
      match f with
      | .dropUse subj pid => w.refs.dropRef subj pid
      | _ => w.refs
    some ({ w with refs, ran := (lease, f) :: w.ran }, [])
  | .unwatchRetired pids => some (w, if m.monitor then pids.map .monitorUnwatch else [])
  | .monitorWatch pid =>
    some (if pid ≤ 0 then w else { w with watched := w.watched.insert pid }, [])
  | .monitorUnwatch pid =>
    some (if pid ≤ 0 then w else { w with watched := w.watched.filter (· ≠ pid) }, [])
  | .eraseSession sid => some ({ w with sessions := w.sessions.filter (· ≠ sid) }, [])
  | .dropRefs pid => some (w, w.refs.keys.map (.dropRef · pid))
  | .addRef key pid => some ({ w with refs := w.refs.addRef key pid }, [])
  | .dropRef key pid => some ({ w with refs := w.refs.dropRef key pid }, [])
  | .syncPidWatches =>
    some (w, if m.monitor then (w.refs.keys.flatMap w.refs.pids).map .monitorWatch else [])
  | .noticeExit order pid =>
    if pid ∈ w.exited then
      some ({ w with watched := w.watched.filter (· ≠ pid) }, [.handlePidExit order pid])
    else none
  | .putSession sid => some ({ w with sessions := w.sessions.insert sid }, [])
  | .tick now => some ({ w with now := max w.now now }, [])
  | .exit pid => some ({ w with exited := pid :: w.exited }, [])

/-! ## Runs -/

/-- What can be started; `release_lease` is the section that retires the lease. -/
def Action.isCall : Action φ → Bool
  | .finalize _ _ | .unwatchRetired _ | .monitorWatch _ | .monitorUnwatch _ | .eraseSession _
  | .retirePidGuards _ _ _ | .dropRefs _ | .dropRef _ _ => false
  | _ => true

/-- A call, as its first action. -/
structure Call (φ : Type) where
  action : Action φ
  isCall : action.isCall = true

/-- The manager with the calls that are in progress. -/
abbrev Calls (φ : Type) := Agendas (World φ) (Action φ)

abbrev Move (φ : Type) := Agendas.Move (Call φ)

def step : Move φ → Calls φ → Option (Calls φ) := Agendas.step (fun call => [call.action]) act

def Reached (ok : World φ → Multiset (Action φ) → Action φ → Prop) (w : World φ) (p : Calls φ) :
    Prop :=
  Reaches step (Agendas.Allowed ok) ⟨w, []⟩ p

/-- A manager without leases; the clock may stand anywhere. -/
def World.start (monitor : Bool) (now : ℤ) : World φ := { manager := { monitor }, now }

def hostReplica : ReplicaKey := { artifactId := "a" }

end TensorCast.Sessions
