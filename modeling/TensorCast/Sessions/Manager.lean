import TensorCast.Authority.Records
import TensorCast.Binding.Records

/-!
# The session lifecycle manager

The manager keeps leases: a process uses a replica, a placement pins one, a commit or a retention
holds something else.  A lease lives until its deadline comes, its process exits or it is released;
then its finalizers are run.  The functions are the sections under the mutex, on the tables of the
leases, of the guards by id and by process, of their deadlines, and of the uses and pins of each
subject.
-/

namespace TensorCast.Sessions

open Core Lifecycle
open Function (update)
open Authority (ReplicaKey DeviceRegistry)
open Binding (Duration addDuration)

/-! ## Records -/

inductive LeaseKind
  | placement | use | commit | retention
deriving DecidableEq, Repr

inductive GuardKind
  | heartbeatTtl | deadline | pidLiveness | manual
deriving DecidableEq, Repr

structure GuardRec where
  id : UInt64
  kind : GuardKind
  lease : UInt64
  generation : UInt64 := 1
  deadline : Time := ⊥
  pid : Int32 := -1
deriving DecidableEq

/-- What is run when a lease is retired: what the creator of the lease gave, and what the manager
adds. -/
inductive Finalizer (φ : Type)
  | extra (f : φ)
  | dropUse (subj : ReplicaKey) (pid : Int32)
  | reclaim (subj : ReplicaKey)
  | revokeCommit (artifactId : String) (ordinal pid : Int32)
deriving DecidableEq

/-- A lease.  The states that it passes through while it is retired are not seen outside of that
section. -/
structure LeaseRec (φ : Type) where
  id : UInt64
  kind : LeaseKind
  subj : ReplicaKey
  pid : Int32 := -1
  guards : List UInt64
  finalizers : List (Finalizer φ)
deriving DecidableEq

structure Counts where
  useCount : Int32 := 0
  placementPins : Int32 := 0
deriving DecidableEq

/-- An entry of the heap of deadlines. -/
structure Due where
  when : Time
  guard : UInt64
  generation : UInt64
deriving DecidableEq

structure SessionGuardRec where
  id : UInt64 := 0
  sid : String := ""
  generation : UInt64 := 0
  deadline : Time := ⊥
deriving DecidableEq

/-- The tables under the mutex.  The heap of the deadlines is the list of its entries. -/
structure Manager (φ : Type) where
  nextId : UInt64 := 1
  nextGuardId : UInt64 := 1
  byId : AList fun _ : UInt64 => LeaseRec φ := ∅
  guardById : AList fun _ : UInt64 => GuardRec := ∅
  deadlines : List Due := []
  /-- a monitor of processes is attached -/
  monitor : Bool := true
  counters : ReplicaKey → Option Counts := fun _ => none
  pidIndex : AList fun _ : Int32 => List UInt64 := ∅
  externalPidWatches : AList fun _ : Int32 => UInt32 := ∅
  sessionGuardById : AList fun _ : UInt64 => SessionGuardRec := ∅
  sessionBySid : AList fun _ : String => UInt64 := ∅

/-- The order in which a hash table or a hash set of ids is iterated. -/
structure IdOrder where
  order : List UInt64 → List UInt64
  perm : ∀ ids, (order ids).Perm ids

/-- The order in which the ids stand. -/
def IdOrder.asIs : IdOrder := ⟨id, fun _ => .refl _⟩

def zeroDuration : Duration := ((0 : ℤ) : WithTop ℤ)

def deadlineAt (now : ℤ) (ttl : Duration) : Time := addDuration ((now : WithTop ℤ) : Time) ttl

namespace Manager

variable {φ : Type}

/-! ## Guards -/

def pushDeadline (m : Manager φ) (guard : UInt64) (when : Time) (generation : UInt64) : Manager φ :=
  { m with deadlines := ⟨when, guard, generation⟩ :: m.deadlines }

/-- Enters a guard under the next id, unless the table has one under that id. -/
def addGuard (m : Manager φ) (guard : GuardRec) : Manager φ :=
  { m with
    nextGuardId := m.nextGuardId + 1
    guardById := if guard.id ∈ m.guardById then m.guardById else m.guardById.insert guard.id guard }

/-- The guards of a process, none if it has no entry. -/
def pidGuards (m : Manager φ) (pid : Int32) : List UInt64 := (m.pidIndex.lookup pid).getD []

/-- A guard that fails when a process exits. -/
def addPidGuard (m : Manager φ) (lease : UInt64) (pid : Int32) : Manager φ × UInt64 :=
  let id := m.nextGuardId
  let m := m.addGuard { id, kind := .pidLiveness, lease, pid }
  ({ m with pidIndex := m.pidIndex.insert pid ((m.pidGuards pid).insert id) }, id)

def addDeadlineGuard (m : Manager φ) (lease : UInt64) (deadline : Time) : Manager φ × UInt64 :=
  let id := m.nextGuardId
  let m := m.addGuard { id, kind := .deadline, lease, deadline }
  (m.pushDeadline id deadline 1, id)

/-- A guard that never fails. -/
def addManualGuard (m : Manager φ) (lease : UInt64) : Manager φ × UInt64 :=
  let id := m.nextGuardId
  (m.addGuard { id, kind := .manual, lease }, id)

/-! ## Counts -/

def incUse (m : Manager φ) (s : ReplicaKey) : Manager φ :=
  let c := (m.counters s).getD {}
  { m with counters := update m.counters s (some { c with useCount := c.useCount + 1 }) }

def decUse (m : Manager φ) (s : ReplicaKey) : Manager φ :=
  match m.counters s with
  | none => m
  | some c =>
    if c.useCount > 0 then
      { m with counters := update m.counters s (some { c with useCount := c.useCount - 1 }) }
    else m

def incPin (m : Manager φ) (s : ReplicaKey) : Manager φ :=
  let c := (m.counters s).getD {}
  { m with counters := update m.counters s (some { c with placementPins := c.placementPins + 1 }) }

def decPin (m : Manager φ) (s : ReplicaKey) : Manager φ :=
  match m.counters s with
  | none => m
  | some c =>
    if c.placementPins > 0 then
      { m with
        counters := update m.counters s (some { c with placementPins := c.placementPins - 1 }) }
    else m

def useCountFor (m : Manager φ) (key : ReplicaKey) : ℤ :=
  if key.device.type ≠ .gpu then 0 else ((m.counters key).getD {}).useCount.toInt

def placementPinCountFor (m : Manager φ) (key : ReplicaKey) : ℤ :=
  if key.device.type ≠ .gpu then 0 else ((m.counters key).getD {}).placementPins.toInt

/-! ## Creating leases -/

def drawId (m : Manager φ) : Manager φ × UInt64 := ({ m with nextId := m.nextId + 1 }, m.nextId)

def enterLease (m : Manager φ) (lease : LeaseRec φ) : Manager φ :=
  { m with byId := m.byId.insert lease.id lease }

def createUseLease (m : Manager φ) (subj : ReplicaKey) (pid : Int32) (extra : List φ) :
    Manager φ × LeaseRec φ :=
  let (m, id) := m.drawId
  let (m, guard) := m.addPidGuard id pid
  let lease : LeaseRec φ :=
    { id, kind := .use, subj, pid, guards := [guard]
      finalizers := extra.map .extra ++ [.dropUse subj pid] }
  ((m.enterLease lease).incUse subj, lease)

/-- The time to live is positive. -/
def createTtlUseLease (m : Manager φ) (now : ℤ) (subj : ReplicaKey) (pid : Int32) (ttl : Duration)
    (extra : List φ) : Manager φ × LeaseRec φ :=
  let (m, id) := m.drawId
  let (m, pidGuard) := m.addPidGuard id pid
  let (m, ttlGuard) := m.addDeadlineGuard id (deadlineAt now ttl)
  let lease : LeaseRec φ :=
    { id, kind := .use, subj, pid, guards := [pidGuard, ttlGuard]
      finalizers := extra.map .extra ++ [.dropUse subj pid] }
  ((m.enterLease lease).incUse subj, lease)

/-- Without a positive time to live the lease is kept until it is released. -/
def createPlacementLease (m : Manager φ) (now : ℤ) (subj : ReplicaKey) (ttl : Duration)
    (extra : List φ) : Manager φ × LeaseRec φ :=
  let (m, id) := m.drawId
  let (m, guard) :=
    if ttl > zeroDuration then m.addDeadlineGuard id (deadlineAt now ttl) else m.addManualGuard id
  let lease : LeaseRec φ :=
    { id, kind := .placement, subj, guards := [guard]
      finalizers := extra.map .extra ++ [.reclaim subj] }
  ((m.enterLease lease).incPin subj, lease)

/-- The time to live is positive. -/
def createRetentionLease (m : Manager φ) (now : ℤ) (ttl : Duration) (finalizers : List φ) :
    Manager φ × LeaseRec φ :=
  let (m, id) := m.drawId
  let (m, guard) := m.addDeadlineGuard id (deadlineAt now ttl)
  let lease : LeaseRec φ :=
    { id, kind := .retention, subj := { artifactId := "" }, guards := [guard]
      finalizers := finalizers.map .extra }
  (m.enterLease lease, lease)

def createCommitLease (m : Manager φ) (registry : DeviceRegistry) (artifactId : String)
    (deviceId : Int32) (pid : Int32) : Manager φ × LeaseRec φ :=
  let (m, id) := m.drawId
  let (m, guard) := m.addPidGuard id pid
  let subj : ReplicaKey := { artifactId, device := registry.gpuKey deviceId, replica := 0 }
  let lease : LeaseRec φ :=
    { id, kind := .commit, subj, pid, guards := [guard]
      finalizers := [.revokeCommit artifactId subj.device.ordinal pid] }
  (m.enterLease lease, lease)

/-! ## Renewing -/

/-- `keepalive_session`; the time to live is positive. -/
def keepaliveSession (m : Manager φ) (now : ℤ) (sid : String) (ttl : Duration) : Manager φ :=
  let deadline := deadlineAt now ttl
  match m.sessionBySid.lookup sid with
  | none =>
    let id := m.nextGuardId
    let m :=
      { m with
        nextGuardId := id + 1
        sessionBySid := m.sessionBySid.insert sid id
        sessionGuardById := m.sessionGuardById.insert id { id, sid, generation := 1, deadline } }
    m.pushDeadline id deadline 1
  | some id =>
    let sg := (m.sessionGuardById.lookup id).getD {}
    let generation := sg.generation + 1
    let m :=
      { m with
        sessionGuardById := m.sessionGuardById.insert id { sg with generation, deadline } }
    m.pushDeadline sg.id deadline generation

/-- One round of the loop over the guards of a lease that is renewed. -/
def renewGuard (deadline : Time) (m : Manager φ) (guard : UInt64) : Manager φ :=
  match m.guardById.lookup guard with
  | none => m
  | some g =>
    if g.kind = .deadline ∨ g.kind = .heartbeatTtl then
      let generation := g.generation + 1
      let m := { m with guardById := m.guardById.insert guard { g with generation, deadline } }
      m.pushDeadline g.id deadline generation
    else m

def renewPlacement (m : Manager φ) (now : ℤ) (id : UInt64) (ttl : Duration) : StatusOr (Manager φ) :=
  match m.byId.lookup id with
  | none => .error (.notFound "lease not found")
  | some lease =>
    if ttl ≤ zeroDuration then .error (.invalidArgument "ttl must be > 0")
    else .ok (lease.guards.foldl (renewGuard (deadlineAt now ttl)) m)

def addFinalizer (m : Manager φ) (id : UInt64) (f : φ) : StatusOr (Manager φ) :=
  match m.byId.lookup id with
  | none => .error (.notFound "lease not found")
  | some lease =>
    .ok { m with
      byId := m.byId.insert id { lease with finalizers := lease.finalizers ++ [.extra f] } }

/-! ## Retiring -/

/-- The index by process without a guard, and the processes that have lost their last guard and are
not watched from outside. -/
def unindex (m : Manager φ) (guard : UInt64) (g : GuardRec) (pids : List Int32) :
    (AList fun _ : Int32 => List UInt64) × List Int32 :=
  if g.kind = .pidLiveness ∧ g.pid > 0 then
    match m.pidIndex.lookup g.pid with
    | none => (m.pidIndex, pids)
    | some guards =>
      let guards := guards.filter (· ≠ guard)
      if guards = [] then
        (m.pidIndex.erase g.pid, if g.pid ∈ m.externalPidWatches then pids else pids ++ [g.pid])
      else (m.pidIndex.insert g.pid guards, pids)
  else (m.pidIndex, pids)

/-- One round of the loop over the guards of a lease that is retired. -/
def dropGuard (state : Manager φ × List Int32) (guard : UInt64) : Manager φ × List Int32 :=
  let (m, pids) := state
  match m.guardById.lookup guard with
  | none => state
  | some g =>
    let (pidIndex, pids) := m.unindex guard g pids
    ({ m with pidIndex, guardById := m.guardById.erase guard }, pids)

/-- The counts without a lease. -/
def uncount (m : Manager φ) (lease : LeaseRec φ) : Manager φ :=
  match lease.kind with
  | .use => m.decUse lease.subj
  | .placement => m.decPin lease.subj
  | .commit | .retention => m

/-- The section of `retire_lease_`, with the processes that are to be unwatched. -/
def retireLease (m : Manager φ) (lease : LeaseRec φ) : Manager φ × List Int32 :=
  let (m, pids) := lease.guards.foldl dropGuard (m.uncount lease, [])
  ({ m with byId := m.byId.erase lease.id }, pids)

def findUseLease (m : Manager φ) (order : IdOrder) (subj : ReplicaKey) (pid : Int32) :
    Option UInt64 :=
  (order.order m.byId.keys).find? fun id =>
    (m.byId.lookup id).any fun lease =>
      lease.kind = .use ∧ lease.pid = pid ∧ lease.subj = subj

/-- The leases that are bound to a process. -/
def leasesOfPid (m : Manager φ) (order : IdOrder) (pid : Int32) : List UInt64 :=
  (order.order m.byId.keys).filter fun id => (m.byId.lookup id).any fun lease => lease.pid = pid

def releaseSession (m : Manager φ) (sid : String) : Option (Manager φ) :=
  match m.sessionBySid.lookup sid with
  | none => none
  | some guard =>
    some { m with
      sessionBySid := m.sessionBySid.erase sid
      sessionGuardById := m.sessionGuardById.erase guard }

/-! ## Expiry and exits -/

/-- What the loop over the deadlines that have come has found. -/
structure Collected (φ : Type) where
  manager : Manager φ
  toRetire : List UInt64 := []
  sessionsToErase : List String := []

/-- One round of that loop.  An entry of another generation is stale. -/
def collect (c : Collected φ) (due : Due) : Collected φ :=
  match c.manager.sessionGuardById.lookup due.guard with
  | some sg =>
    if sg.generation ≠ due.generation then c
    else
      { c with
        manager :=
          { c.manager with
            sessionBySid := c.manager.sessionBySid.erase sg.sid
            sessionGuardById := c.manager.sessionGuardById.erase due.guard }
        sessionsToErase := c.sessionsToErase ++ [sg.sid] }
  | none =>
    match c.manager.guardById.lookup due.guard with
    | none => c
    | some g =>
      if g.generation ≠ due.generation then c
      else { c with toRetire := c.toRetire ++ [g.lease] }

/-- The section of `expire_due`: takes the entries that have come off the heap. -/
def expireDue (m : Manager φ) (now : Time) : Collected φ :=
  (m.deadlines.filter (·.when ≤ now)).foldl collect
    { manager := { m with deadlines := m.deadlines.filter fun due => ¬ due.when ≤ now } }

/-- The first section of `handle_pid_exit`: the guards, whose watches from outside are dropped. -/
def dropExternalWatches (m : Manager φ) (pid : Int32) : Manager φ :=
  { m with externalPidWatches := m.externalPidWatches.erase pid }

def leasesOfGuards (m : Manager φ) (guards : List UInt64) : List UInt64 :=
  (guards.filterMap fun guard => (m.guardById.lookup guard).map (·.lease)).dedup

/-! ## Watches from outside -/

def watchPid (m : Manager φ) (pid : Int32) : Manager φ :=
  { m with
    externalPidWatches :=
      m.externalPidWatches.insert pid ((m.externalPidWatches.lookup pid).getD 0 + 1) }

/-- Returns also whether the monitor is told; it is not while guards of the process remain. -/
def unwatchPid (m : Manager φ) (pid : Int32) : Manager φ × Bool :=
  match m.externalPidWatches.lookup pid with
  | none => (m, false)
  | some n =>
    if n > 1 then
      ({ m with externalPidWatches := m.externalPidWatches.insert pid (n - 1) }, false)
    else
      ({ m with externalPidWatches := m.externalPidWatches.erase pid }, pid ∉ m.pidIndex)

end Manager

end TensorCast.Sessions
