import TensorCast.Sessions.Tables

/-!
# What an action does to the tables

`Edit` lists the actions that write the tables of the manager, and what each of them writes, together
with the records of the renewals.  An invariant of the tables has to be checked for these edits only.
-/

namespace TensorCast.Sessions

open Core Lifecycle Lib Manager
open Function (update)
open Authority (ReplicaKey DeviceRegistry)
open Binding (Duration)

variable {φ : Type} {w w' : World φ} {a : Action φ} {more : List (Action φ)} {m' : Manager φ}
  {leaseRenewal : UInt64 → Option Renewal} {sessionRenewal : String → Option Renewal}

/-- The tables and the records of the renewals that an action leaves. -/
inductive Edit (w : World φ) : Action φ → Manager φ → (UInt64 → Option Renewal) →
    (String → Option Renewal) → Prop
  | same (a : Action φ) : Edit w a w.manager w.leaseRenewal w.sessionRenewal
  | createUseLease (subj : ReplicaKey) (pid : Int32) (extra : List φ) :
    Edit w (.createUseLease subj pid extra) (w.manager.createUseLease subj pid extra).1
      w.leaseRenewal w.sessionRenewal
  | createTtlUseLease (subj : ReplicaKey) (pid : Int32) (ttl : Duration) (extra : List φ) :
    Edit w (.createTtlUseLease subj pid ttl extra)
      (w.manager.createTtlUseLease w.now subj pid ttl extra).1 w.leaseRenewal w.sessionRenewal
  | createPlacementLease (subj : ReplicaKey) (ttl : Duration) (extra : List φ) :
    Edit w (.createPlacementLease subj ttl extra)
      (w.manager.createPlacementLease w.now subj ttl extra).1 w.leaseRenewal w.sessionRenewal
  | createRetentionLease (ttl : Duration) (finalizers : List φ) :
    Edit w (.createRetentionLease ttl finalizers)
      (w.manager.createRetentionLease w.now ttl finalizers).1 w.leaseRenewal w.sessionRenewal
  | createCommitLease (registry : DeviceRegistry) (artifactId : String) (deviceId pid : Int32) :
    Edit w (.createCommitLease registry artifactId deviceId pid)
      (w.manager.createCommitLease registry artifactId deviceId pid).1 w.leaseRenewal
      w.sessionRenewal
  | keepaliveSession (sid : String) (ttl : Duration) :
    Edit w (.keepaliveSession sid ttl) (w.manager.keepaliveSession w.now sid ttl) w.leaseRenewal
      (update w.sessionRenewal sid (some ⟨w.now, ttl⟩))
  | renewPlacement (id : UInt64) (ttl : Duration) (lease : LeaseRec φ)
      (hlookup : w.manager.byId.lookup id = some lease) :
    Edit w (.renewPlacement id ttl)
      (lease.guards.foldl (renewGuard (deadlineAt w.now ttl)) w.manager)
      (update w.leaseRenewal id (some ⟨w.now, ttl⟩)) w.sessionRenewal
  | addFinalizer (id : UInt64) (f : φ) (lease : LeaseRec φ)
      (hlookup : w.manager.byId.lookup id = some lease) :
    Edit w (.addFinalizer id f)
      { w.manager with
        byId := w.manager.byId.insert id
          { lease with finalizers := lease.finalizers ++ [.extra f] } }
      w.leaseRenewal w.sessionRenewal
  | releaseSession (sid : String) (guard : UInt64)
      (hlookup : w.manager.sessionBySid.lookup sid = some guard) :
    Edit w (.releaseSession sid)
      { w.manager with
        sessionBySid := w.manager.sessionBySid.erase sid
        sessionGuardById := w.manager.sessionGuardById.erase guard }
      w.leaseRenewal w.sessionRenewal
  | expireDue (now : Time) (order : IdOrder) :
    Edit w (.expireDue now order) (w.manager.expireDue now).manager w.leaseRenewal w.sessionRenewal
  | watches (a : Action φ) (externalPidWatches : AList fun _ : Int32 => UInt32) :
    Edit w a { w.manager with externalPidWatches } w.leaseRenewal w.sessionRenewal
  | retireLease (id : UInt64) (lease : LeaseRec φ)
      (hlookup : w.manager.byId.lookup id = some lease) :
    Edit w (.retireLease id) (w.manager.retireLease lease).1 w.leaseRenewal w.sessionRenewal

lemma act_edit (h : act a w = some (w', more)) :
    Edit w a w'.manager w'.leaseRenewal w'.sessionRenewal := by
  cases a <;> simp only [act, World.created, dropExternalWatches, watchPid] at h
  case renewPlacement id ttl =>
    split at h <;> cases h
    · exact .same _
    · obtain ⟨lease, hlookup, rfl⟩ := renewPlacement_shape ‹_›
      exact .renewPlacement id ttl lease hlookup
  case addFinalizer id f =>
    split at h <;> cases h
    · exact .same _
    · obtain ⟨lease, hlookup, rfl⟩ := addFinalizer_shape ‹_›
      exact .addFinalizer id f lease hlookup
  case releaseSession sid =>
    split at h <;> cases h
    · exact .same _
    · obtain ⟨guard, hlookup, rfl⟩ := releaseSession_shape ‹_›
      exact .releaseSession sid guard hlookup
  case unwatchPid pid =>
    obtain ⟨_, _⟩ := unwatchPid_shape w.manager pid
    grind [Edit]
  all_goals grind [Edit]

def Action.writesLeases : Action φ → Bool
  | .createUseLease .. | .createTtlUseLease .. | .createPlacementLease .. | .createRetentionLease ..
  | .createCommitLease .. | .addFinalizer .. | .retireLease _ => true
  | _ => false

lemma Edit.leases (h : Edit w a m' leaseRenewal sessionRenewal) (ha : a.writesLeases = false) :
    (m'.byId = w.manager.byId ∧ m'.nextId = w.manager.nextId) ∧
      m'.counters = w.manager.counters ∧
      m'.monitor = w.manager.monitor ∧ m'.pidIndex = w.manager.pidIndex := by
  cases h with
  | same | releaseSession | watches => simp
  | keepaliveSession sid ttl =>
    rw [Manager.keepaliveSession]
    split <;> simp [Manager.pushDeadline]
  | renewPlacement id ttl lease hlookup =>
    obtain ⟨_, deadlines, hm'⟩ :=
      Manager.foldl_renewGuard_shape (deadlineAt w.now ttl) lease.guards w.manager
    simp [hm']
  | expireDue now order =>
    obtain ⟨deadlines, _, _, hm'⟩ :=
      Manager.expireDue_shape w.manager now
    simp [hm']
  | _ => cases ha

/-! ## What follows an action -/

/-- The actions that follow others, apart from those that end a retirement or unwatch a process. -/
def Action.tame : Action φ → Bool
  | .monitorWatch _ | .retireLease _ | .eraseSession _ | .retirePidGuards _ _ _ | .dropRefs _
  | .dropRef _ _ | .handlePidExit _ _ => true
  | _ => false

lemma act_more (h : act a w = some (w', more)) :
    (∀ b ∈ more, b.tame = true) ∨
      (∃ id lease, a = .retireLease id ∧ w.manager.byId.lookup id = some lease ∧
        w'.manager = (w.manager.retireLease lease).1 ∧
        more = lease.finalizers.map (.finalize id) ++
          [.unwatchRetired (w.manager.retireLease lease).2]) ∨
      ∃ pids, (a = .unwatchRetired pids ∨ ∃ pid, a = .unwatchPid pid ∧ pids = [pid] ∧
        (w.manager.unwatchPid pid).2 = true) ∧ more = pids.map .monitorUnwatch := by
  cases a <;> simp only [act, watchAfter] at h <;> grind [Action.tame]

/-! ## The tables agree -/

/-- The table of the leases and the table of the guards agree. -/
structure Manager.Tabled (m : Manager φ) : Prop where
  indexed : m.Indexed 0 []
  drawn : m.Drawn

/-- No counter of ids is at its end when an id is drawn. -/
def Action.Fits (w : World φ) : Action φ → Prop
  | .createUseLease _ _ _ | .createTtlUseLease _ _ _ _ | .createPlacementLease _ _ _
  | .createRetentionLease _ _ | .createCommitLease _ _ _ _ | .keepaliveSession _ _ =>
    w.manager.Roomy
  | _ => True

namespace Manager

variable {m : Manager φ} {lease : LeaseRec φ}

def count (m : Manager φ) (lease : LeaseRec φ) : Manager φ :=
  match lease.kind with
  | .use => m.incUse lease.subj
  | .placement => m.incPin lease.subj
  | .commit | .retention => m

/-- A lease comes into the table and is counted. -/
structure Enters (m m' : Manager φ) (lease : LeaseRec φ) : Prop where
  id : lease.id = m.nextId
  byId : m'.byId = m.byId.insert lease.id lease
  nextId : m'.nextId = m.nextId + 1
  counters : m'.counters = (m.count lease).counters

lemma Drawn.enter (h : m.Drawn) (he : Enters m m' lease) (hroom : m.Roomy) : m'.Drawn := by
  intro id hid
  rw [he.nextId, toNat_succ hroom.1]
  rw [he.byId, AList.mem_insert] at hid
  rcases hid with rfl | hid
  · rw [he.id]
    exact Nat.lt_succ_self _
  · exact Nat.lt_succ_of_lt (h id hid)

lemma Tabled.retire (h : m.Tabled) {id : UInt64} (hlookup : m.byId.lookup id = some lease) :
    (m.retireLease lease).1.Tabled := by
  refine ⟨h.indexed.retireLease hlookup, ?_⟩
  obtain ⟨_, _, hm'⟩ := retireLease_shape m lease
  rw [hm']
  exact fun id' hid' => h.drawn id' (AList.mem_erase.mp hid').2

lemma Tabled.empty (monitor : Bool) : Tabled ({ monitor } : Manager φ) :=
  ⟨Indexed.empty.congr rfl rfl le_rfl, fun _ hid => nomatch hid⟩

end Manager

/-! ## Creating a lease -/

def Action.creates (w : World φ) : Action φ → Option (Manager φ × LeaseRec φ)
  | .createUseLease subj pid extra => some (w.manager.createUseLease subj pid extra)
  | .createTtlUseLease subj pid ttl extra =>
    some (w.manager.createTtlUseLease w.now subj pid ttl extra)
  | .createPlacementLease subj ttl extra =>
    some (w.manager.createPlacementLease w.now subj ttl extra)
  | .createRetentionLease ttl finalizers =>
    some (w.manager.createRetentionLease w.now ttl finalizers)
  | .createCommitLease registry artifactId deviceId pid =>
    some (w.manager.createCommitLease registry artifactId deviceId pid)
  | _ => none

section

variable {result : Manager φ × LeaseRec φ} (h : a.creates w = some result)

include h

lemma Action.Fits.roomy (hfits : a.Fits w) : w.manager.Roomy := by
  cases a <;> first | exact hfits | cases h

lemma Action.creates_enters : Enters w.manager result.1 result.2 := by
  cases a <;> cases h
  case createPlacementLease =>
    rw [Manager.createPlacementLease]
    split_ifs <;> exact ⟨rfl, rfl, rfl, rfl⟩
  all_goals exact ⟨rfl, rfl, rfl, rfl⟩

lemma act_creates (hact : act a w = some (w', more)) : w' = w ∨ w' = w.created result := by
  cases a <;> cases h <;> unfold act at hact <;> grind

lemma Action.creates_guards (hfits : a.Fits w) (hm : w.manager.Tabled) :
    ∃ mid counters, Guards result.2 w.manager.drawId.1 result.2.guards mid ∧
      result.1 = { mid.enterLease result.2 with counters } := by
  have hroom := hfits.roomy h
  have hfresh := hm.indexed.nextGuardId_fresh
  have hlt := Nat.lt_of_succ_lt hroom.2
  cases a <;> cases h
  case createPlacementLease =>
    rw [Manager.createPlacementLease]
    split_ifs
    · exact ⟨_, _, .cons { id := _, kind := .deadline, lease := _, deadline := _ } rfl rfl nofun
        hfresh hlt (.nil _), rfl⟩
    · exact ⟨_, _, .cons { id := _, kind := .manual, lease := _ } rfl rfl nofun hfresh hlt (.nil _),
        rfl⟩
  case createRetentionLease =>
    exact ⟨_, _, .cons { id := _, kind := .deadline, lease := _, deadline := _ } rfl rfl nofun
      hfresh hlt (.nil _), rfl⟩
  case createTtlUseLease subj pid ttl extra =>
    -- the second guard gets the id after the first
    have hdrawn : w.manager.drawId.1.Indexed w.manager.nextId [] :=
      (hm.indexed.change_owner _).congr rfl rfl le_rfl
    have hnext := (hdrawn.addGuard hm.drawn.nextId_fresh
      (g := { id := w.manager.nextGuardId, kind := .pidLiveness, lease := w.manager.nextId, pid })
      rfl rfl hlt).nextGuardId_fresh
    have hlt' : (w.manager.nextGuardId + 1).toNat + 1 < 2 ^ 64 := by
      rw [toNat_succ hlt]
      exact hroom.2
    exact ⟨_, _, .cons { id := _, kind := .pidLiveness, lease := _, pid } rfl rfl
      (fun _ => ⟨rfl, nofun, nofun⟩) hfresh hlt (.cons
        { id := _, kind := .deadline, lease := _, deadline := _ } rfl rfl nofun hnext hlt'
        (.nil _)), rfl⟩
  all_goals
    exact ⟨_, _, .cons { id := _, kind := .pidLiveness, lease := _, pid := _ } rfl rfl
      (fun _ => ⟨rfl, nofun, nofun⟩) hfresh hlt (.nil _), rfl⟩

lemma Manager.Tabled.creates (hfits : a.Fits w) (hm : w.manager.Tabled) : result.1.Tabled := by
  obtain ⟨_, _, hguards, hresult⟩ := Action.creates_guards h hfits hm
  have he := Action.creates_enters h
  have hdrawn : w.manager.drawId.1.Indexed result.2.id [] :=
    (hm.indexed.change_owner _).congr rfl rfl le_rfl
  obtain ⟨hindexed, hnodup, hfree⟩ := Indexed.guards hguards hdrawn List.nodup_nil
    (he.id ▸ hm.drawn.nextId_fresh)
  refine ⟨?_, hm.drawn.enter he (hfits.roomy h)⟩
  rw [hresult]
  exact (hindexed.enterLease rfl rfl hnodup hfree).change_owner _

end

lemma Edit.tabled (h : Edit w a m' leaseRenewal sessionRenewal) (hfits : a.Fits w)
    (hm : w.manager.Tabled) : m'.Tabled := by
  have hdrawn (ha : a.writesLeases = false) : m'.Drawn := by
    obtain ⟨⟨hbyId, hnext⟩, -⟩ := h.leases ha
    rw [Manager.Drawn, hbyId, hnext]
    exact hm.drawn
  cases h with
  | same => exact hm
  | createUseLease | createTtlUseLease | createPlacementLease | createRetentionLease
  | createCommitLease => exact Manager.Tabled.creates rfl hfits hm
  | keepaliveSession sid ttl =>
    exact ⟨hm.indexed.keepaliveSession hfits w.now sid ttl, hdrawn rfl⟩
  | renewPlacement id ttl lease hlookup =>
    exact ⟨hm.indexed.foldl_renewGuard _ lease.guards, hdrawn rfl⟩
  | addFinalizer id f lease hlookup =>
    refine ⟨hm.indexed.relabel hlookup rfl rfl, fun id' hid' => ?_⟩
    rcases (AList.mem_insert _).mp hid' with rfl | hid'
    · exact hm.drawn id' (mem_of_lookup hlookup)
    · exact hm.drawn id' hid'
  | releaseSession sid guard hlookup => exact ⟨hm.indexed.congr rfl rfl le_rfl, hm.drawn⟩
  | expireDue now order =>
    obtain ⟨_, _, _, hm'⟩ :=
      Manager.expireDue_shape w.manager now
    exact ⟨hm' ▸ hm.indexed.congr rfl rfl le_rfl, hdrawn rfl⟩
  | watches => exact ⟨hm.indexed.congr rfl rfl le_rfl, hm.drawn⟩
  | retireLease id lease hlookup => exact hm.retire hlookup

end TensorCast.Sessions
