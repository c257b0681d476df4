import TensorCast.Sessions.Edits

/-!
# Callbacks are run at most once

The creator of a lease hands callbacks to the manager, which become finalizers of the lease and are
run when it is retired.  No action makes a second copy of one.  Callbacks may be lost, since a lease
whose id was drawn before takes the place of the other.
-/

namespace TensorCast.Sessions

open Core Lifecycle Lib Manager List Multiset
open Authority (ReplicaKey)
open Binding (Duration)

variable {φ : Type} {w w' : World φ} {a : Action φ} {more : List (Action φ)} {m m' : Manager φ}
  {leaseRenewal : UInt64 → Option Renewal} {sessionRenewal : String → Option Renewal}

def Finalizer.callback? : Finalizer φ → Option φ
  | .extra f => some f
  | _ => none

def LeaseRec.callbacks (lease : LeaseRec φ) : Multiset φ :=
  (lease.finalizers.filterMap Finalizer.callback? : List φ)

/-- The callbacks of the leases in the table. -/
def Manager.callbacks (m : Manager φ) : Multiset φ := ((values m.byId).map LeaseRec.callbacks).sum

def Action.runs : Action φ → Option φ
  | .finalize _ f => f.callback?
  | _ => none

def Action.handsOver : Action φ → List φ
  | .createUseLease _ _ extra | .createTtlUseLease _ _ _ extra | .createPlacementLease _ _ extra
  | .createRetentionLease _ extra => extra
  | .addFinalizer _ f => [f]
  | _ => []

/-- Every lease is in the table under its own id. -/
def Manager.Labelled (m : Manager φ) : Prop :=
  ∀ id lease, m.byId.lookup id = some lease → lease.id = id

lemma filterMap_callback_map (extra : List φ) :
    (extra.map Finalizer.extra).filterMap Finalizer.callback? = extra := by
  rw [List.filterMap_map]
  exact filterMap_some

lemma LeaseRec.callbacks_append (lease : LeaseRec φ) (f : φ) :
    LeaseRec.callbacks { lease with finalizers := lease.finalizers ++ [.extra f] } =
      lease.callbacks + {f} := by
  rw [callbacks, filterMap_append]
  rfl

namespace Manager

variable {lease : LeaseRec φ}

lemma callbacks_erase {id : UInt64} (h : m.byId.lookup id = some lease) :
    m.callbacks = lease.callbacks + ((values (m.byId.erase id)).map LeaseRec.callbacks).sum := by
  rw [callbacks, ((values_erase h).map LeaseRec.callbacks).sum_eq, List.map_cons, List.sum_cons]

lemma sum_callbacks_erase_le (m : Manager φ) (id : UInt64) :
    ((values (m.byId.erase id)).map LeaseRec.callbacks).sum ≤ m.callbacks := by
  cases h : m.byId.lookup id with
  | none =>
    have herase : m.byId.erase id = m.byId :=
      AList.ext (kerase_of_notMem_keys (AList.lookup_eq_none.mp h))
    rw [herase]
    rfl
  | some lease =>
    rw [callbacks_erase h]
    exact le_add_left _ _

lemma callbacks_insert {id : UInt64} (hbyId : m'.byId = m.byId.insert id lease) :
    m'.callbacks = lease.callbacks + ((values (m.byId.erase id)).map LeaseRec.callbacks).sum := by
  rw [callbacks, hbyId, ((values_insert m.byId id lease).map LeaseRec.callbacks).sum_eq, List.map_cons,
    List.sum_cons]

lemma Enters.callbacks_le (h : Enters m m' lease) :
    m'.callbacks ≤ m.callbacks + lease.callbacks := by
  rw [callbacks_insert h.byId, add_comm]
  exact Multiset.add_le_add_iff_right.mpr (sum_callbacks_erase_le m lease.id)

end Manager

/-- What an action does to the table of the leases. -/
inductive Action.Turns (a : Action φ) (m m' : Manager φ) : Prop
  | same (h : m'.byId = m.byId)
  | enter (lease : LeaseRec φ) (h : Manager.Enters m m' lease)
      (hcallbacks : lease.callbacks = (a.handsOver : Multiset φ))
  | append (id : UInt64) (f : φ) (lease : LeaseRec φ) (hlookup : m.byId.lookup id = some lease)
      (h : m'.byId = m.byId.insert id { lease with finalizers := lease.finalizers ++ [.extra f] })
      (hf : a.handsOver = [f])
  | retire (id : UInt64) (lease : LeaseRec φ) (ha : a = .retireLease id)
      (hlookup : m.byId.lookup id = some lease) (h : m'.byId = m.byId.erase lease.id)

lemma callbacks_of_finalizers {lease : LeaseRec φ} {extra : List φ} {last : List (Finalizer φ)}
    (h : lease.finalizers = extra.map .extra ++ last)
    (hlast : last.filterMap Finalizer.callback? = []) :
    lease.callbacks = (extra : Multiset φ) := by
  rw [LeaseRec.callbacks, h, filterMap_append, filterMap_callback_map, hlast, append_nil]

lemma Action.creates_callbacks {result : Manager φ × LeaseRec φ} (h : a.creates w = some result) :
    result.2.callbacks = (a.handsOver : Multiset φ) := by
  cases a <;> cases h
  case createRetentionLease => exact callbacks_of_finalizers (append_nil _).symm rfl
  case createCommitLease => rfl
  all_goals exact callbacks_of_finalizers rfl rfl

lemma Edit.turns (h : Edit w a m' leaseRenewal sessionRenewal) : a.Turns w.manager m' := by
  have hcreate {result : Manager φ × LeaseRec φ} (hc : a.creates w = some result) :
      a.Turns w.manager result.1 :=
    .enter result.2 (Action.creates_enters hc) (Action.creates_callbacks hc)
  cases h with
  | same => exact .same rfl
  | createUseLease | createTtlUseLease | createPlacementLease | createRetentionLease
  | createCommitLease => exact hcreate rfl
  | keepaliveSession sid ttl =>
    refine .same ?_
    rw [Manager.keepaliveSession]
    cases w.manager.sessionBySid.lookup sid with
    | none => rfl
    | some id => rfl
  | renewPlacement id ttl lease hlookup =>
    obtain ⟨guardById, deadlines, hm'⟩ :=
      Manager.foldl_renewGuard_shape (deadlineAt w.now ttl) lease.guards w.manager
    exact .same (by rw [hm'])
  | addFinalizer id f lease hlookup => exact .append id f lease hlookup rfl rfl
  | releaseSession sid guard hlookup => exact .same rfl
  | expireDue now order =>
    obtain ⟨deadlines, _, sessionBySid, hm'⟩ :=
      Manager.expireDue_shape w.manager now
    exact .same (by rw [hm'])
  | watches => exact .same rfl
  | retireLease id lease hlookup =>
    obtain ⟨_, guardById, hm'⟩ := Manager.retireLease_shape w.manager lease
    exact .retire id lease rfl hlookup (by rw [hm'])

/-- The action has nothing to do with callbacks. -/
def Action.Quiet (a : Action φ) : Prop := a.runs = none ∧ a.handsOver = []

lemma act_quiet (h : act a w = some (w', more)) :
    (∀ b ∈ more, b.Quiet) ∨
      ∃ id lease pids, a = .retireLease id ∧ w.manager.byId.lookup id = some lease ∧
        w'.manager = (w.manager.retireLease lease).1 ∧
        more = lease.finalizers.map (.finalize id) ++ [.unwatchRetired pids] := by
  rcases act_more h with htame | ⟨id, lease, rfl, hlookup, hm', rfl⟩ | ⟨pids, -, rfl⟩
  · refine .inl fun b hb => ?_
    have := htame b hb
    cases b <;> first | exact ⟨rfl, rfl⟩ | cases this
  · exact .inr ⟨id, lease, _, rfl, hlookup, hm', rfl⟩
  · refine .inl fun b hb => ?_
    obtain ⟨-, -, rfl⟩ := mem_map.mp hb
    exact ⟨rfl, rfl⟩

lemma act_handsOver (h : act a w = some (w', more)) : ∀ b ∈ more, b.handsOver = [] := by
  rcases act_quiet h with hquiet | ⟨id, lease, pids, -, -, -, rfl⟩
  · exact fun b hb => (hquiet b hb).2
  · exact forall_mem_append.mpr ⟨forall_mem_map.mpr fun f _ => rfl, forall_mem_singleton.mpr rfl⟩

lemma filterMap_runs_finalize (id : UInt64) (finalizers : List (Finalizer φ)) (pids : List Int32) :
    (finalizers.map (Action.finalize id) ++ [Action.unwatchRetired pids]).filterMap Action.runs =
      finalizers.filterMap Finalizer.callback? := by
  rw [filterMap_append, List.filterMap_map]
  exact append_nil _

/-- An action makes no second copy of a callback. -/
theorem act_callbacks (hm : w.manager.Labelled) (h : act a w = some (w', more)) :
    w'.manager.callbacks + (more.filterMap Action.runs : List φ) ≤
      w.manager.callbacks + (a.handsOver : Multiset φ) := by
  rcases act_quiet h with hquiet | ⟨id, lease, pids, rfl, hlookup, hmanager, rfl⟩
  · rw [filterMap_eq_nil_iff.mpr fun b hb => (hquiet b hb).1, coe_nil, add_zero]
    cases (act_edit h).turns with
    | same hbyId =>
      rw [callbacks, hbyId]
      exact le_add_right _ _
    | enter lease henter hcallbacks =>
      rw [← hcallbacks]
      exact henter.callbacks_le
    | append id f lease hlookup hbyId hf =>
      rw [callbacks_insert hbyId, LeaseRec.callbacks_append, hf,
        callbacks_erase hlookup, add_right_comm]
      rfl
    | retire id lease ha hlookup hbyId =>
      rw [callbacks, hbyId]
      exact (sum_callbacks_erase_le _ _).trans (le_add_right _ _)
  · -- the callbacks of the retired lease leave the table and are run
    obtain ⟨_, _, hm'⟩ := retireLease_shape w.manager lease
    rw [filterMap_runs_finalize, hmanager, hm', callbacks_erase hlookup,
      ← hm id lease hlookup, add_comm]
    exact le_add_right _ _

/-- Every lease stays under its own id. -/
lemma Manager.Labelled.act (hm : w.manager.Labelled) (h : Sessions.act a w = some (w', more)) :
    w'.manager.Labelled := by
  intro id lease hlookup
  cases (act_edit h).turns with
  | same hbyId => exact hm id lease (hbyId ▸ hlookup)
  | enter lease' henter hcallbacks =>
    rw [henter.byId] at hlookup
    rcases lookup_insert_cases hlookup with ⟨rfl, rfl⟩ | ⟨-, hlookup⟩
    · rfl
    · exact hm id lease hlookup
  | append id' f lease' hlookup' hbyId hf =>
    rw [hbyId] at hlookup
    rcases lookup_insert_cases hlookup with ⟨rfl, rfl⟩ | ⟨-, hlookup⟩
    · exact hm id lease' hlookup'
    · exact hm id lease hlookup
  | retire id' lease' ha hlookup' hbyId =>
    rw [hbyId] at hlookup
    exact hm id lease (lookup_erase_cases hlookup).2

end TensorCast.Sessions
