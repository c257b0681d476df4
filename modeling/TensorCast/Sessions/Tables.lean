import TensorCast.Lib.Values
import TensorCast.Lib.Word
import TensorCast.Sessions.Operations

/-!
# The tables of the leases

The table of the guards and the index by process hold the guards of the leases in the table of the
leases, and nothing else.  A section that creates or retires a lease enters or drops the guards one by
one, so the agreement of the tables is stated with the guards that are loose: those of a lease which
is not in the table yet or not any more.
-/

namespace TensorCast.Sessions

open Core Lifecycle Lib List AList
open Function (update)
open Authority (ReplicaKey DeviceRegistry)
open Binding (Duration)
open Nat (lt_succ_self lt_succ_of_lt lt_of_succ_lt le_succ)

variable {φ : Type}

namespace Manager

variable {m : Manager φ} {owner guard : UInt64} {loose : List UInt64} {pid : Int32}

/-- The tables agree, up to some guards of a lease that is not in the table. -/
structure Indexed (m : Manager φ) (owner : UInt64) (loose : List UInt64) : Prop where
  lease_id : ∀ id lease, m.byId.lookup id = some lease → lease.id = id
  nodup : ∀ id lease, m.byId.lookup id = some lease → lease.guards.Nodup
  guarded : ∀ id lease, m.byId.lookup id = some lease → ∀ guard ∈ lease.guards,
    ∃ g, m.guardById.lookup guard = some g ∧ g.lease = id
  loose_guarded : ∀ guard ∈ loose, ∃ g, m.guardById.lookup guard = some g ∧ g.lease = owner
  absent : loose ≠ [] → owner ∉ m.byId
  held : ∀ guard g, m.guardById.lookup guard = some g →
    (∃ lease, m.byId.lookup g.lease = some lease ∧ guard ∈ lease.guards) ∨
      g.lease = owner ∧ guard ∈ loose
  guard_lt : ∀ guard ∈ m.guardById, guard.toNat < m.nextGuardId.toNat

lemma addGuard_eq {g : GuardRec} (hfresh : g.id ∉ m.guardById) :
    m.addGuard g = { m with
      nextGuardId := m.nextGuardId + 1, guardById := m.guardById.insert g.id g } := by
  rw [addGuard, if_neg hfresh]

namespace Indexed

lemma empty : Indexed ({} : Manager φ) owner [] where
  lease_id _ _ h := nomatch h
  nodup _ _ h := nomatch h
  guarded _ _ h := nomatch h
  loose_guarded := nofun
  absent hne := absurd rfl hne
  held _ _ h := nomatch h
  guard_lt _ h := nomatch h

lemma nextGuardId_fresh (h : m.Indexed owner loose) : m.nextGuardId ∉ m.guardById :=
  fun hmem => lt_irrefl _ (h.guard_lt _ hmem)

lemma holder (h : m.Indexed owner []) {g : GuardRec} (hg : m.guardById.lookup guard = some g) :
    ∃ lease, m.byId.lookup g.lease = some lease ∧ guard ∈ lease.guards :=
  (h.held guard g hg).resolve_right fun hloose => not_mem_nil hloose.2

lemma change_owner (h : m.Indexed owner []) (owner' : UInt64) : m.Indexed owner' [] :=
  { h with
    loose_guarded := nofun
    absent := fun hne => absurd rfl hne
    held := fun _ _ hg => .inl (h.holder hg) }

section

variable (h : m.Indexed owner loose)

include h

section

variable (hfree : owner ∉ m.byId)

include hfree

lemma addGuard {g : GuardRec} (hid : g.id = m.nextGuardId) (hlease : g.lease = owner)
    (hroom : m.nextGuardId.toNat + 1 < 2 ^ 64) :
    (m.addGuard g).Indexed owner (loose ++ [g.id]) := by
  have hfresh : g.id ∉ m.guardById := hid ▸ h.nextGuardId_fresh
  rw [addGuard_eq hfresh]
  constructor
  case lease_id => exact h.lease_id
  case nodup => exact h.nodup
  case guarded =>
    intro id lease hlookup guard hguard
    obtain ⟨g', hg', hlease'⟩ := h.guarded id lease hlookup guard hguard
    exact ⟨g', lookup_insert_of_new hfresh hg', hlease'⟩
  case loose_guarded =>
    refine forall_mem_append.mpr ⟨fun guard hloose => ?_, forall_mem_singleton.mpr
      ⟨g, lookup_insert _, hlease⟩⟩
    obtain ⟨g', hg', hlease'⟩ := h.loose_guarded guard hloose
    exact ⟨g', lookup_insert_of_new hfresh hg', hlease'⟩
  case absent => exact fun _ => hfree
  case held =>
    refine forall_lookup_insert (.inr ⟨hlease, mem_append_right _ (mem_singleton_self _)⟩) ?_
    intro guard g' hg'
    exact (h.held guard g' hg').imp_right (.imp_right (mem_append_left _))
  case guard_lt =>
    intro guard hguard
    rw [toNat_succ hroom]
    rcases (mem_insert _).mp hguard with rfl | hguard
    · rw [hid]
      exact lt_succ_self _
    · exact lt_succ_of_lt (h.guard_lt guard hguard)

end

lemma enterLease {lease : LeaseRec φ} {counters : ReplicaKey → Option Counts}
    (hid : lease.id = owner) (hguards : lease.guards = loose) (hnodup : loose.Nodup)
    (hfresh : owner ∉ m.byId) : Indexed { m.enterLease lease with counters } owner [] := by
  subst hid
  constructor
  case lease_id => exact forall_lookup_insert rfl h.lease_id
  case nodup => exact forall_lookup_insert (by rwa [hguards]) h.nodup
  case guarded => exact forall_lookup_insert (hguards ▸ h.loose_guarded) h.guarded
  case loose_guarded => nofun
  case absent => exact fun hne => absurd rfl hne
  case held =>
    intro guard g hg
    refine .inl ?_
    rcases h.held guard g hg with ⟨lease', hlookup, hguard⟩ | ⟨howner, hloose⟩
    · exact ⟨lease', lookup_insert_of_new hfresh hlookup, hguard⟩
    · rw [howner]
      exact ⟨lease, lookup_insert _, hguards.symm ▸ hloose⟩
  case guard_lt => exact h.guard_lt

end

/-- A lease leaves the table, and its guards are loose. -/
lemma eraseLease (h : m.Indexed owner []) {id : UInt64} {lease : LeaseRec φ}
    (hlookup : m.byId.lookup id = some lease) :
    Indexed { m with byId := m.byId.erase id } id lease.guards where
  __ := h
  lease_id id' lease' hl := h.lease_id id' lease' (lookup_erase_cases hl).2
  nodup id' lease' hl := h.nodup id' lease' (lookup_erase_cases hl).2
  guarded id' lease' hl := h.guarded id' lease' (lookup_erase_cases hl).2
  loose_guarded := h.guarded id lease hlookup
  absent _ hmem := (mem_erase.mp hmem).1 rfl
  held guard g hg := by
    obtain ⟨lease', hlookup', hguard⟩ := h.holder hg
    rcases eq_or_ne g.lease id with hid | hne
    · rw [hid, hlookup] at hlookup'
      cases hlookup'
      exact .inr ⟨hid, hguard⟩
    · exact .inl ⟨lease', (lookup_erase_ne hne).trans hlookup', hguard⟩

lemma drop_guard (h : m.Indexed owner (guard :: loose)) (hnew : guard ∉ loose)
    (pidIndex : AList fun _ : Int32 => List UInt64) :
    Indexed { m with pidIndex, guardById := m.guardById.erase guard } owner loose where
  __ := h
  guarded id lease hl guard' hguard' := by
    obtain ⟨g, hg, hlease⟩ := h.loose_guarded guard mem_cons_self
    obtain ⟨g', hg', hid⟩ := h.guarded id lease hl guard' hguard'
    have hne : guard' ≠ guard := by
      -- its lease is not in the table
      rintro rfl
      cases hg'.symm.trans hg
      refine h.absent (cons_ne_nil _ _) ?_
      rw [← hlease, hid]
      exact mem_of_lookup hl
    exact ⟨g', (lookup_erase_ne hne).trans hg', hid⟩
  loose_guarded guard' hguard' := by
    obtain ⟨g', hg', hid⟩ := h.loose_guarded guard' (mem_cons_of_mem _ hguard')
    have hne : guard' ≠ guard := fun he => hnew (he ▸ hguard')
    exact ⟨g', (lookup_erase_ne hne).trans hg', hid⟩
  absent _ := h.absent (cons_ne_nil _ _)
  held guard' g' hg' := by
    obtain ⟨hne, hg'⟩ := lookup_erase_cases hg'
    refine (h.held guard' g' hg').imp_right fun ⟨howner, hloose⟩ => ⟨howner, ?_⟩
    exact (mem_cons.mp hloose).resolve_left hne
  guard_lt guard' hguard' := h.guard_lt guard' (mem_erase.mp hguard').2

lemma dropGuard (h : m.Indexed owner (guard :: loose)) (hnew : guard ∉ loose)
    (pids : List Int32) : (Manager.dropGuard (m, pids) guard).1.Indexed owner loose := by
  obtain ⟨g, hg, -⟩ := h.loose_guarded guard mem_cons_self
  simp only [Manager.dropGuard, hg]
  exact h.drop_guard hnew _

section

variable (h : m.Indexed owner loose)

include h

lemma foldl_dropGuard (hnodup : loose.Nodup) (pids : List Int32) :
    (loose.foldl Manager.dropGuard (m, pids)).1.Indexed owner [] := by
  induction loose generalizing m pids with
  | nil => exact h
  | cons guard loose ih =>
    rw [nodup_cons] at hnodup
    exact ih (h.dropGuard hnodup.1 pids) hnodup.2 _

lemma congr {m' : Manager φ} (hbyId : m'.byId = m.byId) (hguards : m'.guardById = m.guardById)
    (hnext : m.nextGuardId.toNat ≤ m'.nextGuardId.toNat) : m'.Indexed owner loose := by
  constructor
  case lease_id => exact hbyId ▸ h.lease_id
  case nodup => exact hbyId ▸ h.nodup
  case guarded => exact hbyId ▸ hguards ▸ h.guarded
  case loose_guarded => exact hguards ▸ h.loose_guarded
  case absent => exact hbyId ▸ h.absent
  case held => exact hbyId ▸ hguards ▸ h.held
  case guard_lt => exact hguards ▸ fun guard hguard => (h.guard_lt guard hguard).trans_le hnext

lemma relabel_guard {g g' : GuardRec}
    (hg : m.guardById.lookup guard = some g) (hlease : g'.lease = g.lease) :
    Indexed { m with guardById := m.guardById.insert guard g' } owner loose := by
  have hcases {other : UInt64} {found : GuardRec}
      (hfound : (m.guardById.insert guard g').lookup other = some found) :
      ∃ old, m.guardById.lookup other = some old ∧ found.lease = old.lease := by
    rcases lookup_insert_cases hfound with ⟨rfl, rfl⟩ | ⟨-, hfound⟩
    · exact ⟨g, hg, hlease⟩
    · exact ⟨found, hfound, rfl⟩
  have hback {other : UInt64} {old : GuardRec} (hold : m.guardById.lookup other = some old) :
      ∃ found, (m.guardById.insert guard g').lookup other = some found ∧
        found.lease = old.lease := by
    rcases eq_or_ne other guard with rfl | hne
    · cases hold.symm.trans hg
      exact ⟨g', lookup_insert _, hlease⟩
    · exact ⟨old, (lookup_insert_ne hne).trans hold, rfl⟩
  refine { h with guarded := ?guarded, loose_guarded := ?loose, held := ?held, guard_lt := ?lt }
  case guarded =>
    intro id lease hlookup other hother
    obtain ⟨old, hold, hid⟩ := h.guarded id lease hlookup other hother
    obtain ⟨found, hfound, hsame⟩ := hback hold
    exact ⟨found, hfound, hsame.trans hid⟩
  case loose =>
    intro other hother
    obtain ⟨old, hold, hid⟩ := h.loose_guarded other hother
    obtain ⟨found, hfound, hsame⟩ := hback hold
    exact ⟨found, hfound, hsame.trans hid⟩
  case held =>
    intro other found hfound
    obtain ⟨old, hold, hsame⟩ := hcases hfound
    rw [hsame]
    exact h.held other old hold
  case lt =>
    intro other hother
    rcases (mem_insert _).mp hother with rfl | hold
    · exact h.guard_lt other (mem_of_lookup hg)
    · exact h.guard_lt other hold

lemma renewGuard (deadline : Time) (guard : UInt64) :
    (Manager.renewGuard deadline m guard).Indexed owner loose := by
  rw [Manager.renewGuard]
  cases hg : m.guardById.lookup guard with
  | none => exact h
  | some g =>
    dsimp only
    split_ifs with hkind
    · have hrelabel : Indexed { m with
          guardById := m.guardById.insert guard
            { g with generation := g.generation + 1, deadline } } owner loose :=
        h.relabel_guard hg rfl
      exact { hrelabel with }
    · exact h

lemma foldl_renewGuard (deadline : Time) (guards : List UInt64) :
    (guards.foldl (Manager.renewGuard deadline) m).Indexed owner loose := by
  induction guards generalizing m with
  | nil => exact h
  | cons guard guards ih => exact ih (h.renewGuard deadline guard)

end

lemma relabel (h : m.Indexed owner []) {id : UInt64} {lease lease' : LeaseRec φ}
    (hlookup : m.byId.lookup id = some lease) (hid : lease'.id = lease.id)
    (hguards : lease'.guards = lease.guards) :
    Indexed { m with byId := m.byId.insert id lease' } owner [] := by
  have hcases {id' : UInt64} {found : LeaseRec φ}
      (hfound : (m.byId.insert id lease').lookup id' = some found) :
      ∃ old, m.byId.lookup id' = some old ∧ found.id = old.id ∧ found.guards = old.guards := by
    rcases lookup_insert_cases hfound with ⟨rfl, rfl⟩ | ⟨-, hfound⟩
    · exact ⟨lease, hlookup, hid, hguards⟩
    · exact ⟨found, hfound, rfl, rfl⟩
  constructor
  case lease_id =>
    intro id' found hfound
    obtain ⟨old, hold, hold_id, -⟩ := hcases hfound
    exact hold_id.trans (h.lease_id id' old hold)
  case nodup =>
    intro id' found hfound
    obtain ⟨old, hold, -, hold_guards⟩ := hcases hfound
    exact hold_guards ▸ h.nodup id' old hold
  case guarded =>
    intro id' found hfound
    obtain ⟨old, hold, -, hold_guards⟩ := hcases hfound
    exact hold_guards ▸ h.guarded id' old hold
  case loose_guarded => exact h.loose_guarded
  case absent => exact fun hne => absurd rfl hne
  case held =>
    intro guard g hg
    obtain ⟨old, hold, hguard⟩ := h.holder hg
    refine .inl ?_
    rcases eq_or_ne g.lease id with heq | hne
    · rw [heq, hlookup] at hold
      cases hold
      exact ⟨lease', heq ▸ lookup_insert _, hguards ▸ hguard⟩
    · exact ⟨old, (lookup_insert_ne hne).trans hold, hguard⟩
  case guard_lt => exact h.guard_lt

end Indexed

/-! ## Creating and retiring -/

/-- There is room for one more lease and its guards. -/
def Roomy (m : Manager φ) : Prop :=
  m.nextId.toNat + 1 < 2 ^ 64 ∧ m.nextGuardId.toNat + 2 < 2 ^ 64

/-- The ids of the leases in the table have been drawn. -/
def Drawn (m : Manager φ) : Prop := ∀ id ∈ m.byId, id.toNat < m.nextId.toNat

lemma Drawn.nextId_fresh (h : m.Drawn) : m.nextId ∉ m.byId :=
  fun hmem => lt_irrefl _ (h _ hmem)

/-- A guard comes into the tables that go with its kind. -/
def enterGuard (m : Manager φ) (g : GuardRec) : Manager φ :=
  { m.addGuard g with
    pidIndex :=
      if g.kind = .pidLiveness then m.pidIndex.insert g.pid ((m.pidGuards g.pid).insert g.id)
      else m.pidIndex
    deadlines :=
      if g.kind = .deadline then ⟨g.deadline, g.id, g.generation⟩ :: m.deadlines
      else m.deadlines }

/-- The guards of a new lease come into the tables one by one, each under the next id. -/
inductive Guards (lease : LeaseRec φ) : Manager φ → List UInt64 → Manager φ → Prop
  | nil (m : Manager φ) : Guards lease m [] m
  | cons {m m' : Manager φ} {guards : List UInt64} (g : GuardRec) (hid : g.id = m.nextGuardId)
      (hlease : g.lease = lease.id)
      (hpid : g.kind = .pidLiveness →
        g.pid = lease.pid ∧ lease.kind ≠ .placement ∧ lease.kind ≠ .retention)
      (hfresh : m.nextGuardId ∉ m.guardById) (hroom : m.nextGuardId.toNat + 1 < 2 ^ 64)
      (h : Guards lease (m.enterGuard g) guards m') : Guards lease m (g.id :: guards) m'

lemma Indexed.guards {m' : Manager φ} {lease : LeaseRec φ} {guards : List UInt64}
    (hguards : Guards lease m guards m') (h : m.Indexed lease.id loose) (hnodup : loose.Nodup)
    (hfree : lease.id ∉ m.byId) :
    m'.Indexed lease.id (loose ++ guards) ∧ (loose ++ guards).Nodup ∧ lease.id ∉ m'.byId := by
  induction hguards generalizing loose with
  | nil m => simpa using ⟨h, hnodup, hfree⟩
  | cons g hid hlease _ hfresh hroom _ ih =>
    have hnew : g.id ∉ loose := by
      intro hmem
      obtain ⟨_, hg', -⟩ := h.loose_guarded _ hmem
      exact hfresh (hid ▸ mem_of_lookup hg')
    have hadd := h.addGuard hfree hid hlease hroom
    have hrest := ih (hadd.congr rfl rfl le_rfl) (concat_eq_append ▸ hnodup.concat hnew) hfree
    rwa [append_assoc, singleton_append] at hrest

lemma Indexed.keepaliveSession (h : m.Indexed owner loose) (hroom : m.Roomy) (now : ℤ) (sid : String)
    (ttl : Duration) : (m.keepaliveSession now sid ttl).Indexed owner loose := by
  rw [Manager.keepaliveSession]
  cases m.sessionBySid.lookup sid with
  | none =>
    refine h.congr rfl rfl ?_
    change _ ≤ (m.nextGuardId + 1).toNat
    rw [toNat_succ (lt_of_succ_lt hroom.2)]
    exact le_succ _
  | some id => exact h.congr rfl rfl le_rfl

/-! ## Which tables a section writes -/

section Shape

lemma foldl_dropGuard_shape (guards : List UInt64) (m : Manager φ) (pids : List Int32) :
    ∃ pidIndex guardById,
      (guards.foldl dropGuard (m, pids)).1 = { m with pidIndex, guardById } := by
  refine foldlRecOn (b := (m, pids)) (motive := fun state => ∃ pidIndex guardById,
    state.1 = { m with pidIndex, guardById }) guards dropGuard ⟨_, _, rfl⟩ ?_
  rintro ⟨_, pids⟩ ⟨pidIndex, guardById, rfl⟩ guard -
  simp only [dropGuard]
  split <;> exact ⟨_, _, rfl⟩

lemma foldl_renewGuard_shape (deadline : Time) (guards : List UInt64) (m : Manager φ) :
    ∃ guardById deadlines,
      guards.foldl (renewGuard deadline) m = { m with guardById, deadlines } := by
  refine foldlRecOn (b := m) (motive := fun m' => ∃ guardById deadlines,
    m' = { m with guardById, deadlines }) guards _ ⟨_, _, rfl⟩ ?_
  rintro _ ⟨guardById, deadlines, rfl⟩ guard -
  rw [renewGuard]
  split
  · exact ⟨_, _, rfl⟩
  · split_ifs <;> exact ⟨_, _, rfl⟩

lemma foldl_collect_shape (dues : List Due) (c : Collected φ) :
    ∃ sessionGuardById sessionBySid,
      (dues.foldl collect c).manager = { c.manager with sessionGuardById, sessionBySid } := by
  refine foldlRecOn (motive := fun c' => ∃ sessionGuardById sessionBySid,
    c'.manager = { c.manager with sessionGuardById, sessionBySid }) dues collect ⟨_, _, rfl⟩ ?_
  rintro c' ⟨sessionGuardById, sessionBySid, hc'⟩ due -
  rw [collect]
  repeat' split
  all_goals exact ⟨_, _, by rw [hc']⟩

lemma uncount_shape (m : Manager φ) (lease : LeaseRec φ) :
    ∃ counters, m.uncount lease = { m with counters } := by
  rw [uncount]
  cases lease.kind with
  | use =>
    simp only [decUse]
    repeat' split
    all_goals exact ⟨_, rfl⟩
  | placement =>
    simp only [decPin]
    repeat' split
    all_goals exact ⟨_, rfl⟩
  | commit | retention => exact ⟨m.counters, rfl⟩

lemma expireDue_shape (m : Manager φ) (now : Time) :
    ∃ deadlines sessionGuardById sessionBySid,
      (m.expireDue now).manager = { m with deadlines, sessionGuardById, sessionBySid } := by
  obtain ⟨sessionGuardById, sessionBySid, h⟩ := foldl_collect_shape
    (m.deadlines.filter (·.when ≤ now))
    { manager := { m with deadlines := m.deadlines.filter fun due => ¬ due.when ≤ now } }
  exact ⟨_, sessionGuardById, sessionBySid, h⟩

variable {m' : Manager φ}

lemma renewPlacement_shape {now : ℤ} {id : UInt64} {ttl : Duration}
    (h : m.renewPlacement now id ttl = .ok m') :
    ∃ lease, m.byId.lookup id = some lease ∧
      m' = lease.guards.foldl (renewGuard (deadlineAt now ttl)) m := by
  rw [renewPlacement] at h
  split at h
  · cases h
  · rename_i lease hlookup
    split_ifs at h
    exact ⟨lease, hlookup, (Except.ok.inj h).symm⟩

lemma releaseSession_shape {sid : String} (h : m.releaseSession sid = some m') :
    ∃ guard, m.sessionBySid.lookup sid = some guard ∧
      m' = { m with
        sessionBySid := m.sessionBySid.erase sid
        sessionGuardById := m.sessionGuardById.erase guard } := by
  rw [releaseSession] at h
  split at h
  · cases h
  · rename_i guard hlookup
    exact ⟨guard, hlookup, (Option.some_inj.mp h).symm⟩

lemma addFinalizer_shape {id : UInt64} {f : φ} (h : m.addFinalizer id f = .ok m') :
    ∃ lease, m.byId.lookup id = some lease ∧
      m' = { m with
        byId := m.byId.insert id { lease with finalizers := lease.finalizers ++ [.extra f] } } := by
  rw [addFinalizer] at h
  split at h
  · cases h
  · rename_i lease hlookup
    exact ⟨lease, hlookup, (Except.ok.inj h).symm⟩

lemma unwatchPid_shape (m : Manager φ) (pid : Int32) :
    ∃ externalPidWatches, (m.unwatchPid pid).1 = { m with externalPidWatches } := by
  rw [unwatchPid]
  cases m.externalPidWatches.lookup pid with
  | none => exact ⟨m.externalPidWatches, rfl⟩
  | some n =>
    dsimp only
    split_ifs <;> exact ⟨_, rfl⟩

end Shape

section Retire

lemma foldl_dropGuard_byId (guards : List UInt64) (m : Manager φ) (pids : List Int32)
    (byId : AList fun _ : UInt64 => LeaseRec φ) :
    guards.foldl dropGuard ({ m with byId }, pids) =
      ({ (guards.foldl dropGuard (m, pids)).1 with byId }, (guards.foldl dropGuard (m, pids)).2) := by
  induction guards generalizing m pids with
  | nil => rfl
  | cons guard guards ih =>
    have hdrop : dropGuard ({ m with byId }, pids) guard =
        ({ (dropGuard (m, pids) guard).1 with byId }, (dropGuard (m, pids) guard).2) := by
      simp only [dropGuard]
      split <;> rfl
    rw [foldl_cons, hdrop, ih]
    rfl

lemma retireLease_eq (m : Manager φ) (lease : LeaseRec φ) :
    m.retireLease lease =
      lease.guards.foldl dropGuard
        ({ m.uncount lease with byId := m.byId.erase lease.id }, []) := by
  obtain ⟨_, _, hfold⟩ := foldl_dropGuard_shape lease.guards (m.uncount lease) []
  obtain ⟨_, hcount⟩ := uncount_shape m lease
  have hbyId : (lease.guards.foldl dropGuard (m.uncount lease, [])).1.byId = m.byId := by
    rw [hfold, hcount]
  rw [foldl_dropGuard_byId, ← hbyId]
  rfl

lemma retireLease_shape (m : Manager φ) (lease : LeaseRec φ) :
    ∃ pidIndex guardById, (m.retireLease lease).1 =
      { m with
        counters := (m.uncount lease).counters
        byId := m.byId.erase lease.id
        pidIndex
        guardById } := by
  obtain ⟨counters, hcount⟩ := uncount_shape m lease
  rw [retireLease_eq]
  obtain ⟨pidIndex, guardById, hfold⟩ := foldl_dropGuard_shape lease.guards
    { m.uncount lease with byId := m.byId.erase lease.id } []
  exact ⟨pidIndex, guardById, by rw [hfold, hcount]⟩

lemma Indexed.retireLease (h : m.Indexed owner []) {id : UInt64} {lease : LeaseRec φ}
    (hlookup : m.byId.lookup id = some lease) : (m.retireLease lease).1.Indexed owner [] := by
  obtain ⟨_, hcount⟩ := uncount_shape m lease
  have hloose : Indexed { m.uncount lease with byId := m.byId.erase id } id lease.guards :=
    (h.eraseLease hlookup).congr rfl (by rw [hcount]) (by rw [hcount])
  rw [retireLease_eq, h.lease_id id lease hlookup]
  exact (hloose.foldl_dropGuard (h.nodup id lease hlookup) []).change_owner _

end Retire

end Manager

end TensorCast.Sessions
