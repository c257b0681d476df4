import TensorCast.Sessions.Edits

/-!
# Accounting for the leases

The counts of uses and pins, the two indices of the guards, and the finalizers have to agree with the
table of the leases.  A finalizer is in the table as long as its lease is, then it is owed by the call
that has retired the lease, and then it has been run.
-/

namespace TensorCast.Sessions

open Core Lifecycle Lib Manager List Multiset Option AList Int
open Function (update)
open Authority (ReplicaKey DeviceRegistry)
open Binding (Duration)

variable {φ : Type}

/-! ## The index by process -/

namespace Manager

variable {m m' : Manager φ} {guard : UInt64} {pid : Int32}

/-- The index by process holds the guards on processes. -/
structure ByPid (m : Manager φ) : Prop where
  mem_pidGuards : ∀ pid guard, guard ∈ m.pidGuards pid ↔
    ∃ g, m.guardById.lookup guard = some g ∧ g.kind = .pidLiveness ∧ g.pid = pid
  pidGuards_ne_nil : ∀ pid guards, m.pidIndex.lookup pid = some guards → guards ≠ []
  pid_pos : ∀ guard g, m.guardById.lookup guard = some g → g.kind = .pidLiveness → 0 < g.pid

lemma ByPid.empty (monitor : Bool) : ByPid ({ monitor } : Manager φ) where
  mem_pidGuards pid guard := by
    constructor
    · exact fun hmem => absurd hmem not_mem_nil
    · rintro ⟨g, hg, -⟩
      exact nomatch hg
  pidGuards_ne_nil _ _ hlookup := nomatch hlookup
  pid_pos _ _ hg := nomatch hg

lemma ByPid.congr (h : m.ByPid) (hguards : m'.guardById = m.guardById)
    (hpids : m'.pidIndex = m.pidIndex) : m'.ByPid := by
  have hpidGuards : m'.pidGuards = m.pidGuards := by
    ext1 pid
    rw [pidGuards, pidGuards, hpids]
  constructor
  case mem_pidGuards => exact hpidGuards ▸ hguards ▸ h.mem_pidGuards
  case pidGuards_ne_nil => exact hpids ▸ h.pidGuards_ne_nil
  case pid_pos => exact hguards ▸ h.pid_pos

variable {g : GuardRec}

section

variable (h : m.ByPid)

include h

lemma ByPid.enterGuard (hfresh : g.id ∉ m.guardById)
    (hpos : g.kind = .pidLiveness → 0 < g.pid) : (m.enterGuard g).ByPid := by
  have hcases {guard : UInt64} {g' : GuardRec} :
      (m.enterGuard g).guardById.lookup guard = some g' ↔
        guard = g.id ∧ g' = g ∨ m.guardById.lookup guard = some g' := by
    rw [Manager.enterGuard, addGuard_eq hfresh]
    rcases eq_or_ne guard g.id with rfl | hne
    · rw [lookup_eq_none.mpr hfresh]
      simp [eq_comm]
    · simp [hne]
  -- the guard comes into the index if it is one on a process
  have hpids (pid : Int32) (guard : UInt64) : guard ∈ (m.enterGuard g).pidGuards pid ↔
      guard ∈ m.pidGuards pid ∨ guard = g.id ∧ g.kind = .pidLiveness ∧ g.pid = pid := by
    rw [pidGuards, Manager.enterGuard]
    by_cases hkind : g.kind = .pidLiveness
    · rcases eq_or_ne pid g.pid with rfl | hne
      · simp [hkind, or_comm]
      · simp [hkind, hne, hne.symm, pidGuards]
    · simp [hkind, pidGuards]
  constructor
  case mem_pidGuards =>
    intro pid guard
    rw [hpids, h.mem_pidGuards]
    constructor
    · rintro (⟨g', hg', hkind, hpid⟩ | ⟨rfl, hkind, hpid⟩)
      · exact ⟨g', hcases.mpr (.inr hg'), hkind, hpid⟩
      · exact ⟨g, hcases.mpr (.inl ⟨rfl, rfl⟩), hkind, hpid⟩
    · rintro ⟨g', hg', hkind, hpid⟩
      rcases hcases.mp hg' with ⟨rfl, rfl⟩ | hg'
      · exact .inr ⟨rfl, hkind, hpid⟩
      · exact .inl ⟨g', hg', hkind, hpid⟩
  case pidGuards_ne_nil =>
    intro pid guards hlookup
    simp only [Manager.enterGuard] at hlookup
    split_ifs at hlookup
    · exact forall_lookup_insert (P := fun _ guards => guards ≠ []) (ne_nil_of_mem mem_insert_self)
        h.pidGuards_ne_nil pid guards hlookup
    · exact h.pidGuards_ne_nil pid guards hlookup
  case pid_pos =>
    intro guard g' hg' hkind
    rcases hcases.mp hg' with ⟨rfl, rfl⟩ | hg'
    · exact hpos hkind
    · exact h.pid_pos guard g' hg' hkind

lemma ByPid.guards {lease : LeaseRec φ} {guards : List UInt64} (hguards : Guards lease m guards m')
    (hpos : lease.kind ≠ .placement → lease.kind ≠ .retention → 0 < lease.pid) : m'.ByPid := by
  induction hguards with
  | nil => exact h
  | cons g hid _ hpid hfresh _ _ ih =>
    refine ih (h.enterGuard (hid ▸ hfresh) fun hkind => ?_)
    obtain ⟨heq, hplacement, hretention⟩ := hpid hkind
    exact heq ▸ hpos hplacement hretention

/-- The index without a guard of a process. -/
lemma ByPid.mem_unindex (hg : m.guardById.lookup guard = some g) (pids : List Int32) (pid :
    Int32) (guard' : UInt64) :
    guard' ∈ ((m.unindex guard g pids).1.lookup pid).getD [] ↔
      guard' ∈ m.pidGuards pid ∧ guard' ≠ guard := by
  by_cases hkind : g.kind = .pidLiveness
  · have hmem : guard ∈ m.pidGuards g.pid := (h.mem_pidGuards _ _).mpr ⟨g, hg, hkind, rfl⟩
    rw [unindex, if_pos ⟨hkind, h.pid_pos guard g hg hkind⟩]
    cases hlookup : m.pidIndex.lookup g.pid with
    | none =>
      rw [pidGuards, hlookup] at hmem
      cases hmem
    | some guards =>
      dsimp only
      rcases eq_or_ne pid g.pid with rfl | hne
      · -- the entry of this process loses the guard, or goes when no other is left
        have hguards : m.pidGuards g.pid = guards := by rw [pidGuards, hlookup, getD_some]
        rw [hguards]
        by_cases hnil : guards.filter (· ≠ guard) = []
        · rw [if_pos hnil, lookup_erase]
          refine ⟨fun hmem' => absurd hmem' not_mem_nil, fun ⟨hmem', hne⟩ => ?_⟩
          exact absurd (List.mem_filter.mpr ⟨hmem', by simpa using hne⟩) (hnil ▸ not_mem_nil)
        · rw [if_neg hnil]
          simp
      · have hsame : guard' ∈ m.pidGuards pid → guard' ≠ guard := by
          rintro hmem' rfl
          obtain ⟨g', hg', -, hpid⟩ := (h.mem_pidGuards _ _).mp hmem'
          cases hg'.symm.trans hg
          exact hne hpid.symm
        by_cases hnil : guards.filter (· ≠ guard) = []
        · rw [if_pos hnil, lookup_erase_ne hne]
          exact ⟨fun hmem' => ⟨hmem', hsame hmem'⟩, And.left⟩
        · rw [if_neg hnil, lookup_insert_ne hne]
          exact ⟨fun hmem' => ⟨hmem', hsame hmem'⟩, And.left⟩
  · rw [unindex, if_neg fun hpid => hkind hpid.1]
    refine ⟨fun hmem' => ⟨hmem', ?_⟩, And.left⟩
    rintro rfl
    obtain ⟨g', hg', hkind', -⟩ := (h.mem_pidGuards _ _).mp hmem'
    exact hkind (some_inj.mp (hg'.symm.trans hg) ▸ hkind')

lemma ByPid.unindex_ne_nil (guard : UInt64) (g : GuardRec)
    (pids : List Int32) (pid : Int32) (guards : List UInt64)
    (hlookup : (m.unindex guard g pids).1.lookup pid = some guards) : guards ≠ [] := by
  rw [unindex] at hlookup
  by_cases hkind : g.kind = .pidLiveness ∧ g.pid > 0
  · rw [if_pos hkind] at hlookup
    cases hfound : m.pidIndex.lookup g.pid with
    | none =>
      rw [hfound] at hlookup
      exact h.pidGuards_ne_nil pid guards hlookup
    | some old =>
      simp only [hfound] at hlookup
      by_cases hnil : old.filter (· ≠ guard) = []
      · rw [if_pos hnil] at hlookup
        exact h.pidGuards_ne_nil pid guards (lookup_erase_cases hlookup).2
      · rw [if_neg hnil] at hlookup
        exact forall_lookup_insert hnil h.pidGuards_ne_nil pid guards hlookup
  · rw [if_neg hkind] at hlookup
    exact h.pidGuards_ne_nil pid guards hlookup

lemma ByPid.dropGuard (pids : List Int32) (guard : UInt64) :
    (Manager.dropGuard (m, pids) guard).1.ByPid := by
  simp only [Manager.dropGuard]
  cases hg : m.guardById.lookup guard with
  | none => exact h
  | some g =>
    have hcases {guard' : UInt64} {g' : GuardRec} :
        (m.guardById.erase guard).lookup guard' = some g' ↔
          guard' ≠ guard ∧ m.guardById.lookup guard' = some g' := by
      rcases eq_or_ne guard' guard with rfl | hne
      · simp
      · simp [hne]
    constructor
    case mem_pidGuards =>
      intro pid guard'
      refine (h.mem_unindex hg pids pid guard').trans ?_
      rw [h.mem_pidGuards]
      constructor
      · rintro ⟨⟨g', hg', hkind⟩, hne⟩
        exact ⟨g', hcases.mpr ⟨hne, hg'⟩, hkind⟩
      · rintro ⟨g', hg', hkind⟩
        obtain ⟨hne, hg'⟩ := hcases.mp hg'
        exact ⟨⟨g', hg', hkind⟩, hne⟩
    case pidGuards_ne_nil => exact h.unindex_ne_nil guard g pids
    case pid_pos => exact fun guard' g' hg' => h.pid_pos guard' g' (hcases.mp hg').2

lemma ByPid.foldl_dropGuard (pids : List Int32) (guards : List UInt64) :
    (guards.foldl Manager.dropGuard (m, pids)).1.ByPid := by
  induction guards generalizing m pids with
  | nil => exact h
  | cons guard guards ih => exact ih (h.dropGuard pids guard) _

lemma ByPid.renewGuard (deadline : Time) (guard : UInt64) :
    (Manager.renewGuard deadline m guard).ByPid := by
  rw [Manager.renewGuard]
  cases hg : m.guardById.lookup guard with
  | none => exact h
  | some g =>
    dsimp only
    split_ifs
    swap
    · exact h
    have hcases {guard' : UInt64} {pid : Int32} :
        (∃ g', (m.guardById.insert guard { g with generation := g.generation + 1, deadline }).lookup
          guard' = some g' ∧ g'.kind = .pidLiveness ∧ g'.pid = pid) ↔
        ∃ g', m.guardById.lookup guard' = some g' ∧ g'.kind = .pidLiveness ∧ g'.pid = pid := by
      rcases eq_or_ne guard' guard with rfl | hne
      · rw [hg]
        simp
      · rw [lookup_insert_ne hne]
    constructor
    case mem_pidGuards => exact fun pid guard' => (h.mem_pidGuards pid guard').trans hcases.symm
    case pidGuards_ne_nil => exact h.pidGuards_ne_nil
    case pid_pos =>
      intro guard' g' hg' hkind
      obtain ⟨old, hold, hkind', hpid⟩ := hcases.mp ⟨g', hg', hkind, rfl⟩
      exact hpid ▸ h.pid_pos guard' old hold hkind'

lemma ByPid.foldl_renewGuard (deadline : Time) (guards : List UInt64) :
    (guards.foldl (Manager.renewGuard deadline) m).ByPid := by
  induction guards generalizing m with
  | nil => exact h
  | cons guard guards ih => exact ih (h.renewGuard deadline guard)

end

end Manager

/-! ## Counts -/

namespace Manager

variable {m m' : Manager φ} {lease : LeaseRec φ} {kind : LeaseKind} {s : ReplicaKey}

/-- The recorded number of leases of a kind on a subject; only uses and pins are recorded. -/
def tally (m : Manager φ) (kind : LeaseKind) (s : ReplicaKey) : ℤ :=
  match kind with
  | .use => ((m.counters s).getD {}).useCount.toInt
  | .placement => ((m.counters s).getD {}).placementPins.toInt
  | .commit | .retention => 0

/-- The number of leases of a kind on a subject. -/
def leaseCount (m : Manager φ) (kind : LeaseKind) (s : ReplicaKey) : ℕ :=
  (values m.byId).countP fun lease => lease.kind = kind ∧ lease.subj = s

def Recorded (kind : LeaseKind) : Prop := kind = .use ∨ kind = .placement

/-- The counts are those of the leases in the table. -/
def Counted (m : Manager φ) : Prop :=
  ∀ kind, Recorded kind → ∀ s, m.tally kind s = m.leaseCount kind s

lemma toInt_succ {c : Int32} (h : c.toInt + 1 < 2 ^ 31) : (c + 1).toInt = c.toInt + 1 := by
  have hle := Int32.le_toInt c
  have hone : (1 : Int32).toInt = 1 := rfl
  rw [Int32.toInt_add]
  exact bmod_eq_of_le (by omega) (by omega)

lemma toInt_pred {c : Int32} (h : 0 < c.toInt) : (c - 1).toInt = c.toInt + -1 := by
  have hlt := Int32.toInt_lt c
  have hone : (1 : Int32).toInt = 1 := rfl
  rw [Int32.toInt_sub]
  exact bmod_eq_of_le (by omega) (by omega)

variable {t : ReplicaKey}

lemma tally_update {c : Counts} {d : ℤ} {kind' : LeaseKind}
    (hc : ∀ kind, Recorded kind → tally { m with counters := fun _ => some c } kind t =
      m.tally kind t + if kind' = kind then d else 0) (hkind : Recorded kind) (s : ReplicaKey) :
    tally { m with counters := update m.counters t (some c) } kind s =
      m.tally kind s + if kind' = kind ∧ t = s then d else 0 := by
  rcases eq_or_ne s t with rfl | hne
  · simpa [tally] using hc kind hkind
  · simp [tally, hne, hne.symm]

lemma tally_count (hroom : m.tally lease.kind lease.subj + 1 < 2 ^ 31) (hkind : Recorded kind)
    (s : ReplicaKey) :
    (m.count lease).tally kind s =
      m.tally kind s + if lease.kind = kind ∧ lease.subj = s then 1 else 0 := by
  rw [count]
  cases hk : lease.kind with
  | use =>
    rw [hk] at hroom
    refine tally_update ?_ hkind s
    rintro _ (rfl | rfl)
    · exact toInt_succ hroom
    · exact (add_zero _).symm
  | placement =>
    rw [hk] at hroom
    refine tally_update ?_ hkind s
    rintro _ (rfl | rfl)
    · exact (add_zero _).symm
    · exact toInt_succ hroom
  | commit | retention => rcases hkind with rfl | rfl <;> simp

lemma exists_counters (h : 0 < m.tally kind t) : ∃ c, m.counters t = some c := by
  cases hc : m.counters t with
  | none => cases kind <;> simp [tally, hc] at h
  | some c => exact ⟨c, rfl⟩

lemma tally_uncount (hpos : Recorded lease.kind → 0 < m.tally lease.kind lease.subj)
    (hkind : Recorded kind) (s : ReplicaKey) :
    (m.uncount lease).tally kind s =
      m.tally kind s + if lease.kind = kind ∧ lease.subj = s then -1 else 0 := by
  rw [uncount]
  cases hk : lease.kind with
  | use =>
    rw [hk] at hpos
    obtain ⟨c, hc⟩ := exists_counters (hpos (.inl rfl))
    have hpos : 0 < c.useCount.toInt := by simpa [tally, hc] using hpos (.inl rfl)
    have hgt : c.useCount > 0 := Int32.lt_iff_toInt_lt.mpr hpos
    simp only [decUse, hc, hgt]
    refine tally_update ?_ hkind s
    rintro _ (rfl | rfl)
    · simpa [tally, hc] using toInt_pred hpos
    · simp [tally, hc]
  | placement =>
    rw [hk] at hpos
    obtain ⟨c, hc⟩ := exists_counters (hpos (.inr rfl))
    have hpos : 0 < c.placementPins.toInt := by simpa [tally, hc] using hpos (.inr rfl)
    have hgt : c.placementPins > 0 := Int32.lt_iff_toInt_lt.mpr hpos
    simp only [decPin, hc, hgt]
    refine tally_update ?_ hkind s
    rintro _ (rfl | rfl)
    · simp [tally, hc]
    · simpa [tally, hc] using toInt_pred hpos
  | commit | retention => rcases hkind with rfl | rfl <;> simp

lemma tally_congr (h : m'.counters = m.counters) : m'.tally = m.tally := by
  ext kind s
  simp only [tally, h]

lemma Counted.enter (h : m.Counted) (hdrawn : m.Drawn) (he : Enters m m' lease)
    (hroom : m.tally lease.kind lease.subj + 1 < 2 ^ 31) : m'.Counted := by
  intro kind hkind s
  have hvalues : values m'.byId = lease :: values m.byId := by
    rw [he.byId, values_insert_new (he.id ▸ hdrawn.nextId_fresh)]
  rw [tally_congr he.counters, tally_count hroom hkind, h kind hkind s, leaseCount, leaseCount,
    hvalues]
  by_cases hmatch : lease.kind = kind ∧ lease.subj = s
  · simp [hmatch]
  · simp [hmatch]

lemma Counted.retire (h : m.Counted) {id : UInt64} (hlookup : m.byId.lookup id = some lease)
    (hid : lease.id = id) : (m.retireLease lease).1.Counted := by
  intro kind hkind s
  obtain ⟨_, _, hm'⟩ := retireLease_shape m lease
  have hcounters : (m.retireLease lease).1.counters = (m.uncount lease).counters := by rw [hm']
  have hbyId : (m.retireLease lease).1.byId = m.byId.erase lease.id := by rw [hm']
  have hperm := values_erase hlookup
  -- the lease itself is counted, so the count does not go below zero
  have hpos : Recorded lease.kind → 0 < m.tally lease.kind lease.subj := by
    intro hrecorded
    rw [h _ hrecorded]
    have hmem : lease ∈ values m.byId := mem_values.mpr ⟨id, hlookup⟩
    exact natCast_pos.mpr (countP_pos_iff.mpr ⟨lease, hmem, decide_eq_true ⟨rfl, rfl⟩⟩)
  rw [tally_congr hcounters, tally_uncount hpos hkind, h kind hkind s, leaseCount, leaseCount, hbyId,
    hid, hperm.countP_eq]
  by_cases hmatch : lease.kind = kind ∧ lease.subj = s
  · simp [hmatch]
  · simp [hmatch]

end Manager

/-! ## Finalizers -/

def ofLease (id : UInt64) (record : List (UInt64 × Finalizer φ)) : Multiset (Finalizer φ) :=
  (record.filterMap fun entry => if entry.1 = id then some entry.2 else none : List (Finalizer φ))

def Action.finalizerOf (id : UInt64) : Action φ → Option (Finalizer φ)
  | .finalize lease f => if lease = id then some f else none
  | _ => none

/-- The finalizers of a lease that calls in progress still have to run. -/
def owed (id : UInt64) (others : Multiset (Action φ)) : Multiset (Finalizer φ) :=
  others.filterMap (Action.finalizerOf id)

section Finalizers

variable {id id' : UInt64} {record : List (UInt64 × Finalizer φ)} {f : Finalizer φ}
  {fs : List (Finalizer φ)} {others : Multiset (Action φ)} {a : Action φ} {more : List (Action φ)}

lemma ofLease_cons_self : ofLease id ((id, f) :: record) = f ::ₘ ofLease id record := by
  simp [ofLease]

lemma ofLease_cons_other (h : id' ≠ id) : ofLease id ((id', f) :: record) = ofLease id record := by
  simp [ofLease, h]

lemma ofLease_append_self :
    ofLease id (fs.map (id, ·) ++ record) = (fs : Multiset (Finalizer φ)) + ofLease id record := by
  induction fs with
  | nil => exact (zero_add _).symm
  | cons f fs ih =>
    rw [List.map_cons, cons_append, ofLease_cons_self, ih, ← cons_coe, cons_add]

lemma ofLease_append_other (h : id' ≠ id) :
    ofLease id (fs.map (id', ·) ++ record) = ofLease id record := by
  induction fs with
  | nil => rfl
  | cons f fs ih => rw [List.map_cons, cons_append, ofLease_cons_other h, ih]

lemma owed_add (more others : Multiset (Action φ)) :
    owed id (more + others) = owed id more + owed id others :=
  filterMap_add _ _ _

lemma owed_cons_finalize : owed id (.finalize id f ::ₘ others) = f ::ₘ owed id others :=
  filterMap_cons_some _ _ _ (if_pos rfl)

lemma owed_cons_other (h : a.finalizerOf id = none) : owed id (a ::ₘ others) = owed id others :=
  filterMap_cons_none _ _ h

lemma owed_eq_zero (h : ∀ a ∈ more, a.finalizerOf id = none) : owed id (more : Multiset (Action φ)) = 0 := by
  rw [owed, filterMap_coe, coe_eq_zero, filterMap_eq_nil_iff]
  exact h

lemma owed_finalizers_self : owed id (fs.map (Action.finalize id) : Multiset (Action φ)) = fs := by
  rw [owed, filterMap_coe, List.filterMap_map]
  have hsome : Action.finalizerOf id ∘ Action.finalize id = (some : Finalizer φ → _) := by
    ext1 f
    exact if_pos rfl
  rw [hsome, List.filterMap_some]

/-- An action that runs no finalizer. -/
def Action.Plain (a : Action φ) : Prop := ∀ id, a.finalizerOf id = none

lemma owed_of_plain (ha : a.Plain) (hmore : ∀ b ∈ more, b.Plain) (id : UInt64)
    (others : Multiset (Action φ)) :
    owed id ((more : Multiset (Action φ)) + others) = owed id (a ::ₘ others) := by
  rw [owed_add, owed_eq_zero fun b hb => hmore b hb id, zero_add, owed_cons_other (ha id)]

end Finalizers

/-- While a lease is in the table, none of its finalizers has been run or is about to be; later each
of them has been run once, or is owed once. -/
structure Settled (w : World φ) (others : Multiset (Action φ)) : Prop where
  live : ∀ id lease, w.manager.byId.lookup id = some lease →
    ofLease id w.registered = lease.finalizers ∧ ofLease id w.ran = 0 ∧ owed id others = 0
  gone : ∀ id, id ∉ w.manager.byId → ofLease id w.registered = ofLease id w.ran + owed id others
  drawn : ∀ entry ∈ w.registered, entry.1.toNat < w.manager.nextId.toNat

namespace Settled

variable {w w' : World φ} {a : Action φ} {others others' : Multiset (Action φ)}
  {more : List (Action φ)}

lemma congr (h : Settled w others)
    (hmanager : w'.manager.byId = w.manager.byId ∧ w'.manager.nextId = w.manager.nextId)
    (hrecords : w'.registered = w.registered ∧ w'.ran = w.ran)
    (howed : ∀ id, owed id others' = owed id others) : Settled w' others' := by
  obtain ⟨hbyId, hnext⟩ := hmanager
  obtain ⟨hregistered, hran⟩ := hrecords
  constructor
  · intro id lease hlookup
    rw [hregistered, hran, howed]
    exact h.live id lease (hbyId ▸ hlookup)
  · intro id hid
    rw [hregistered, hran, howed]
    exact h.gone id (hbyId ▸ hid)
  · rw [hregistered, hnext]
    exact h.drawn

section

variable (h : Settled w (a ::ₘ others)) (ha : a.Plain)

include h ha

/-- A lease is created; nothing is recorded under its id yet. -/
lemma create (hmore : ∀ b ∈ more, b.Plain) (hdrawn : w.manager.Drawn) (hroom : w.manager.Roomy)
    {result : Manager φ × LeaseRec φ} (he : Manager.Enters w.manager result.1 result.2) :
    Settled (w.created result) (↑more + others) := by
  have howed := fun id => owed_of_plain ha hmore id others
  have hfresh := hdrawn.nextId_fresh
  have hnone : ofLease result.2.id w.registered = 0 := by
    rw [ofLease, coe_eq_zero, filterMap_eq_nil_iff]
    intro entry hentry
    refine if_neg fun heq => ?_
    have hlt := h.drawn entry hentry
    rw [heq, he.id] at hlt
    exact lt_irrefl _ hlt
  constructor
  · intro id lease hlookup
    change result.1.byId.lookup id = some lease at hlookup
    rw [he.byId] at hlookup
    rcases lookup_insert_cases hlookup with ⟨rfl, rfl⟩ | ⟨hne, hold⟩
    · have hgone := h.gone result.2.id (he.id ▸ hfresh)
      have hcard := congrArg card (hgone.symm.trans hnone)
      rw [card_add, card_zero, Nat.add_eq_zero_iff, card_eq_zero, card_eq_zero] at hcard
      rw [World.created, ofLease_append_self, hnone, howed]
      exact ⟨add_zero _, hcard⟩
    · rw [World.created, ofLease_append_other hne.symm, howed]
      exact h.live id lease hold
  · intro id hid
    change id ∉ result.1.byId at hid
    rw [he.byId, mem_insert, not_or] at hid
    rw [World.created, ofLease_append_other (Ne.symm hid.1), howed]
    exact h.gone id hid.2
  · intro entry hentry
    change entry.1.toNat < result.1.nextId.toNat
    rw [he.nextId, toNat_succ hroom.1]
    rcases mem_append.mp hentry with hnew | hold
    · obtain ⟨f, -, rfl⟩ := mem_map.mp hnew
      rw [he.id]
      exact Nat.lt_succ_self _
    · exact Nat.lt_succ_of_lt (h.drawn entry hold)

lemma addFinalizer {id : UInt64} {f : φ}
    {m' : Manager φ} (hadd : w.manager.addFinalizer id f = .ok m') (hdrawn : w.manager.Drawn) :
    Settled { w with manager := m', registered := (id, .extra f) :: w.registered }
      ((([] : List (Action φ)) : Multiset (Action φ)) + others) := by
  obtain ⟨lease, hlookup, rfl⟩ := addFinalizer_shape hadd
  have howed := fun id => owed_of_plain ha (forall_mem_nil _) id others
  constructor
  · intro id' lease' hlookup'
    rcases lookup_insert_cases hlookup' with ⟨rfl, rfl⟩ | ⟨hne, hold⟩
    · obtain ⟨hregistered, hran, howed'⟩ := h.live id' lease hlookup
      rw [ofLease_cons_self, hregistered, howed]
      exact ⟨coe_eq_coe.mpr (perm_append_singleton _ _).symm, hran, howed'⟩
    · rw [ofLease_cons_other hne.symm, howed]
      exact h.live id' lease' hold
  · intro id' hid'
    rw [mem_insert, not_or] at hid'
    rw [ofLease_cons_other (Ne.symm hid'.1), howed]
    exact h.gone id' hid'.2
  · exact forall_mem_cons.mpr ⟨hdrawn id (mem_of_lookup hlookup), h.drawn⟩

end

lemma retire {id : UInt64} (h : Settled w (.retireLease id ::ₘ others)) {lease : LeaseRec φ}
    (hlookup : w.manager.byId.lookup id = some lease) (hid : lease.id = id) {pids : List Int32}
    {more : List (Action φ)}
    (hmore : more = lease.finalizers.map (.finalize id) ++ [.unwatchRetired pids]) :
    Settled { w with manager := (w.manager.retireLease lease).1 } (↑more + others) := by
  obtain ⟨_, _, hm'⟩ := retireLease_shape w.manager lease
  have hbyId : (w.manager.retireLease lease).1.byId = w.manager.byId.erase lease.id := by rw [hm']
  have hnext : (w.manager.retireLease lease).1.nextId = w.manager.nextId := by rw [hm']
  have hplain (id' : UInt64) : owed id' (.retireLease id ::ₘ others) = owed id' others :=
    owed_cons_other rfl
  have hunwatch (id' : UInt64) :
      owed id' (([.unwatchRetired pids] : List (Action φ)) : Multiset (Action φ)) = 0 := by
    refine owed_eq_zero fun b hb => ?_
    obtain rfl := List.mem_singleton.mp hb
    rfl
  have howed_other {id' : UInt64} (hne : id' ≠ id) :
      owed id' (↑more + others : Multiset (Action φ)) = owed id' others := by
    rw [owed_add, hmore, ← coe_add, owed_add, hunwatch, add_zero, owed_eq_zero, zero_add]
    intro b hb
    obtain ⟨f, -, rfl⟩ := mem_map.mp hb
    exact if_neg hne.symm
  constructor
  · intro id' lease' hlookup'
    rw [hbyId, hid] at hlookup'
    obtain ⟨hne, hold⟩ := lookup_erase_cases hlookup'
    rw [howed_other hne, ← hplain]
    exact h.live id' lease' hold
  · intro id' hid'
    rw [hbyId, hid, mem_erase, not_and] at hid'
    rcases eq_or_ne id' id with rfl | hne
    · obtain ⟨hregistered, hran, howed⟩ := h.live id' lease hlookup
      rw [hplain] at howed
      rw [hregistered, hran, owed_add, hmore, ← coe_add, owed_add, owed_finalizers_self, hunwatch,
        howed, add_zero, add_zero, zero_add]
    · rw [howed_other hne, ← hplain]
      exact h.gone id' (hid' hne)
  · intro entry hentry
    rw [hnext]
    exact h.drawn entry hentry

/-- A finalizer is run; its lease is not in the table any more, since the finalizer was owed. -/
lemma finalize {id : UInt64} {f : Finalizer φ} (h : Settled w (.finalize id f ::ₘ others))
    (hmanager : w'.manager = w.manager) (hregistered : w'.registered = w.registered)
    (hran : w'.ran = (id, f) :: w.ran) : Settled w' ((([] : List (Action φ)) : Multiset (Action φ)) + others) := by
  rw [coe_nil, zero_add]
  have hgone : id ∉ w.manager.byId := by
    intro hmem
    obtain ⟨lease, hlookup⟩ := isSome_iff_exists.mp (lookup_isSome.mpr hmem)
    have howed := (h.live id lease hlookup).2.2
    rw [owed_cons_finalize] at howed
    exact cons_ne_zero howed
  have hother {id' : UInt64} (hne : id' ≠ id) :
      owed id' (.finalize id f ::ₘ others) = owed id' others := owed_cons_other (if_neg hne.symm)
  constructor
  · intro id' lease hlookup
    rw [hmanager] at hlookup
    have hne : id' ≠ id := by
      rintro rfl
      exact hgone (mem_of_lookup hlookup)
    rw [hregistered, hran, ofLease_cons_other hne.symm, ← hother hne]
    exact h.live id' lease hlookup
  · intro id' hid'
    rw [hmanager] at hid'
    rw [hregistered, hran]
    rcases eq_or_ne id' id with rfl | hne
    · rw [ofLease_cons_self, h.gone id' hid', owed_cons_finalize, add_cons, cons_add]
    · rw [ofLease_cons_other hne.symm, ← hother hne]
      exact h.gone id' hid'
  · rw [hregistered, hmanager]
    exact h.drawn

end Settled

/-! ## Leases with other finalizers -/

namespace Manager

variable {m m' : Manager φ} {id owner : UInt64} {lease lease' : LeaseRec φ}

lemma Counted.relabel (h : m.Counted) (hlookup : m.byId.lookup id = some lease)
    (hbyId : m'.byId = m.byId.insert id lease') (hcounters : m'.counters = m.counters)
    (hkind : lease'.kind = lease.kind) (hsubj : lease'.subj = lease.subj) :
    m'.Counted := by
  intro kind hrecorded s
  rw [tally_congr hcounters, h kind hrecorded s, leaseCount, leaseCount, hbyId,
    (values_insert _ _ _).countP_eq, (values_erase hlookup).countP_eq, List.countP_cons,
    List.countP_cons, hkind, hsubj]

end Manager

lemma Manager.Counted.congr {m m' : Manager φ} (h : m.Counted) (hbyId : m'.byId = m.byId)
    (hcounters : m'.counters = m.counters) : m'.Counted := by
  intro kind hkind s
  rw [tally_congr hcounters, leaseCount, hbyId]
  exact h kind hkind s

/-! ## The invariant -/

/-- The tables agree with the leases, and so do the records of the finalizers. -/
structure Accounted (w : World φ) (others : Multiset (Action φ)) : Prop where
  tabled : w.manager.Tabled
  byPid : w.manager.ByPid
  counted : w.manager.Counted
  settled : Settled w others

/-- Processes have positive ids, and no counter or count of a subject is at its end. -/
def Action.Sound (w : World φ) : Action φ → Prop
  | .createUseLease subj pid _ | .createTtlUseLease subj pid _ _ =>
    w.manager.Roomy ∧ 0 < pid ∧ w.manager.tally .use subj + 1 < 2 ^ 31
  | .createPlacementLease subj _ _ =>
    w.manager.Roomy ∧ w.manager.tally .placement subj + 1 < 2 ^ 31
  | .createRetentionLease _ _ => w.manager.Roomy
  | .createCommitLease _ _ _ pid => w.manager.Roomy ∧ 0 < pid
  | .keepaliveSession _ _ => w.manager.Roomy
  | _ => True

section Edits

variable {w w' : World φ} {a : Action φ} {m' : Manager φ}
  {leaseRenewal : UInt64 → Option Renewal} {sessionRenewal : String → Option Renewal}

lemma Action.Sound.fits (h : a.Sound w) : a.Fits w := by
  cases a with
  | createUseLease | createTtlUseLease | createPlacementLease | createCommitLease => exact h.1
  | createRetentionLease | keepaliveSession => exact h
  | _ => trivial

lemma Action.Sound.creates {result : Manager φ × LeaseRec φ} (hsound : a.Sound w)
    (h : a.creates w = some result) :
    (result.2.kind ≠ .placement → result.2.kind ≠ .retention → 0 < result.2.pid) ∧
      w.manager.tally result.2.kind result.2.subj + 1 < 2 ^ 31 := by
  cases a <;> cases h
  case createUseLease | createTtlUseLease => exact ⟨fun _ _ => hsound.2.1, hsound.2.2⟩
  case createPlacementLease =>
    rw [Manager.createPlacementLease]
    split_ifs <;> exact ⟨fun hne => absurd rfl hne, hsound.2⟩
  case createRetentionLease =>
    exact ⟨fun _ hne => absurd rfl hne, show (0 : ℤ) + 1 < 2 ^ 31 by decide⟩
  case createCommitLease => exact ⟨fun _ _ => hsound.2, show (0 : ℤ) + 1 < 2 ^ 31 by decide⟩

section

variable (h : Edit w a m' leaseRenewal sessionRenewal) (hsound : a.Sound w) (hm : w.manager.Tabled)

include h hsound hm

lemma Edit.byPid (hpids : w.manager.ByPid) : m'.ByPid := by
  cases h with
  | same => exact hpids
  | createUseLease | createTtlUseLease | createPlacementLease | createRetentionLease
  | createCommitLease =>
    obtain ⟨_, counters, hguards, hresult⟩ := Action.creates_guards rfl hsound.fits hm
    have hdrawn : w.manager.drawId.1.ByPid := hpids.congr rfl rfl
    exact hresult ▸ (hdrawn.guards hguards (hsound.creates rfl).1).congr rfl rfl
  | keepaliveSession sid ttl =>
    rw [Manager.keepaliveSession]
    cases w.manager.sessionBySid.lookup sid with
    | none => exact hpids.congr rfl rfl
    | some id => exact hpids.congr rfl rfl
  | renewPlacement id ttl lease hlookup => exact hpids.foldl_renewGuard _ lease.guards
  | addFinalizer | releaseSession | watches => exact hpids.congr rfl rfl
  | expireDue now order =>
    obtain ⟨_, _, sessionBySid, hm'⟩ :=
      Manager.expireDue_shape w.manager now
    exact hpids.congr (by rw [hm']) (by rw [hm'])
  | retireLease id lease hlookup =>
    obtain ⟨counters, hcount⟩ := Manager.uncount_shape w.manager lease
    rw [Manager.retireLease_eq, hcount]
    have hfirst : Manager.ByPid { w.manager with
        counters, byId := w.manager.byId.erase lease.id } := hpids.congr rfl rfl
    exact hfirst.foldl_dropGuard [] lease.guards

lemma Edit.counted (hcounts : w.manager.Counted) : m'.Counted := by
  have hkept (ha : a.writesLeases = false) : m'.Counted :=
    hcounts.congr (h.leases ha).1.1 (h.leases ha).2.1
  have hcreate {result : Manager φ × LeaseRec φ} (hc : a.creates w = some result) :
      result.1.Counted :=
    hcounts.enter hm.drawn (Action.creates_enters hc) (hsound.creates hc).2
  cases h with
  | same => exact hcounts
  | createUseLease | createTtlUseLease | createPlacementLease | createRetentionLease
  | createCommitLease => exact hcreate rfl
  | keepaliveSession | renewPlacement | expireDue => exact hkept rfl
  | addFinalizer id f lease hlookup => exact hcounts.relabel hlookup rfl rfl rfl rfl
  | releaseSession | watches => exact hcounts.congr rfl rfl
  | retireLease id lease hlookup =>
    exact hcounts.retire hlookup (hm.indexed.lease_id id lease hlookup)

end

end Edits

variable {a : Action φ} {w w' : World φ} {more : List (Action φ)} {others : Multiset (Action φ)}

/-- What an action does to the leases and to the records of the finalizers. -/
lemma act_turns (h : act a w = some (w', more)) :
    (a.Plain ∧ (∀ b ∈ more, b.Plain) ∧
      (w'.manager.byId = w.manager.byId ∧ w'.manager.nextId = w.manager.nextId) ∧
      (w'.registered = w.registered ∧ w'.ran = w.ran)) ∨
    (a.Plain ∧ (∀ b ∈ more, b.Plain) ∧ (a.Fits w → w.manager.Roomy) ∧
      ∃ result, Manager.Enters w.manager result.1 result.2 ∧ w' = w.created result) ∨
    (∃ id f manager, a = .addFinalizer id f ∧ w.manager.addFinalizer id f = .ok manager ∧
      w' = { w with manager, registered := (id, .extra f) :: w.registered } ∧ more = []) ∨
    (∃ id lease, a = .retireLease id ∧ w.manager.byId.lookup id = some lease ∧
      w' = { w with manager := (w.manager.retireLease lease).1 } ∧
      more = lease.finalizers.map (.finalize id) ++
        [.unwatchRetired (w.manager.retireLease lease).2]) ∨
    ∃ id f, a = .finalize id f ∧ w'.manager = w.manager ∧ w'.registered = w.registered ∧
      w'.ran = (id, f) :: w.ran ∧ more = [] := by
  have hplain : ∀ b : Action φ, b.tame = true → b.Plain := by
    intro b hb
    cases b <;> first | exact fun _ => rfl | cases hb
  have hmore (ha : ∀ id, a ≠ .retireLease id) : ∀ b ∈ more, b.Plain := by
    rcases act_more h with htame | ⟨id, lease, rfl, -⟩ | ⟨pids, -, rfl⟩
    · exact fun b hb => hplain b (htame b hb)
    · exact absurd rfl (ha id)
    · intro b hb
      obtain ⟨-, -, rfl⟩ := mem_map.mp hb
      exact fun _ => rfl
  have hedit := act_edit h
  cases hcreates : a.creates w with
  | some result =>
    obtain ⟨ha, hnot⟩ : a.Plain ∧ ∀ id, a ≠ .retireLease id := by
      cases a <;> first | cases hcreates; done | exact ⟨fun _ => rfl, nofun⟩
    rcases act_creates hcreates h with rfl | rfl
    · exact .inl ⟨ha, hmore hnot, ⟨rfl, rfl⟩, rfl, rfl⟩
    · exact .inr (.inl ⟨ha, hmore hnot, (·.roomy hcreates), _, Action.creates_enters hcreates, rfl⟩)
  | none =>
  cases a
  case createUseLease | createTtlUseLease | createPlacementLease | createRetentionLease |
      createCommitLease => cases hcreates
  case addFinalizer id f =>
    rw [act] at h
    split at h <;> cases h
    · exact .inl ⟨fun _ => rfl, hmore (by simp), ⟨rfl, rfl⟩, rfl, rfl⟩
    · exact .inr (.inr (.inl ⟨id, f, _, rfl, ‹_›, rfl, rfl⟩))
  case retireLease id =>
    rw [act] at h
    split at h <;> cases h
    · exact .inl ⟨fun _ => rfl, by simp, ⟨rfl, rfl⟩, rfl, rfl⟩
    · exact .inr (.inr (.inr (.inl ⟨id, _, rfl, ‹_›, rfl, rfl⟩)))
  case finalize id f =>
    cases h
    exact .inr (.inr (.inr (.inr ⟨id, f, rfl, rfl, rfl, rfl, rfl⟩)))
  all_goals
    refine .inl ⟨fun _ => rfl, hmore (by simp), (hedit.leases rfl).1, ?_⟩
    unfold act at h
    grind

lemma Settled.act (h : Settled w (a ::ₘ others)) (hm : w.manager.Tabled) (hfits : a.Fits w)
    (hact : Sessions.act a w = some (w', more)) :
    Settled w' (↑more + others) := by
  rcases act_turns hact with ⟨ha, hmore, hmanager, hrecords⟩ |
    ⟨ha, hmore, hroom, _, henters, rfl⟩ | ⟨id, f, manager, rfl, hadd, rfl, rfl⟩ |
    ⟨id, lease, rfl, hlookup, rfl, rfl⟩ | ⟨id, f, rfl, hmanager, hregistered, hran, rfl⟩
  · exact h.congr hmanager hrecords fun id => owed_of_plain ha hmore id others
  · exact h.create ha hmore hm.drawn (hroom hfits) henters
  · exact h.addFinalizer (fun _ => rfl) hadd hm.drawn
  · exact h.retire hlookup (hm.indexed.lease_id id lease hlookup) rfl
  · exact h.finalize hmanager hregistered hran

lemma Accounted.act (h : Accounted w (a ::ₘ others)) (hsound : a.Sound w)
    (hact : Sessions.act a w = some (w', more)) :
    Accounted w' (↑more + others) where
  tabled := (act_edit hact).tabled hsound.fits h.tabled
  byPid := (act_edit hact).byPid hsound h.tabled h.byPid
  counted := (act_edit hact).counted hsound h.tabled h.counted
  settled := h.settled.act h.tabled hsound.fits hact

lemma accounted_start (monitor : Bool) (now : ℤ) :
    Accounted (World.start monitor now : World φ) 0 where
  tabled := Manager.Tabled.empty monitor
  byPid := Manager.ByPid.empty monitor
  counted := by
    rintro kind (rfl | rfl) s <;> rfl
  settled := by
    refine ⟨fun id lease hlookup => ?_, fun id _ => rfl, nofun⟩
    exact nomatch hlookup

lemma Accounted.of_reached {monitor : Bool} {now : ℤ} {p : Calls φ}
    (h : Reached (fun w _ a => a.Sound w) (World.start monitor now) p) :
    Accounted p.shared p.pending := by
  refine Agendas.invariant h (accounted_start monitor now) ?_ ?_
  · -- a call is not a finalizer
    intro call w others hw
    have hplain : call.action.Plain := by
      obtain ⟨a, hcall⟩ := call
      cases a with
      | finalize => cases hcall
      | _ => exact fun _ => rfl
    have howed (id : UInt64) :
        owed id ((([call.action] : List (Action φ)) : Multiset (Action φ)) + others) =
          owed id others := by
      rw [coe_singleton, singleton_add, owed_cons_other (hplain id)]
    exact ⟨hw.tabled, hw.byPid, hw.counted, hw.settled.congr ⟨rfl, rfl⟩ ⟨rfl, rfl⟩ howed⟩
  · exact fun a w w' more others hsound hact hw => hw.act hsound hact

/-- The recorded counts are those of the live leases; the two indices hold the guards of the live leases
and nothing else; no finalizer of a live lease has been run, each finalizer of a retired lease has been
run once or is owed once, and none is owed when no call is in progress. -/
theorem leases_are_accounted {monitor : Bool} {now : ℤ} {p : Calls φ}
    (h : Reached (fun w _ a => a.Sound w) (World.start monitor now) p) :
    (∀ s, p.shared.manager.tally .use s = p.shared.manager.leaseCount .use s ∧
      p.shared.manager.tally .placement s = p.shared.manager.leaseCount .placement s) ∧
    (∀ guard, guard ∈ p.shared.manager.guardById ↔
      ∃ id lease, p.shared.manager.byId.lookup id = some lease ∧ guard ∈ lease.guards) ∧
    (∀ pid guard, guard ∈ p.shared.manager.pidGuards pid ↔
      ∃ g lease, p.shared.manager.guardById.lookup guard = some g ∧ g.kind = .pidLiveness ∧
        g.pid = pid ∧ p.shared.manager.byId.lookup g.lease = some lease ∧ guard ∈ lease.guards) ∧
    (∀ id lease, p.shared.manager.byId.lookup id = some lease →
      ofLease id p.shared.registered = lease.finalizers ∧ ofLease id p.shared.ran = 0) ∧
    (∀ id, id ∉ p.shared.manager.byId →
      ofLease id p.shared.registered = ofLease id p.shared.ran + owed id p.pending) ∧
    (p.Quiescent → ∀ id, owed id p.pending = 0) := by
  have hw := Accounted.of_reached h
  refine ⟨fun s => ⟨hw.counted .use (.inl rfl) s, hw.counted .placement (.inr rfl) s⟩, ?_, ?_, ?_,
    hw.settled.gone, ?_⟩
  · intro guard
    constructor
    · intro hmem
      obtain ⟨g, hg⟩ := isSome_iff_exists.mp (lookup_isSome.mpr hmem)
      obtain ⟨lease, hlookup, hguard⟩ := hw.tabled.indexed.holder hg
      exact ⟨g.lease, lease, hlookup, hguard⟩
    · rintro ⟨id, lease, hlookup, hguard⟩
      obtain ⟨g, hg, -⟩ := hw.tabled.indexed.guarded id lease hlookup guard hguard
      exact mem_of_lookup hg
  · intro pid guard
    rw [hw.byPid.mem_pidGuards]
    constructor
    · rintro ⟨g, hg, hkind, hpid⟩
      obtain ⟨lease, hlookup, hguard⟩ := hw.tabled.indexed.holder hg
      exact ⟨g, lease, hg, hkind, hpid, hlookup, hguard⟩
    · rintro ⟨g, lease, hg, hkind, hpid, -⟩
      exact ⟨g, hg, hkind, hpid⟩
  · intro id lease hlookup
    obtain ⟨hregistered, hran, -⟩ := hw.settled.live id lease hlookup
    exact ⟨hregistered, hran⟩
  · intro hquiet id
    rw [hquiet.pending]
    rfl

/-- A process has asked for the use of the replica, and the lease is in the table. -/
def inUse : Calls Unit :=
  ⟨(World.start true 0 : World Unit).created
    (createUseLease { monitor := true } hostReplica 7 []), [[.monitorWatch 7]]⟩

theorem leases_are_accounted_in_use :
    inUse.shared.manager.leaseCount .use hostReplica = 1 ∧
      inUse.shared.manager.tally .use hostReplica =
        inUse.shared.manager.leaseCount .use hostReplica := by
  have hreach : Reached (fun w _ a => a.Sound w) (World.start true 0) inUse := by
    refine .snoc (t := .resume 0)
      (.snoc (t := .call ⟨.createUseLease hostReplica 7 [], rfl⟩) .refl trivial rfl) ?_ rfl
    exact Agendas.allowed_resume rfl fun _ _ => ⟨⟨by decide, by decide⟩, by decide, by decide⟩
  exact ⟨rfl, ((leases_are_accounted hreach).1 hostReplica).1⟩

/-- The process ids are not checked when a lease is created, but they are when it is retired: the
guard of a lease for process 0 stays in the index by process. -/
theorem guard_of_process_zero_stays :
    ∃ p : Calls Unit,
      run step (fun _ _ => true)
        [.call ⟨.createUseLease hostReplica 0 [], rfl⟩, .resume 0, .call ⟨.retireLease 1, rfl⟩,
          .resume 1] ⟨World.start true 0, []⟩ = some p ∧
      p.shared.manager.pidGuards 0 = [1] ∧ values p.shared.manager.byId = [] := by
  exact ⟨_, rfl, rfl, rfl⟩

end TensorCast.Sessions
