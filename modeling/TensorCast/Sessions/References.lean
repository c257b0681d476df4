import TensorCast.Sessions.Tables

/-!
# References and the leases behind them

`RefTracker` has the set of the processes that refer to a replica, and `RetireGates` asks it before
the replica is retired.  A process adds its reference once and may then take any number of leases.
Each lease drops the reference when it is retired, and the set does not know how many there are.
-/

namespace TensorCast.Sessions

open Core Lifecycle Lib List Multiset AList
open Authority (ReplicaKey)
open Binding (Duration)

variable {φ : Type}

/-! ## The gates -/

structure RetireGateSnapshot where
  refCount : ℕ := 0
  useCount : ℤ := 0
  placementPins : ℤ := 0
  hasTransportLock : Bool := false

def RetireGateSnapshot.ready (snapshot : RetireGateSnapshot) : Bool :=
  snapshot.refCount = 0 && snapshot.useCount = 0 && snapshot.placementPins = 0 &&
    !snapshot.hasTransportLock

/-- `RetireGates::snapshot_for`; what the lock manager answers is an argument. -/
def World.snapshotFor (w : World φ) (key : ReplicaKey) (hasTransportLock : Bool) :
    RetireGateSnapshot where
  refCount := w.refs.refCount key
  useCount := w.manager.useCountFor key
  placementPins := w.manager.placementPinCountFor key
  hasTransportLock := hasTransportLock

/-! ## Taking leases -/

/-- A lease of one of the two kinds that a process takes to use a replica. -/
inductive Creation (φ : Type)
  | plain (extra : List φ)
  | timed (ttl : Duration) (pos : zeroDuration < ttl) (extra : List φ)

def Creation.action (key : ReplicaKey) (pid : Int32) : Creation φ → Action φ
  | .plain extra => .createUseLease key pid extra
  | .timed ttl _ extra => .createTtlUseLease key pid ttl extra

/-- What the creation has entered into the tables. -/
def Creation.result (w : World φ) (key : ReplicaKey) (pid : Int32) :
    Creation φ → Manager φ × LeaseRec φ
  | .plain extra => w.manager.createUseLease key pid extra
  | .timed ttl _ extra => w.manager.createTtlUseLease w.now key pid ttl extra

/-- The call has ended, and the process is watched if there is a monitor. -/
def World.take (key : ReplicaKey) (pid : Int32) (w : World φ) (creation : Creation φ) : World φ :=
  let created := w.created (creation.result w key pid)
  if w.manager.monitor ∧ 0 < pid then { created with watched := created.watched.insert pid }
  else created

lemma act_take (key : ReplicaKey) (pid : Int32) (w : World φ) (creation : Creation φ) :
    ∃ created more, act (creation.action key pid) w = some (created, more) ∧
      more.foldlM (fun w a => (act a w).map Prod.fst) created = some (w.take key pid creation) := by
  have hwatch (result : Manager φ × LeaseRec φ) :
      (w.manager.watchAfter pid).foldlM (fun w a => (act a w).map Prod.fst) (w.created result) =
        some (if w.manager.monitor ∧ 0 < pid then
          { w.created result with watched := (w.created result).watched.insert pid }
        else w.created result) := by
    by_cases hmonitor : w.manager.monitor = true
    · by_cases hpos : 0 < pid
      · simp [Manager.watchAfter, hmonitor, hpos, act]
      · simp [Manager.watchAfter, hmonitor, hpos, act]
    · simp [Manager.watchAfter, hmonitor]
  cases creation with
  | plain extra => exact ⟨_, _, rfl, hwatch _⟩
  | timed ttl pos extra =>
    refine ⟨_, _, if_neg (not_le.mpr pos), hwatch _⟩

/-- The process has added its reference and then taken leases. -/
def World.holding (start : World φ) (key : ReplicaKey) (pid : Int32)
    (creations : List (Creation φ)) : World φ :=
  creations.foldl (World.take key pid) { start with refs := start.refs.addRef key pid }

/-- What a release or an expiry does, and the clock. -/
def Action.Releases : Action φ → Prop
  | .retireLease _ | .releaseUseLease _ _ _ | .releaseByPid _ _ | .expireDue _ _ | .finalize _ _
  | .unwatchRetired _ | .monitorUnwatch _ | .eraseSession _ | .tick _ => True
  | _ => False

/-- A live lease of a process for the use of a replica. -/
def Manager.UsedBy (m : Manager φ) (key : ReplicaKey) (pid : Int32) : Prop :=
  ∃ id lease, m.byId.lookup id = some lease ∧ lease.kind = .use ∧ lease.subj = key ∧ lease.pid = pid

/-! ## References -/

namespace RefTracker

variable {refs : RefTracker} {key : ReplicaKey} {pid : Int32}

lemma pids_addRef : pid ∈ pids (refs.addRef key pid) key := by
  rw [pids, addRef, lookup_insert]
  exact mem_insert_self

lemma pids_dropRef : pid ∉ pids (refs.dropRef key pid) key := by
  rw [dropRef, pids]
  cases hlookup : refs.lookup key with
  | none =>
    simp [hlookup]
  | some found =>
    dsimp only
    split_ifs with hnil
    · rw [lookup_erase]
      exact not_mem_nil
    · simp

end RefTracker

lemma not_ready {w : World φ} {key : ReplicaKey} {pid : Int32} (h : pid ∈ w.refs.pids key)
    (hasTransportLock : Bool) : ¬ (w.snapshotFor key hasTransportLock).ready := by
  have hpos : w.refs.refCount key ≠ 0 := (length_pos_of_mem h).ne'
  simp [RetireGateSnapshot.ready, World.snapshotFor, hpos]

/-! ## One lease -/

/-- A finalizer that drops a reference. -/
def Action.dropsRef : Action φ → Bool
  | .finalize _ (.dropUse _ _) => true
  | _ => false

section OneLease

variable {w w' : World φ} {a : Action φ} {others : Multiset (Action φ)} {more : List (Action φ)}
  {key : ReplicaKey} {pid : Int32}

/-- There is at most one lease, and as long as it is there the reference is there and nothing is
about to drop it. -/
structure Backed (key : ReplicaKey) (pid : Int32) (w : World φ) (others : Multiset (Action φ)) :
    Prop where
  ids : ∀ id lease, w.manager.byId.lookup id = some lease → lease.id = id
  one : ∀ id ∈ w.manager.byId, ∀ id' ∈ w.manager.byId, id = id'
  ref : ∀ id ∈ w.manager.byId, pid ∈ w.refs.pids key
  kept : ∀ id ∈ w.manager.byId, ∀ a ∈ others, a.dropsRef = false

lemma Backed.idle (h : Backed key pid w (a ::ₘ others)) (hbyId : w'.manager.byId = w.manager.byId)
    (hrefs : w'.refs = w.refs) (hmore : ∀ b ∈ more, b.dropsRef = false) :
    Backed key pid w' (↑more + others) where
  ids := hbyId ▸ h.ids
  one := hbyId ▸ h.one
  ref := hbyId ▸ hrefs ▸ h.ref
  kept id hid b hb := by
    rw [hbyId] at hid
    rcases mem_add.mp hb with hb | hb
    · exact hmore b (mem_coe.mp hb)
    · exact h.kept id hid b (mem_cons_of_mem hb)

lemma Backed.of_empty (h : ∀ id, id ∉ w.manager.byId) : Backed key pid w others where
  ids id _ hlookup := absurd (mem_of_lookup hlookup) (h id)
  one id hid := absurd hid (h id)
  ref id hid := absurd hid (h id)
  kept id hid := absurd hid (h id)

lemma dropsRef_map {β : Type} {f : β → Action φ} (h : ∀ x, (f x).dropsRef = false) (l : List β) :
    ∀ b ∈ l.map f, b.dropsRef = false := by
  intro b hb
  obtain ⟨x, -, rfl⟩ := mem_map.mp hb
  exact h x

/-- What one action of a release or an expiry does. -/
lemma Backed.act (h : Backed key pid w (a ::ₘ others)) (ha : a.Releases)
    (hact : Sessions.act a w = some (w', more)) :
    Backed key pid w' (↑more + others) := by
  have hnil : ∀ b ∈ ([] : List (Action φ)), b.dropsRef = false := nofun
  cases a with
  | retireLease id =>
    rw [Sessions.act] at hact
    split at hact <;> cases hact
    · exact h.idle rfl rfl hnil
    · -- this was the only lease
      rename_i lease hlookup
      obtain ⟨_, _, hm'⟩ := Manager.retireLease_shape w.manager lease
      refine .of_empty fun id' (hid' : id' ∈ (w.manager.retireLease lease).1.byId) => ?_
      rw [hm', h.ids id lease hlookup, mem_erase] at hid'
      exact hid'.1 (h.one id' hid'.2 id (mem_of_lookup hlookup))
  | finalize lease f =>
    cases hact
    cases f with
    | dropUse subj pid' =>
      -- the reference goes, so the lease is gone
      exact .of_empty fun id hid => nomatch h.kept id hid _ (mem_cons_self _ _)
    | extra | reclaim | revokeCommit => exact h.idle rfl rfl hnil
  | releaseUseLease order subj pid =>
    rw [Sessions.act] at hact
    split at hact <;> cases hact
    · exact h.idle rfl rfl hnil
    · refine h.idle rfl rfl ?_
      split_ifs
      · exact hnil
      · exact dropsRef_map (fun _ => rfl) [_]
  | releaseByPid order pid =>
    cases hact
    exact h.idle rfl rfl (dropsRef_map (fun _ => rfl) _)
  | expireDue now order =>
    cases hact
    obtain ⟨_, _, _, hm'⟩ :=
      Manager.expireDue_shape w.manager now
    refine h.idle (by rw [hm']) rfl (forall_mem_append.mpr ⟨?_, ?_⟩) <;>
      exact dropsRef_map (fun _ => rfl) _
  | unwatchRetired pids =>
    cases hact
    refine h.idle rfl rfl ?_
    split_ifs
    · exact dropsRef_map (fun _ => rfl) _
    · exact hnil
  | monitorUnwatch pid =>
    cases hact
    split_ifs <;> exact h.idle rfl rfl hnil
  | eraseSession | tick =>
    cases hact
    exact h.idle rfl rfl hnil
  | _ => exact ha.elim

lemma Backed.of_reached {p : Calls φ} (h : Reached (fun _ _ a => a.Releases) w p)
    (hw : Backed key pid w 0) : Backed key pid p.shared p.pending := by
  refine Agendas.invariant h hw ?_ fun a w w' more others ha hact hw => hw.act ha hact
  -- a call is not a finalizer
  intro call w others hw
  refine ⟨hw.ids, hw.one, hw.ref, fun id hid b hb => ?_⟩
  rcases mem_add.mp hb with hb | hb
  · obtain rfl := List.mem_singleton.mp (mem_coe.mp hb)
    obtain ⟨a, hcall⟩ := call
    cases a with
    | finalize => cases hcall
    | _ => rfl
  · exact hw.kept id hid b hb

end OneLease

/-! ## The leases of a process -/

section Holding

variable {w : World φ} {key : ReplicaKey} {pid : Int32}

structure LeaseRec.Uses (lease : LeaseRec φ) (id : UInt64) (key : ReplicaKey) (pid : Int32) :
    Prop where
  finalizers : ∃ extra : List φ, lease.finalizers = extra.map .extra ++ [.dropUse key pid]
  id : lease.id = id
  kind : lease.kind = .use
  subj : lease.subj = key
  pid : lease.pid = pid

lemma take_byId (key : ReplicaKey) (pid : Int32) (w : World φ) (creation : Creation φ) :
    ∃ lease : LeaseRec φ, lease.Uses w.manager.nextId key pid ∧
      (w.take key pid creation).manager.byId = w.manager.byId.insert w.manager.nextId lease ∧
      (w.take key pid creation).manager.nextId = w.manager.nextId + 1 ∧
      (w.take key pid creation).refs = w.refs := by
  have hmanager : (w.take key pid creation).manager = (creation.result w key pid).1 ∧
      (w.take key pid creation).refs = w.refs := by
    rw [World.take]
    split_ifs <;> exact ⟨rfl, rfl⟩
  rw [hmanager.1, hmanager.2]
  cases creation with
  | plain extra => exact ⟨_, ⟨⟨extra, rfl⟩, rfl, rfl, rfl, rfl⟩, rfl, rfl, rfl⟩
  | timed ttl pos extra => exact ⟨_, ⟨⟨extra, rfl⟩, rfl, rfl, rfl, rfl⟩, rfl, rfl, rfl⟩

lemma LeaseRec.Uses.usedBy {m : Manager φ} {lease : LeaseRec φ} {id : UInt64}
    (h : lease.Uses id key pid) (hlookup : m.byId.lookup id = some lease) : m.UsedBy key pid :=
  ⟨id, lease, hlookup, h.kind, h.subj, h.pid⟩

lemma reaches_finalize (id : UInt64) (fs : List (Finalizer φ)) (rest : List (Action φ))
    (w : World φ) :
    ∃ w', Reaches step (Agendas.Allowed fun _ _ a => a.Releases)
      (⟨w, [fs.map (.finalize id) ++ rest]⟩ : Calls φ) ⟨w', [rest]⟩ ∧ w'.manager = w.manager := by
  induction fs generalizing w with
  | nil => exact ⟨w, .refl, rfl⟩
  | cons f fs ih =>
    obtain ⟨w₁, hact, hmanager⟩ : ∃ w₁, act (.finalize id f) w = some (w₁, []) ∧
        w₁.manager = w.manager := ⟨_, rfl, rfl⟩
    obtain ⟨w', hreach, hw'⟩ := ih w₁
    refine ⟨w', .head ⟨.resume 0, ?_, Agendas.step_resume rfl hact⟩ hreach, hw'.trans hmanager⟩
    exact Agendas.allowed_resume rfl fun _ _ => trivial

/-- A lease is released: its last finalizer drops the reference of the process. -/
lemma reaches_released {id : UInt64} {lease : LeaseRec φ}
    (hlookup : w.manager.byId.lookup id = some lease) (huses : lease.Uses id key pid) :
    ∃ p : Calls φ, Reached (fun _ _ a => a.Releases) w p ∧
      p.shared.manager.byId = w.manager.byId.erase id ∧ pid ∉ p.shared.refs.pids key := by
  obtain ⟨extra, hfinalizers⟩ := huses.finalizers
  obtain ⟨w₁, more, hretire, hbyId, hmore⟩ : ∃ w₁ more, act (.retireLease id) w = some (w₁, more) ∧
      w₁.manager.byId = w.manager.byId.erase id ∧ ∃ rest, more =
        (extra.map .extra).map (.finalize id) ++ (.finalize id (.dropUse key pid) :: rest) := by
    refine ⟨{ w with manager := (w.manager.retireLease lease).1 },
      lease.finalizers.map (.finalize id) ++ [.unwatchRetired (w.manager.retireLease lease).2],
      ?_, ?_, [.unwatchRetired (w.manager.retireLease lease).2], ?_⟩
    · simp only [act, hlookup]
    · obtain ⟨_, _, hm'⟩ := Manager.retireLease_shape w.manager lease
      rw [hm', huses.id]
    · rw [hfinalizers]
      simp
  obtain ⟨rest, rfl⟩ := hmore
  obtain ⟨_, hfinalize, hmanager⟩ := reaches_finalize id (extra.map .extra)
    (.finalize id (.dropUse key pid) :: rest) w₁
  have hsection : Reaches step (Agendas.Allowed fun _ _ a => a.Releases) (⟨w, []⟩ : Calls φ)
      ⟨w₁, [(extra.map .extra).map (.finalize id) ++ (.finalize id (.dropUse key pid) :: rest)]⟩ := by
    refine .snoc (t := .resume 0) (.snoc (t := .call ⟨.retireLease id, rfl⟩) .refl trivial rfl) ?_ ?_
    · exact Agendas.allowed_resume rfl fun _ _ => trivial
    · rw [step, Agendas.step_resume rfl hretire, append_nil]
      rfl
  refine ⟨_, .snoc (t := .resume 0) (hsection.trans hfinalize) ?_ (Agendas.step_resume rfl rfl), ?_, ?_⟩
  · exact Agendas.allowed_resume rfl fun _ _ => trivial
  · exact (congrArg Manager.byId hmanager).trans hbyId
  · exact RefTracker.pids_dropRef

lemma holding_refs (start : World φ) (key : ReplicaKey) (pid : Int32)
    (creations : List (Creation φ)) :
    (start.holding key pid creations).refs = start.refs.addRef key pid := by
  have hfold (w : World φ) : (creations.foldl (World.take key pid) w).refs = w.refs := by
    induction creations generalizing w with
    | nil => rfl
    | cons creation creations ih =>
      obtain ⟨_, -, -, -, hrefs⟩ := take_byId key pid w creation
      exact (ih _).trans hrefs
  exact hfold _

end Holding

/-- A process has added its reference to a replica and then taken leases on it.  Whatever is released or
expires after that, the reference lasts as long as one of the leases exactly if there is not more than
one lease. -/
theorem reference_lasts_iff (monitor : Bool) (now : ℤ) (refs : RefTracker) (key : ReplicaKey)
    (pid : Int32) (creations : List (Creation φ)) :
    (∀ p : Calls φ,
      Reached (fun _ _ a => a.Releases)
        (World.holding { World.start monitor now with refs } key pid creations) p →
      p.shared.manager.UsedBy key pid →
      pid ∈ p.shared.refs.pids key ∧ ∀ lock, ¬ (p.shared.snapshotFor key lock).ready) ↔
    creations.length ≤ 1 := by
  set start : World φ := { World.start monitor now with refs }
  constructor
  · intro hlasts
    by_contra hmany
    obtain ⟨early, before, last, rfl⟩ :
        ∃ early before last, creations = early ++ [before] ++ [last] := by
      rcases creations.eq_nil_or_concat with rfl | ⟨init, last, rfl⟩
      · exact absurd (Nat.zero_le 1) hmany
      · rcases init.eq_nil_or_concat with rfl | ⟨early, before, rfl⟩
        · exact absurd le_rfl hmany
        · exact ⟨early, before, last, by simp⟩
    -- the last two leases have different ids, and the very last is released
    set w : World φ := start.holding key pid early
    obtain ⟨kept, hkept, hbyId, hnext, -⟩ := take_byId key pid w before
    obtain ⟨released, hreleased, hbyId', -, -⟩ := take_byId key pid (w.take key pid before) last
    have hw : start.holding key pid (early ++ [before] ++ [last]) =
        (w.take key pid before).take key pid last := by
      rw [World.holding, foldl_append, foldl_append]
      rfl
    have hne : w.manager.nextId ≠ (w.take key pid before).manager.nextId := by
      rw [hnext]
      intro heq
      have hnat := congrArg UInt64.toNat heq
      rw [UInt64.toNat_add] at hnat
      have hone : (1 : UInt64).toNat = 1 := rfl
      omega
    have hlookup : (start.holding key pid (early ++ [before] ++ [last])).manager.byId.lookup
        (w.take key pid before).manager.nextId = some released := by
      rw [hw, hbyId', lookup_insert]
    obtain ⟨p, hreach, hrest, hdropped⟩ := reaches_released hlookup hreleased
    have hlive : p.shared.manager.byId.lookup w.manager.nextId = some kept := by
      rw [hrest, lookup_erase_ne hne, hw, hbyId', lookup_insert_ne hne, hbyId, lookup_insert]
    exact hdropped (hlasts p hreach (hkept.usedBy hlive)).1
  · intro hone p hreach hused
    have hbacked : Backed key pid (start.holding key pid creations) 0 := by
      match creations, hone with
      | [], _ => exact .of_empty fun _ hid => nomatch hid
      | [creation], _ =>
        obtain ⟨lease, huses, hbyId, -, -⟩ :=
          take_byId key pid { start with refs := start.refs.addRef key pid } creation
        have hmem (id : UInt64)
            (hid : id ∈ (start.holding key pid [creation]).manager.byId) : id = 1 := by
          rw [World.holding, List.foldl_cons, foldl_nil, hbyId, mem_insert] at hid
          exact hid.resolve_right (notMem_empty id)
        constructor
        · intro id found hfound
          obtain rfl := hmem id (mem_of_lookup hfound)
          rw [World.holding, List.foldl_cons, foldl_nil, hbyId] at hfound
          cases (lookup_insert _).symm.trans hfound
          exact huses.id
        · exact fun id hid id' hid' => (hmem id hid).trans (hmem id' hid').symm
        · rw [holding_refs]
          exact fun _ _ => RefTracker.pids_addRef
        · exact fun _ _ a ha => absurd ha (notMem_zero a)
    obtain ⟨id, lease, hlookup, -⟩ := hused
    have href := (hbacked.of_reached hreach).ref id (mem_of_lookup hlookup)
    exact ⟨href, not_ready href⟩

/-- Process 7 refers to a replica on the host, takes two leases on it, and the second is released. -/
def twoLeases : List (Move Unit) :=
  [.call ⟨.addRef hostReplica 7, rfl⟩, .resume 0,
    .call ⟨.createUseLease hostReplica 7 [], rfl⟩, .resume 1, .resume 1,
    .call ⟨.createUseLease hostReplica 7 [], rfl⟩, .resume 2, .resume 2,
    .call ⟨.retireLease 2, rfl⟩, .resume 3, .resume 3, .resume 3]

/-- The first lease is live, the process is not recorded any more, and the gates are ready. -/
theorem reference_gone_before_lease :
    ∃ p : Calls Unit, run step (fun _ _ => true) twoLeases ⟨World.start true 0, []⟩ = some p ∧
      (p.shared.manager.byId.lookup 1).map (fun lease => (lease.kind, lease.subj, lease.pid)) =
        some (.use, hostReplica, 7) ∧
      p.shared.refs.pids hostReplica = [] ∧
      (p.shared.snapshotFor hostReplica false).ready = true :=
  ⟨_, rfl, rfl, rfl, rfl⟩

end TensorCast.Sessions
