import TensorCast.Sessions.Edits

/-!
# Guarded processes are watched

The manager tells the monitor of a process when the process gets a guard, and when it has lost its
last guard, after the mutex has been unlocked.  So the watch of a new lease may come before the
unwatch of the lease before it, and then the process has a guard and nobody watches it.  This is the
only way to lose a watch.
-/

namespace TensorCast.Sessions

open Core Lifecycle Lib List Multiset AList
open Authority (ReplicaKey)
open Binding (Duration)

variable {φ : Type}

/-! ## Unwatches on their way -/

def Action.unwatches (pid : Int32) : Action φ → Bool
  | .monitorUnwatch p => p = pid
  | .unwatchRetired pids => pid ∈ pids
  | _ => false

/-- A lease is created for a real process, with no unwatch of it on its way. -/
def Action.Steady (others : Multiset (Action φ)) : Action φ → Prop
  | .createUseLease _ pid _ | .createCommitLease _ _ _ pid =>
    0 < pid ∧ ∀ a ∈ others, a.unwatches pid = false
  | .createTtlUseLease _ pid ttl _ =>
    zeroDuration < ttl → 0 < pid ∧ ∀ a ∈ others, a.unwatches pid = false
  | _ => True

namespace Manager

variable {m : Manager φ}

/-- The processes that are to be unwatched have left the index, and no process has come in. -/
def Cleared (m : Manager φ) (result : Manager φ × List Int32) : Prop :=
  (∀ pid ∈ result.2, pid ∉ result.1.pidIndex) ∧ ∀ pid ∈ result.1.pidIndex, pid ∈ m.pidIndex

lemma cleared_dropGuard {state : Manager φ × List Int32} (h : Cleared m state) (guard : UInt64) :
    Cleared m (dropGuard state guard) := by
  obtain ⟨m₁, _⟩ := state
  simp only [dropGuard]
  cases m₁.guardById.lookup guard with
  | none => exact h
  | some g =>
    dsimp only
    rw [unindex]
    by_cases hkind : g.kind = .pidLiveness ∧ g.pid > 0
    swap
    · rw [if_neg hkind]
      exact h
    rw [if_pos hkind]
    cases hlookup : m₁.pidIndex.lookup g.pid with
    | none => exact h
    | some guards =>
      dsimp only
      by_cases hnil : guards.filter (· ≠ guard) = []
      · -- the last guard of the process
        rw [if_pos hnil]
        constructor
        · intro pid hpid hmem
          obtain ⟨hne, hmem⟩ := mem_erase.mp hmem
          split_ifs at hpid
          · exact h.1 pid hpid hmem
          · rcases mem_append.mp hpid with hpid | hpid
            · exact h.1 pid hpid hmem
            · exact hne (List.mem_singleton.mp hpid)
        · exact fun pid hpid => h.2 pid (mem_erase.mp hpid).2
      · -- the process was in the index before
        rw [if_neg hnil]
        have hold (pid : Int32)
            (hpid : pid ∈ m₁.pidIndex.insert g.pid (guards.filter (· ≠ guard))) :
            pid ∈ m₁.pidIndex := by
          rcases (mem_insert _).mp hpid with rfl | hpid
          · exact mem_of_lookup hlookup
          · exact hpid
        exact ⟨fun pid hpid hmem => h.1 pid hpid (hold pid hmem),
          fun pid hpid => h.2 pid (hold pid hpid)⟩

lemma cleared_retireLease (m : Manager φ) (lease : LeaseRec φ) :
    Cleared m (m.retireLease lease) := by
  have hfold (guards : List UInt64) (state : Manager φ × List Int32) (h : Cleared m state) :
      Cleared m (guards.foldl dropGuard state) := by
    induction guards generalizing state with
    | nil => exact h
    | cons guard guards ih => exact ih _ (cleared_dropGuard h guard)
  obtain ⟨_, hcount⟩ := uncount_shape m lease
  rw [retireLease_eq, hcount]
  exact hfold lease.guards _ ⟨nofun, fun _ hpid => hpid⟩

end Manager

/-- The actions that write the index by process. -/
def Action.writesPids : Action φ → Bool
  | .createUseLease .. | .createTtlUseLease .. | .createCommitLease .. | .retireLease _ => true
  | _ => false

lemma Edit.pids {w : World φ} {a : Action φ} {m' : Manager φ}
    {leaseRenewal : UInt64 → Option Renewal} {sessionRenewal : String → Option Renewal}
    (h : Edit w a m' leaseRenewal sessionRenewal) (ha : a.writesPids = false) :
    m'.monitor = w.manager.monitor ∧ m'.pidIndex = w.manager.pidIndex := by
  have hkept := h.leases
  cases h with
  | same | releaseSession | watches | addFinalizer | createRetentionLease => exact ⟨rfl, rfl⟩
  | createPlacementLease subj ttl extra =>
    rw [Manager.createPlacementLease]
    split_ifs <;> exact ⟨rfl, rfl⟩
  | keepaliveSession | renewPlacement | expireDue => exact (hkept rfl).2.2
  | _ => cases ha

/-! ## The invariant -/

/-- A process with a guard is watched or its watch is on its way, and no unwatch of it is. -/
structure Guarded (w : World φ) (others : Multiset (Action φ)) : Prop where
  monitor : w.manager.monitor = true
  watched : ∀ pid ∈ w.manager.pidIndex, pid ∉ w.exited →
    pid ∈ w.watched ∨ .monitorWatch pid ∈ others
  steady : ∀ pid ∈ w.manager.pidIndex, 0 < pid ∧ ∀ a ∈ others, a.unwatches pid = false

namespace Guarded

variable {w w' : World φ} {a : Action φ} {others : Multiset (Action φ)} {more : List (Action φ)}

section

variable (h : Guarded w (a ::ₘ others))

include h

/-- An action that brings no process into the index and takes no watch from a living process. -/
lemma frame (hmonitor : w'.manager.monitor = w.manager.monitor)
    (hindex : ∀ pid ∈ w'.manager.pidIndex, pid ∈ w.manager.pidIndex)
    (hexited : ∀ pid ∈ w.exited, pid ∈ w'.exited)
    (hwatched : ∀ pid ∈ w'.manager.pidIndex, pid ∉ w'.exited → pid ∈ w.watched → pid ∈ w'.watched)
    (ha : ∀ pid, a = .monitorWatch pid → pid ∈ w'.manager.pidIndex → pid ∈ w'.watched)
    (hmore : ∀ b ∈ more, ∀ pid ∈ w'.manager.pidIndex, b.unwatches pid = false) :
    Guarded w' (↑more + others) where
  monitor := hmonitor.trans h.monitor
  watched pid hpid halive := by
    rcases h.watched pid (hindex pid hpid) (fun hmem => halive (hexited pid hmem)) with hin | hway
    · exact .inl (hwatched pid hpid halive hin)
    · rcases mem_cons.mp hway with heq | hway
      · exact .inl (ha pid heq.symm hpid)
      · exact .inr (mem_add.mpr (.inr hway))
  steady pid hpid := by
    obtain ⟨hpos, hsteady⟩ := h.steady pid (hindex pid hpid)
    refine ⟨hpos, fun b hb => ?_⟩
    rcases mem_add.mp hb with hb | hb
    · exact hmore b (mem_coe.mp hb) pid hpid
    · exact hsteady b (mem_cons_of_mem hb)

lemma idle (hmonitor : w'.manager.monitor = w.manager.monitor)
    (hindex : w'.manager.pidIndex = w.manager.pidIndex)
    (hexited : ∀ pid ∈ w.exited, pid ∈ w'.exited) (hwatched : w'.watched = w.watched)
    (ha : ∀ pid, a ≠ .monitorWatch pid) (hmore : ∀ b ∈ more, ∀ pid, b.unwatches pid = false) :
    Guarded w' (↑more + others) :=
  h.frame hmonitor (fun _ hpid => hindex ▸ hpid) hexited (fun _ _ _ hpid => hwatched ▸ hpid)
    (fun pid heq => absurd heq (ha pid)) fun b hb pid _ => hmore b hb pid

lemma create {pid : Int32} {guards : List UInt64}
    (hsteady : 0 < pid ∧ ∀ a ∈ others, a.unwatches pid = false)
    (hmonitor : w'.manager.monitor = w.manager.monitor)
    (hindex : w'.manager.pidIndex = w.manager.pidIndex.insert pid guards)
    (hexited : w'.exited = w.exited) (hwatched : w'.watched = w.watched)
    (ha : ∀ pid, a ≠ .monitorWatch pid) :
    Guarded w' (↑(w.manager.watchAfter pid) + others) := by
  have hmore : w.manager.watchAfter pid = [.monitorWatch pid] := by
    rw [Manager.watchAfter, if_pos h.monitor]
  rw [hmore]
  constructor
  · exact hmonitor.trans h.monitor
  · intro pid' hpid' halive
    rw [hindex, mem_insert] at hpid'
    rcases hpid' with rfl | hold
    · exact .inr (mem_cons_self _ _)
    · rcases h.watched pid' hold (hexited ▸ halive) with hin | hway
      · exact .inl (hwatched ▸ hin)
      · exact .inr (mem_cons_of_mem ((mem_cons.mp hway).resolve_left (ha pid').symm))
  · intro pid' hpid'
    have hothers : 0 < pid' ∧ ∀ b ∈ others, b.unwatches pid' = false := by
      rw [hindex, mem_insert] at hpid'
      rcases hpid' with rfl | hold
      · exact hsteady
      · obtain ⟨hpos, hall⟩ := h.steady pid' hold
        exact ⟨hpos, fun b hb => hall b (mem_cons_of_mem hb)⟩
    exact ⟨hothers.1, forall_mem_cons.mpr ⟨rfl, hothers.2⟩⟩

/-- What one action does. -/
lemma act (hsteady : a.Steady others) (hact : Sessions.act a w = some (w', more)) :
    Guarded w' (↑more + others) := by
  have hnil : ∀ b ∈ ([] : List (Action φ)), ∀ pid, b.unwatches pid = false := by simp
  have hsame : ∀ pid ∈ w.exited, pid ∈ w.exited := fun _ hpid => hpid
  have hedit := act_edit hact
  have hmore := act_more hact
  cases a
  case createUseLease | createCommitLease =>
    cases hact
    exact h.create hsteady rfl rfl rfl rfl (by simp)
  case createTtlUseLease subj pid ttl extra =>
    rw [Sessions.act] at hact
    split_ifs at hact with httl <;> cases hact
    · exact h.idle rfl rfl hsame rfl (by simp) hnil
    · exact h.create (hsteady (not_le.mp httl)) rfl rfl rfl rfl (by simp)
  case unwatchPid pid =>
    -- the unwatch follows if the process is not in the index
    obtain ⟨hmonitor, hindex⟩ := hedit.pids rfl
    rw [Sessions.act] at hact
    refine h.frame hmonitor (fun _ hpid => hindex ▸ hpid) ?_ ?_ (by simp) ?_ <;>
      split_ifs at hact <;> cases hact <;> grind [Action.unwatches]
  case retireLease id =>
    rw [Sessions.act] at hact
    split at hact <;> cases hact
    · exact h.idle rfl rfl hsame rfl (by simp) hnil
    rename_i lease hlookup
    obtain ⟨hgone, hindex⟩ := Manager.cleared_retireLease w.manager lease
    obtain ⟨_, _, hm'⟩ := Manager.retireLease_shape w.manager lease
    have hmonitor : (w.manager.retireLease lease).1.monitor = w.manager.monitor := by rw [hm']
    refine h.frame hmonitor hindex hsame (fun _ _ _ hpid => hpid) (by simp) ?_
    intro b hb pid hpid
    rcases mem_append.mp hb with hb | hb
    · obtain ⟨f, -, rfl⟩ := mem_map.mp hb
      rfl
    · obtain rfl := List.mem_singleton.mp hb
      exact decide_eq_false fun hmem => hgone pid hmem hpid
  case unwatchRetired pids =>
    cases hact
    refine h.frame rfl (fun _ hpid => hpid) hsame (fun _ _ _ hpid => hpid) (by simp) ?_
    intro b hb pid hpid
    split_ifs at hb
    · obtain ⟨p, hp, rfl⟩ := mem_map.mp hb
      have hout := (h.steady pid hpid).2 _ (mem_cons_self _ _)
      refine decide_eq_false ?_
      rintro rfl
      exact of_decide_eq_false hout hp
    · cases hb
  case monitorWatch pid =>
    cases hact
    split_ifs with hpid
    · refine h.frame rfl (fun _ hpid => hpid) hsame (fun _ _ _ hpid => hpid) ?_ (by simp)
      rintro pid' ⟨⟩ hpid'
      exact absurd (h.steady pid hpid').1 (Int32.not_lt.mpr hpid)
    · refine h.frame rfl (fun _ hpid => hpid) hsame
        (fun _ _ _ hpid => mem_insert_of_mem hpid) ?_ (by simp)
      rintro pid' ⟨⟩ -
      exact mem_insert_self
  case monitorUnwatch pid =>
    cases hact
    split_ifs
    · exact h.idle rfl rfl hsame rfl (by simp) hnil
    · refine h.frame rfl (fun _ hpid => hpid) hsame ?_ (by simp) (by simp)
      intro pid' hpid' _ hin
      have hother := of_decide_eq_false ((h.steady pid' hpid').2 _ (mem_cons_self _ _))
      exact mem_filter.mpr ⟨hin, decide_eq_true (Ne.symm hother)⟩
  case noticeExit order pid =>
    rw [Sessions.act] at hact
    split_ifs at hact with hexit
    cases hact
    refine h.frame rfl (fun _ hpid => hpid) hsame ?_ (by simp) (by simp [Action.unwatches])
    -- the watch of a process that has exited
    intro pid' _ halive hin
    refine mem_filter.mpr ⟨hin, decide_eq_true ?_⟩
    rintro rfl
    exact halive hexit
  all_goals
    -- the other actions touch neither the index nor the monitor, and no unwatch follows them
    obtain ⟨hmonitor, hindex⟩ := hedit.pids rfl
    simp only [Sessions.act, World.created] at hact
    refine h.idle hmonitor hindex (by grind) (by grind) (by simp) ?_
    · intro b hb
      have htame : b.tame = true := by grind
      cases b <;> first | exact fun _ => rfl | cases htame

end

lemma of_reached {now : ℤ} {p : Calls φ}
    (h : Reached (fun _ others a => a.Steady others) (World.start true now) p) :
    Guarded p.shared p.pending := by
  refine Agendas.invariant h ?_ ?_ fun a w w' more others hsteady hact hw => hw.act hsteady hact
  · exact ⟨rfl, nofun, nofun⟩
  · -- a call is not an unwatch
    intro call w others hw
    have hcall (pid : Int32) : call.action.unwatches pid = false := by
      obtain ⟨a, hcall⟩ := call
      cases a with
      | monitorUnwatch | unwatchRetired => cases hcall
      | _ => rfl
    refine ⟨hw.monitor, fun pid hpid halive => ?_, fun pid hpid => ?_⟩
    · exact (hw.watched pid hpid halive).imp_right mem_cons_of_mem
    · refine ⟨(hw.steady pid hpid).1, fun b hb => ?_⟩
      rcases mem_cons.mp hb with rfl | hb
      · exact hcall pid
      · exact (hw.steady pid hpid).2 b hb

end Guarded

/-- With a monitor, and if no lease is created for a process while an unwatch of it is on its way: when
no call is in progress, a process that has a guard and has not exited is watched. -/
theorem guarded_processes_are_watched {now : ℤ} {p : Calls φ}
    (h : Reached (fun _ others a => a.Steady others) (World.start true now) p)
    (hquiet : p.Quiescent) (pid : Int32) (hguards : p.shared.manager.pidGuards pid ≠ [])
    (halive : pid ∉ p.shared.exited) : pid ∈ p.shared.watched := by
  have hw := Guarded.of_reached h
  have hindex : pid ∈ p.shared.manager.pidIndex := by
    by_contra hnone
    rw [Manager.pidGuards, lookup_eq_none.mpr hnone] at hguards
    exact hguards rfl
  rw [hquiet.pending] at hw
  exact (hw.watched pid hindex halive).resolve_right (notMem_zero _)

/-- Process 7 has taken a lease and is watched. -/
def watchedUse : Calls Unit :=
  ⟨{ (World.start true 0).created (Manager.createUseLease { monitor := true } hostReplica 7 []) with
    watched := [7] }, [[]]⟩

theorem guarded_processes_are_watched_use :
    watchedUse.shared.manager.pidGuards 7 = [1] ∧ 7 ∈ watchedUse.shared.watched := by
  have hreach : Reached (fun _ others a => a.Steady others) (World.start true 0) watchedUse := by
    refine .snoc (t := .resume 0) (.snoc (t := .resume 0)
      (.snoc (t := .call ⟨.createUseLease hostReplica 7 [], rfl⟩) .refl trivial rfl) ?_ rfl) ?_ rfl
    · refine Agendas.allowed_resume rfl fun others hothers => ⟨by decide, ?_⟩
      -- the call is the only one
      exact Agendas.others_eq_zero rfl hothers ▸ nofun
    · exact Agendas.allowed_resume rfl fun _ _ => trivial
  refine ⟨rfl, guarded_processes_are_watched hreach ?_ 7 (cons_ne_nil _ _) nofun⟩
  intro agenda hagenda
  exact List.mem_singleton.mp hagenda

/-- Process 7 takes a lease, which is released; before the unwatch it takes another one and is
watched. -/
def lateUnwatch : List (Move Unit) :=
  [.call ⟨.createUseLease hostReplica 7 [], .refl true⟩, .resume 0, .resume 0,
    .call ⟨.retireLease 1, .refl true⟩, .resume 1, .resume 1,
    .call ⟨.createUseLease hostReplica 7 [], .refl true⟩, .resume 2, .resume 2,
    .resume 1, .resume 1]

theorem late_unwatch_loses_guarded_process :
    ∃ p : Calls Unit, run step (fun _ _ => true) lateUnwatch ⟨World.start true 0, []⟩ = some p ∧
      p.threads = [[], [], []] ∧ p.shared.manager.pidGuards 7 = [2] ∧ p.shared.exited = [] ∧
      p.shared.watched = [] :=
  ⟨_, rfl, rfl, rfl, rfl, rfl⟩

end TensorCast.Sessions
