import TensorCast.Lib.Expiry
import TensorCast.Sessions.Edits

/-!
# Renewals are honoured

The heap of the deadlines is not cleaned when a lease or a session is renewed: the guard gets the next
generation and a new entry, and `expire_due` skips the entries of earlier generations.  So a lease or
session is collected only when the time that its latest renewal has granted is over.  A later renewal
may shorten the time, and one that is acknowledged after the collection comes too late.
-/

namespace TensorCast.Sessions

open Core Lifecycle Lib Manager List Option Function AList
open Function (update)
open Authority (ReplicaKey DeviceRegistry)
open Binding (Duration)
open Nat (lt_succ_self lt_succ_of_lt lt_of_succ_lt le_succ)

variable {φ : Type}

/-- A guard that fails at a time. -/
def GuardRec.Timed (g : GuardRec) : Prop := g.kind = .deadline ∨ g.kind = .heartbeatTtl

def GuardRec.stamp (g : GuardRec) : Stamp Time := ⟨g.generation.toNat, g.deadline⟩

def SessionGuardRec.stamp (sg : SessionGuardRec) : Stamp Time := ⟨sg.generation.toNat, sg.deadline⟩

def Due.entry (due : Due) : QueueEntry UInt64 Time :=
  ⟨due.guard, due.generation.toNat, due.when⟩

namespace Manager

variable {m m' : Manager φ} {guard id owner : UInt64} {g : GuardRec} {deadline : Time}
  {loose : List UInt64}

def queue (m : Manager φ) : List (QueueEntry UInt64 Time) := m.deadlines.map Due.entry

def guardStamp (m : Manager φ) (guard : UInt64) : Option (Stamp Time) :=
  (m.guardById.lookup guard).map GuardRec.stamp

def sessionStamp (m : Manager φ) (guard : UInt64) : Option (Stamp Time) :=
  (m.sessionGuardById.lookup guard).map SessionGuardRec.stamp

/-! ## The heap of the deadlines -/

/-- The heap tracks the guards of the leases and of the sessions, which have different ids. -/
structure Dated (m : Manager φ) : Prop where
  guard_id : ∀ guard g, m.guardById.lookup guard = some g → g.id = guard
  guard_lt : ∀ guard ∈ m.guardById, guard.toNat < m.nextGuardId.toNat
  due_lt : ∀ due ∈ m.deadlines, due.guard.toNat < m.nextGuardId.toNat
  session_lt : ∀ id ∈ m.sessionGuardById, id.toNat < m.nextGuardId.toNat
  apart : ∀ id ∈ m.sessionGuardById, id ∉ m.guardById
  timed : ∀ due ∈ m.deadlines, ∀ g, m.guardById.lookup due.guard = some g → g.Timed
  guards : Tracks m.queue m.guardStamp
  sessions : Tracks m.queue m.sessionStamp
  session_id : ∀ id sg, m.sessionGuardById.lookup id = some sg →
    sg.id = id ∧ m.sessionBySid.lookup sg.sid = some id
  session_of : ∀ sid id, m.sessionBySid.lookup sid = some id →
    ∃ sg, m.sessionGuardById.lookup id = some sg ∧ sg.sid = sid

lemma guardStamp_eq_some {stamp : Stamp Time} :
    m.guardStamp guard = some stamp ↔ ∃ g, m.guardById.lookup guard = some g ∧ g.stamp = stamp :=
  map_eq_some_iff

lemma sessionStamp_eq_some {stamp : Stamp Time} :
    m.sessionStamp guard = some stamp ↔
      ∃ sg, m.sessionGuardById.lookup guard = some sg ∧ sg.stamp = stamp :=
  map_eq_some_iff

lemma mem_queue {entry : QueueEntry UInt64 Time} :
    entry ∈ m.queue ↔ ∃ due ∈ m.deadlines, due.entry = entry :=
  mem_map

namespace Dated

lemma empty (monitor : Bool) : Dated ({ monitor } : Manager φ) where
  guard_id _ _ hg := nomatch hg
  guard_lt _ hguard := nomatch hguard
  due_lt := nofun
  session_lt _ hid := nomatch hid
  apart _ hid := nomatch hid
  timed := nofun
  guards := .nil
  sessions := .nil
  session_id _ _ hsg := nomatch hsg
  session_of _ _ hid := nomatch hid

/-- Guards and entries of the heap are dropped. -/
lemma thin (h : m.Dated)
    (hguards : ∀ guard g, m'.guardById.lookup guard = some g → m.guardById.lookup guard = some g)
    (hdues : ∀ due ∈ m'.deadlines, due ∈ m.deadlines)
    (hsessions : m'.sessionGuardById = m.sessionGuardById)
    (hsids : m'.sessionBySid = m.sessionBySid)
    (hnext : m.nextGuardId.toNat ≤ m'.nextGuardId.toNat) : m'.Dated := by
  have hmem (guard : UInt64) (hguard : guard ∈ m'.guardById) : guard ∈ m.guardById := by
    obtain ⟨g, hg⟩ := isSome_iff_exists.mp (lookup_isSome.mpr hguard)
    exact mem_of_lookup (hguards guard g hg)
  have hqueue : ∀ entry ∈ m'.queue, entry ∈ m.queue := by
    intro entry hentry
    obtain ⟨due, hdue, rfl⟩ := mem_queue.mp hentry
    exact mem_queue.mpr ⟨due, hdues due hdue, rfl⟩
  constructor
  case guard_id => exact fun guard g hg => h.guard_id guard g (hguards guard g hg)
  case guard_lt => exact fun guard hguard => (h.guard_lt guard (hmem guard hguard)).trans_le hnext
  case due_lt => exact fun due hdue => (h.due_lt due (hdues due hdue)).trans_le hnext
  case session_lt => exact fun id hid => (h.session_lt id (hsessions ▸ hid)).trans_le hnext
  case apart => exact fun id hid hguard => h.apart id (hsessions ▸ hid) (hmem id hguard)
  case timed => exact fun due hdue g hg => h.timed due (hdues due hdue) g (hguards _ g hg)
  case guards =>
    refine (h.guards.thin hqueue).change fun entry _ stamp hstamp => .inl ?_
    obtain ⟨g, hg, rfl⟩ := guardStamp_eq_some.mp hstamp
    exact guardStamp_eq_some.mpr ⟨g, hguards _ g hg, rfl⟩
  case sessions =>
    have hstamps : m'.sessionStamp = m.sessionStamp := by
      ext1 id
      rw [sessionStamp, sessionStamp, hsessions]
    exact hstamps ▸ h.sessions.thin hqueue
  case session_id => exact hsessions ▸ hsids ▸ h.session_id
  case session_of => exact hsessions ▸ hsids ▸ h.session_of

lemma congr (h : m.Dated) (hguards : m'.guardById = m.guardById)
    (hdues : m'.deadlines = m.deadlines) (hsessions : m'.sessionGuardById = m.sessionGuardById)
    (hsids : m'.sessionBySid = m.sessionBySid)
    (hnext : m.nextGuardId.toNat ≤ m'.nextGuardId.toNat) : m'.Dated :=
  h.thin (fun _ _ hg => hguards ▸ hg) (fun _ hdue => hdues ▸ hdue) hsessions hsids hnext

/-! ### Guards of leases -/

section

variable (h : m.Dated)

include h

/-- A guard gets a new record: it is a new guard, or the record is of a later generation. -/
lemma set_guard (hid : g.id = guard) (hlt : guard.toNat < m.nextGuardId.toNat)
    (hapart : guard ∉ m.sessionGuardById)
    (hnew : (∀ due ∈ m.deadlines, due.guard ≠ guard) ∨
      ∃ old, m.guardById.lookup guard = some old ∧ (old.Timed → g.Timed) ∧
        old.generation.toNat < g.generation.toNat) :
    Dated { m with guardById := m.guardById.insert guard g } where
  __ := h
  guard_id := forall_lookup_insert hid h.guard_id
  guard_lt other hother := by
    rcases (mem_insert _).mp hother with rfl | hold
    · exact hlt
    · exact h.guard_lt other hold
  apart other hsession hother := by
    rcases (mem_insert _).mp hother with rfl | hold
    · exact hapart hsession
    · exact h.apart other hsession hold
  timed due hdue found hfound := by
    rcases lookup_insert_cases hfound with ⟨heq, rfl⟩ | ⟨-, hold⟩
    · rcases hnew with hnone | ⟨old, hold, hkind, -⟩
      · exact absurd heq (hnone due hdue)
      · exact hkind (h.timed due hdue old (heq ▸ hold))
    · exact h.timed due hdue found hold
  guards := by
    refine h.guards.change fun entry hentry stamp hstamp => ?_
    obtain ⟨due, hdue, rfl⟩ := mem_queue.mp hentry
    obtain ⟨found, hfound, rfl⟩ := guardStamp_eq_some.mp hstamp
    rcases lookup_insert_cases hfound with ⟨heq, rfl⟩ | ⟨-, hold⟩
    · rcases hnew with hnone | ⟨old, hold, -, hgen⟩
      · exact absurd heq (hnone due hdue)
      · -- the entries of the guard are not ahead of the old record
        have hle := (h.guards _ (mem_queue.mpr ⟨due, hdue, rfl⟩) old.stamp
          (guardStamp_eq_some.mpr ⟨old, heq.symm ▸ hold, rfl⟩)).1
        exact .inr (hle.trans_lt hgen)
    · exact .inl (guardStamp_eq_some.mpr ⟨found, hold, rfl⟩)

lemma push_guard (hg : m.guardById.lookup guard = some g) (htimed : g.Timed) :
    (m.pushDeadline guard g.deadline g.generation).Dated where
  __ := h
  due_lt := by
    rintro due (_ | ⟨_, hdue⟩)
    · exact h.guard_lt guard (mem_of_lookup hg)
    · exact h.due_lt due hdue
  timed := by
    rintro due (_ | ⟨_, hdue⟩) found hfound
    · exact some_inj.mp (hg.symm.trans hfound) ▸ htimed
    · exact h.timed due hdue found hfound
  guards := by
    refine h.guards.push (Due.entry ⟨g.deadline, guard, g.generation⟩) ?_
    intro stamp hstamp
    obtain ⟨found, hfound, rfl⟩ := guardStamp_eq_some.mp hstamp
    cases hg.symm.trans hfound
    rfl
  sessions := by
    refine h.sessions.push (Due.entry ⟨g.deadline, guard, g.generation⟩) ?_
    intro stamp hstamp
    obtain ⟨_, hsg, -⟩ := sessionStamp_eq_some.mp hstamp
    exact absurd (mem_of_lookup hg) (h.apart guard (mem_of_lookup hsg))

lemma next_fresh :
    m.nextGuardId ∉ m.guardById ∧ m.nextGuardId ∉ m.sessionGuardById ∧
      ∀ due ∈ m.deadlines, due.guard ≠ m.nextGuardId := by
  refine ⟨fun hmem => lt_irrefl _ (h.guard_lt _ hmem),
    fun hmem => lt_irrefl _ (h.session_lt _ hmem), ?_⟩
  rintro due hdue heq
  exact lt_irrefl _ (heq ▸ h.due_lt due hdue)

section

variable (hroom : m.nextGuardId.toNat + 1 < 2 ^ 64)

include hroom

lemma addGuard (hid : g.id = m.nextGuardId) : (m.addGuard g).Dated := by
  obtain ⟨hguard, hsession, hdues⟩ := h.next_fresh
  have hsucc := toNat_succ hroom
  have hnext : Dated { m with nextGuardId := m.nextGuardId + 1 } :=
    h.congr rfl rfl rfl rfl (hsucc ▸ le_succ _)
  have hset := hnext.set_guard hid (hsucc ▸ lt_succ_self _) hsession (.inl hdues)
  rw [addGuard_eq (hid ▸ hguard), hid]
  exact hset

lemma enterGuard (hid : g.id = m.nextGuardId) : (m.enterGuard g).Dated := by
  have hadd := h.addGuard hroom hid
  by_cases hkind : g.kind = .deadline
  · have hlookup : (m.addGuard g).guardById.lookup g.id = some g := by
      rw [addGuard_eq (hid ▸ h.next_fresh.1), lookup_insert]
    exact (hadd.push_guard hlookup (.inl hkind)).congr rfl (if_pos hkind) rfl rfl le_rfl
  · exact hadd.congr rfl (if_neg hkind) rfl rfl le_rfl

end

lemma renewGuard (deadline : Time)
    (hgen : ∀ g, m.guardById.lookup guard = some g → g.generation.toNat + 1 < 2 ^ 64) :
    (Manager.renewGuard deadline m guard).Dated := by
  rw [Manager.renewGuard]
  cases hg : m.guardById.lookup guard with
  | none => exact h
  | some g =>
    dsimp only
    split_ifs with htimed
    swap
    · exact h
    obtain rfl := h.guard_id guard g hg
    have hguard := mem_of_lookup hg
    have hset := h.set_guard (g := { g with generation := g.generation + 1, deadline }) rfl
      (h.guard_lt g.id hguard) (fun hmem => h.apart g.id hmem hguard)
      (.inr ⟨g, hg, id, (toNat_succ (hgen g hg)).symm ▸ lt_succ_self _⟩)
    exact hset.push_guard (lookup_insert _) htimed

end

/-! ### Guards of sessions -/

/-- A session leaves the tables. -/
lemma drop_session (h : m.Dated) {sg : SessionGuardRec}
    (hsg : m.sessionGuardById.lookup id = some sg) :
    Dated { m with
      sessionBySid := m.sessionBySid.erase sg.sid
      sessionGuardById := m.sessionGuardById.erase id } where
  __ := h
  session_lt other hother := h.session_lt other (mem_erase.mp hother).2
  apart other hother := h.apart other (mem_erase.mp hother).2
  sessions := by
    refine h.sessions.change fun entry _ stamp hstamp => .inl ?_
    obtain ⟨found, hfound, rfl⟩ := sessionStamp_eq_some.mp hstamp
    exact sessionStamp_eq_some.mpr ⟨found, (lookup_erase_cases hfound).2, rfl⟩
  session_id other found hfound := by
    obtain ⟨hne, hold⟩ := lookup_erase_cases hfound
    obtain ⟨hid, hsid⟩ := h.session_id other found hold
    refine ⟨hid, ?_⟩
    have hsids : found.sid ≠ sg.sid := by
      -- a session has one guard
      intro heq
      have hself := (h.session_id id sg hsg).2
      rw [← heq, hsid] at hself
      exact hne (some_inj.mp hself)
    rw [lookup_erase_ne hsids, hsid]
  session_of sid other hother := by
    obtain ⟨hne, hother⟩ := lookup_erase_cases hother
    obtain ⟨found, hfound, hsid⟩ := h.session_of sid other hother
    have hid : other ≠ id := by
      rintro rfl
      cases hsg.symm.trans hfound
      exact hne hsid.symm
    exact ⟨found, (lookup_erase_ne hid).trans hfound, hsid⟩

lemma set_session (h : m.Dated) (sg : SessionGuardRec)
    (hlt : sg.id.toNat < m.nextGuardId.toNat) (hapart : sg.id ∉ m.guardById)
    {sids : AList fun _ : String => UInt64}
    (hsids : ∀ sid, sids.lookup sid =
      if sid = sg.sid then some sg.id else m.sessionBySid.lookup sid)
    (hsame : ∀ other found, m.sessionGuardById.lookup other = some found →
      (other = sg.id ↔ found.sid = sg.sid))
    (hnew : (∀ due ∈ m.deadlines, due.guard ≠ sg.id) ∨
      ∃ old, m.sessionGuardById.lookup sg.id = some old ∧
        old.generation.toNat < sg.generation.toNat) :
    Dated { m with
      sessionBySid := sids
      sessionGuardById := m.sessionGuardById.insert sg.id sg
      deadlines := ⟨sg.deadline, sg.id, sg.generation⟩ :: m.deadlines } where
  __ := h
  due_lt := by
    rintro due (_ | ⟨_, hdue⟩)
    · exact hlt
    · exact h.due_lt due hdue
  session_lt other hother := by
    rcases (mem_insert _).mp hother with rfl | hother
    · exact hlt
    · exact h.session_lt other hother
  apart other hother := by
    rcases (mem_insert _).mp hother with rfl | hother
    · exact hapart
    · exact h.apart other hother
  timed := by
    rintro due (_ | ⟨_, hdue⟩) g hg
    · exact absurd (mem_of_lookup hg) hapart
    · exact h.timed due hdue g hg
  guards := by
    refine h.guards.push (Due.entry ⟨sg.deadline, sg.id, sg.generation⟩) fun stamp hstamp => ?_
    obtain ⟨g, hg, -⟩ := guardStamp_eq_some.mp hstamp
    exact absurd (mem_of_lookup hg) hapart
  sessions := by
    refine Tracks.push (fun entry hentry => ?_) (Due.entry ⟨sg.deadline, sg.id, sg.generation⟩)
      fun stamp hstamp => ?_
    · refine h.sessions.change (fun entry hentry stamp hstamp => ?_) entry hentry
      obtain ⟨due, hdue, rfl⟩ := mem_queue.mp hentry
      obtain ⟨found, hfound, rfl⟩ := sessionStamp_eq_some.mp hstamp
      rcases lookup_insert_cases hfound with ⟨heq, rfl⟩ | ⟨-, hold⟩
      · rcases hnew with hnone | ⟨old, hold, hgen⟩
        · exact absurd heq (hnone due hdue)
        · have hle := (h.sessions _ hentry old.stamp
            (sessionStamp_eq_some.mpr ⟨old, heq.symm ▸ hold, rfl⟩)).1
          exact .inr (hle.trans_lt hgen)
      · exact .inl (sessionStamp_eq_some.mpr ⟨found, hold, rfl⟩)
    · obtain ⟨found, hfound, rfl⟩ := sessionStamp_eq_some.mp hstamp
      cases (lookup_insert _).symm.trans hfound
      rfl
  session_id other found hfound := by
    rcases lookup_insert_cases hfound with ⟨rfl, rfl⟩ | ⟨hne, hold⟩
    · exact ⟨rfl, (hsids _).trans (if_pos rfl)⟩
    · rw [hsids, if_neg fun hsid => hne ((hsame other found hold).mpr hsid)]
      exact h.session_id other found hold
  session_of sid other hother := by
    rw [hsids] at hother
    split_ifs at hother with hsid
    · cases hother
      exact ⟨sg, lookup_insert _, hsid.symm⟩
    · obtain ⟨found, hfound, hfound_sid⟩ := h.session_of sid other hother
      have hne : other ≠ sg.id := fun heq =>
        hsid (hfound_sid.symm.trans ((hsame other found hfound).mp heq))
      exact ⟨found, (lookup_insert_ne hne).trans hfound, hfound_sid⟩

lemma keepaliveSession (h : m.Dated) (hroom : m.Roomy) (now : ℤ) (sid : String) (ttl : Duration)
    (hgen : ∀ id sg, m.sessionGuardById.lookup id = some sg → sg.sid = sid →
      sg.generation.toNat + 1 < 2 ^ 64) : (m.keepaliveSession now sid ttl).Dated := by
  rw [Manager.keepaliveSession]
  cases hsid : m.sessionBySid.lookup sid with
  | none =>
    obtain ⟨hguard, hsession, hdues⟩ := h.next_fresh
    have hsucc := toNat_succ (lt_of_succ_lt hroom.2)
    have hnext : Dated { m with nextGuardId := m.nextGuardId + 1 } :=
      h.congr rfl rfl rfl rfl (hsucc ▸ le_succ _)
    refine hnext.set_session
      { id := m.nextGuardId, sid, generation := 1, deadline := deadlineAt now ttl }
      (hsucc ▸ lt_succ_self _) hguard ?_ ?_ (.inl hdues)
    · intro other
      split_ifs with heq
      · rw [heq, lookup_insert]
      · rw [lookup_insert_ne heq]
    · intro other found hfound
      constructor
      · rintro rfl
        exact absurd (mem_of_lookup hfound) hsession
      · -- the session had no guard before
        intro heq
        have hother := (h.session_id other found hfound).2
        rw [heq, hsid] at hother
        cases hother
  | some id =>
    obtain ⟨sg, hsg, rfl⟩ := h.session_of sid id hsid
    obtain ⟨rfl, -⟩ := h.session_id id sg hsg
    have hmem := mem_of_lookup hsg
    simp only [hsg]
    refine h.set_session
      { sg with generation := sg.generation + 1, deadline := deadlineAt now ttl }
      (h.session_lt sg.id hmem) (h.apart sg.id hmem) ?_ ?_
      (.inr ⟨sg, hsg, (toNat_succ (hgen sg.id sg hsg rfl)).symm ▸ lt_succ_self _⟩)
    · intro other
      split_ifs with heq
      · rw [heq, hsid]
      · rfl
    · intro other found hfound
      constructor
      · rintro rfl
        rw [some_inj.mp (hsg.symm.trans hfound)]
      · intro heq
        have hother := (h.session_id other found hfound).2
        rw [heq, hsid] at hother
        exact (some_inj.mp hother).symm

/-! ### Expiry -/

lemma collect {c : Collected φ} (h : c.manager.Dated) (due : Due) :
    (Manager.collect c due).manager.Dated := by
  rw [Manager.collect]
  cases hsg : c.manager.sessionGuardById.lookup due.guard with
  | some sg =>
    dsimp only
    split_ifs
    · exact h
    · exact h.drop_session hsg
  | none =>
    cases c.manager.guardById.lookup due.guard with
    | none => exact h
    | some g =>
      dsimp only
      split_ifs <;> exact h

lemma expireDue (h : m.Dated) (now : Time) : (m.expireDue now).manager.Dated := by
  have hfold (dues : List Due) (c : Collected φ) (hc : c.manager.Dated) :
      (dues.foldl Manager.collect c).manager.Dated := by
    induction dues generalizing c with
    | nil => exact hc
    | cons due dues ih => exact ih _ (hc.collect due)
  refine hfold _ _ (h.thin (fun _ _ hg => hg) ?_ rfl rfl le_rfl)
  exact fun due hdue => (mem_filter.mp hdue).1

end Dated

/-! ## What the loops do to the guards -/

variable {other : UInt64}

lemma renewGuard_lookup {found : GuardRec}
    (h : (renewGuard deadline m guard).guardById.lookup other = some found) :
    ∃ g, m.guardById.lookup other = some g ∧ found.lease = g.lease ∧
      (other = guard → found.Timed → found.deadline = deadline) ∧ (other ≠ guard → found = g) := by
  rw [renewGuard] at h
  cases hg : m.guardById.lookup guard with
  | none =>
    simp only [hg] at h
    refine ⟨found, h, rfl, ?_, fun _ => rfl⟩
    rintro rfl
    rw [hg] at h
    cases h
  | some g =>
    simp only [hg] at h
    split_ifs at h with htimed
    · rcases lookup_insert_cases h with ⟨rfl, rfl⟩ | ⟨hne, h⟩
      · exact ⟨g, hg, rfl, fun _ _ => rfl, fun hne => absurd rfl hne⟩
      · exact ⟨found, h, rfl, fun heq => absurd heq hne, fun _ => rfl⟩
    · refine ⟨found, h, rfl, ?_, fun _ => rfl⟩
      rintro rfl hfound
      cases hg.symm.trans h
      exact absurd hfound htimed

variable {guards : List UInt64}

lemma foldl_renewGuard_lookup {found : GuardRec}
    (h : (guards.foldl (renewGuard deadline) m).guardById.lookup other = some found) :
    ∃ g, m.guardById.lookup other = some g ∧ found.lease = g.lease ∧
      (other ∈ guards → found.Timed → found.deadline = deadline) ∧
      (other ∉ guards → found = g) := by
  induction guards generalizing m with
  | nil => exact ⟨found, h, rfl, nofun, fun _ => rfl⟩
  | cons guard guards ih =>
    obtain ⟨_, hmid, hlease, hrenewed, hkept⟩ := ih h
    obtain ⟨g, hg, hlease', hrenewed', hkept'⟩ := renewGuard_lookup hmid
    refine ⟨g, hg, hlease.trans hlease', ?_, ?_⟩
    · intro hmem
      by_cases hrest : other ∈ guards
      · exact hrenewed hrest
      · obtain rfl := hkept hrest
        exact hrenewed' ((mem_cons.mp hmem).resolve_right hrest)
    · intro hmem
      rw [mem_cons, not_or] at hmem
      exact (hkept hmem.2).trans (hkept' hmem.1)

lemma Dated.foldl_renewGuard (h : m.Dated) (deadline : Time)
    (hnodup : guards.Nodup)
    (hgen : ∀ guard ∈ guards, ∀ g, m.guardById.lookup guard = some g →
      g.generation.toNat + 1 < 2 ^ 64) : (guards.foldl (Manager.renewGuard deadline) m).Dated := by
  induction guards generalizing m with
  | nil => exact h
  | cons guard guards ih =>
    rw [nodup_cons] at hnodup
    refine ih (h.renewGuard deadline (hgen guard mem_cons_self)) hnodup.2 ?_
    -- the other guards have not been renewed yet
    intro other hother g hg
    obtain ⟨_, hg', -, -, hkept⟩ := renewGuard_lookup hg
    obtain rfl := hkept (ne_of_mem_of_not_mem hother hnodup.1)
    exact hgen other (mem_cons_of_mem _ hother) g hg'

lemma foldl_dropGuard_lookup {pids : List Int32}
    (h : (guards.foldl dropGuard (m, pids)).1.guardById.lookup guard = some g) :
    m.guardById.lookup guard = some g := by
  induction guards generalizing m pids with
  | nil => exact h
  | cons other guards ih =>
    have hrest : (dropGuard (m, pids) other).1.guardById.lookup guard = some g := ih h
    simp only [dropGuard] at hrest
    cases hother : m.guardById.lookup other with
    | none =>
      simp only [hother] at hrest
      exact hrest
    | some g' =>
      simp only [hother] at hrest
      exact (lookup_erase_cases hrest).2

lemma retireLease_lookup {lease : LeaseRec φ}
    (h : (m.retireLease lease).1.guardById.lookup guard = some g) :
    m.guardById.lookup guard = some g := by
  obtain ⟨_, hcount⟩ := uncount_shape m lease
  rw [retireLease_eq, hcount] at h
  have hfirst := foldl_dropGuard_lookup h
  exact hfirst

/-- What has been collected was due, by its present deadline. -/
structure Ripe (m : Manager φ) (now : Time) (c : Collected φ) : Prop where
  guards : c.manager.guardById = m.guardById
  sessions : ∀ id sg, c.manager.sessionGuardById.lookup id = some sg →
    m.sessionGuardById.lookup id = some sg
  toRetire : ∀ id ∈ c.toRetire, ∃ guard g, m.guardById.lookup guard = some g ∧ g.lease = id ∧
    g.Timed ∧ g.deadline ≤ now
  toErase : ∀ sid ∈ c.sessionsToErase, ∃ id sg, m.sessionGuardById.lookup id = some sg ∧
    sg.sid = sid ∧ sg.deadline ≤ now

/-- One round of the loop: an entry of an earlier generation collects nothing. -/
lemma Ripe.collect {now : Time} {c : Collected φ} {due : Due} (h : Ripe m now c) (hm : m.Dated)
    (hdue : due ∈ m.deadlines) (hnow : due.when ≤ now) : Ripe m now (collect c due) := by
  have hentry : due.entry ∈ m.queue := mem_queue.mpr ⟨due, hdue, rfl⟩
  rw [Manager.collect]
  cases hsg : c.manager.sessionGuardById.lookup due.guard with
  | some sg =>
    have hsg' := h.sessions _ sg hsg
    dsimp only
    split_ifs with hgen
    · exact h
    · have hdeadline : sg.stamp.deadline ≤ now := hm.sessions.due hentry
        (sessionStamp_eq_some.mpr ⟨sg, hsg', rfl⟩)
        (congrArg UInt64.toNat (not_ne_iff.mp hgen)).symm hnow
      refine ⟨h.guards, ?_, h.toRetire, forall_mem_append.mpr ⟨h.toErase, ?_⟩⟩
      · exact fun id found hfound => h.sessions id found (lookup_erase_cases hfound).2
      · exact forall_mem_singleton.mpr ⟨_, sg, hsg', rfl, hdeadline⟩
  | none =>
    cases hg : c.manager.guardById.lookup due.guard with
    | none => exact h
    | some g =>
      have hg' : m.guardById.lookup due.guard = some g := h.guards ▸ hg
      dsimp only
      split_ifs with hgen
      · exact h
      · have hdeadline : g.stamp.deadline ≤ now := hm.guards.due hentry
          (guardStamp_eq_some.mpr ⟨g, hg', rfl⟩)
          (congrArg UInt64.toNat (not_ne_iff.mp hgen)).symm hnow
        refine ⟨h.guards, h.sessions, forall_mem_append.mpr ⟨h.toRetire, ?_⟩, h.toErase⟩
        exact forall_mem_singleton.mpr ⟨_, g, hg', rfl, hm.timed due hdue g hg', hdeadline⟩

lemma ripe_expireDue (hm : m.Dated) (now : Time) : Ripe m now (m.expireDue now) := by
  have hfold (dues : List Due) (hdues : ∀ due ∈ dues, due ∈ m.deadlines ∧ due.when ≤ now)
      (c : Collected φ) (hc : Ripe m now c) : Ripe m now (dues.foldl collect c) := by
    induction dues generalizing c with
    | nil => exact hc
    | cons due dues ih =>
      obtain ⟨hdue, hnow⟩ := hdues due mem_cons_self
      exact ih (fun other hother => hdues other (mem_cons_of_mem _ hother)) _
        (hc.collect hm hdue hnow)
  refine hfold _ (fun due hdue => ?_) _ ⟨rfl, fun _ _ hsg => hsg, nofun, nofun⟩
  rw [mem_filter, decide_eq_true_iff] at hdue
  exact hdue

end Manager

/-! ## The records of the renewals -/

/-- No counter of generations is at its end when a guard is renewed. -/
def Action.Renewable (w : World φ) : Action φ → Prop
  | .renewPlacement id _ => ∀ guard g, w.manager.guardById.lookup guard = some g → g.lease = id →
    g.generation.toNat + 1 < 2 ^ 64
  | .keepaliveSession sid _ => ∀ id sg, w.manager.sessionGuardById.lookup id = some sg →
    sg.sid = sid → sg.generation.toNat + 1 < 2 ^ 64
  | _ => True

structure Honours (m : Manager φ) (leaseRenewal : UInt64 → Option Renewal)
    (sessionRenewal : String → Option Renewal) : Prop where
  drawn : ∀ id renewal, leaseRenewal id = some renewal → id.toNat < m.nextId.toNat
  lease : ∀ id renewal, leaseRenewal id = some renewal → ∀ guard g,
    m.guardById.lookup guard = some g → g.lease = id → g.Timed → g.deadline = renewal.until
  session : ∀ sid renewal, sessionRenewal sid = some renewal → ∀ id sg,
    m.sessionGuardById.lookup id = some sg → sg.sid = sid → sg.deadline = renewal.until

section Edits

variable {w : World φ} {a : Action φ} {m m' : Manager φ}
  {leaseRenewal : UInt64 → Option Renewal} {sessionRenewal : String → Option Renewal}

section

variable {g found : GuardRec} {guard : UInt64}
  (h : (m.addGuard g).guardById.lookup guard = some found)

include h

lemma Manager.addGuard_lookup : found = g ∨ m.guardById.lookup guard = some found := by
  rw [addGuard] at h
  split_ifs at h
  · exact .inr h
  · exact (lookup_insert_cases h).imp And.right And.right

end

section

variable {lease : LeaseRec φ} {guards : List UInt64} (hguards : Guards lease m guards m')

include hguards

lemma Manager.Guards.lookup :
    m'.sessionGuardById = m.sessionGuardById ∧ ∀ guard g, m'.guardById.lookup guard = some g →
      g.lease = lease.id ∨ m.guardById.lookup guard = some g := by
  induction hguards with
  | nil => exact ⟨rfl, fun _ _ hg => .inr hg⟩
  | cons g _ hlease _ _ _ _ ih =>
    refine ⟨ih.1, fun guard found hfound => ?_⟩
    rcases ih.2 guard found hfound with hnew | hold
    · exact .inl hnew
    · rcases addGuard_lookup hold with rfl | hold
      · exact .inl hlease
      · exact .inr hold

lemma Manager.Guards.dated (h : m.Dated) : m'.Dated := by
  induction hguards with
  | nil => exact h
  | cons g hid _ _ _ hroom _ ih => exact ih (h.enterGuard hroom hid)

end

lemma Honours.create (h : Honours w.manager leaseRenewal sessionRenewal)
    {result : Manager φ × LeaseRec φ} (hc : a.creates w = some result) (hfits : a.Fits w)
    (hm : w.manager.Tabled) : Honours result.1 leaseRenewal sessionRenewal := by
  have he := Action.creates_enters hc
  obtain ⟨_, _, hguards, hresult⟩ := Action.creates_guards hc hfits hm
  constructor
  case drawn =>
    intro id renewal hrenewal
    rw [he.nextId, toNat_succ (hfits.roomy hc).1]
    exact lt_succ_of_lt (h.drawn id renewal hrenewal)
  case lease =>
    intro id renewal hrenewal guard g hg hlease
    rw [hresult] at hg
    rcases hguards.lookup.2 guard g hg with hnew | hold
    · have hlt := h.drawn id renewal hrenewal
      rw [← hlease, hnew, he.id] at hlt
      exact absurd hlt (lt_irrefl _)
    · exact h.lease id renewal hrenewal guard g hold hlease
  case session =>
    rw [hresult]
    exact hguards.lookup.1 ▸ h.session

lemma Honours.thin (h : Honours m leaseRenewal sessionRenewal)
    (hguards : ∀ guard g, m'.guardById.lookup guard = some g → m.guardById.lookup guard = some g)
    (hsessions : ∀ id sg, m'.sessionGuardById.lookup id = some sg →
      m.sessionGuardById.lookup id = some sg)
    (hnext : m'.nextId = m.nextId) : Honours m' leaseRenewal sessionRenewal where
  drawn id renewal hrenewal := hnext ▸ h.drawn id renewal hrenewal
  lease id renewal hrenewal guard g hg := h.lease id renewal hrenewal guard g (hguards guard g hg)
  session sid renewal hrenewal id sg hsg :=
    h.session sid renewal hrenewal id sg (hsessions id sg hsg)

lemma Manager.keepaliveSession_lookup (hm : m.Dated) {now : ℤ} {sid : String} {ttl : Duration}
    {id : UInt64} {sg : SessionGuardRec}
    (h : (m.keepaliveSession now sid ttl).sessionGuardById.lookup id = some sg) :
    sg.sid = sid ∧ sg.deadline = deadlineAt now ttl ∨
      sg.sid ≠ sid ∧ m.sessionGuardById.lookup id = some sg := by
  rw [keepaliveSession] at h
  cases hsid : m.sessionBySid.lookup sid with
  | none =>
    simp only [hsid] at h
    rcases lookup_insert_cases h with ⟨-, rfl⟩ | ⟨-, hold⟩
    · exact .inl ⟨rfl, rfl⟩
    · refine .inr ⟨?_, hold⟩
      rintro rfl
      rw [(hm.session_id id sg hold).2] at hsid
      cases hsid
  | some id' =>
    obtain ⟨_, hold, rfl⟩ := hm.session_of sid id' hsid
    simp only [hsid, hold] at h
    rcases lookup_insert_cases h with ⟨-, rfl⟩ | ⟨hne, h⟩
    · exact .inl ⟨rfl, rfl⟩
    · refine .inr ⟨fun heq => hne ?_, h⟩
      have hid := (hm.session_id id sg h).2
      rw [heq, hsid] at hid
      exact (some_inj.mp hid).symm

lemma Edit.dated (h : Edit w a m' leaseRenewal sessionRenewal) (hfits : a.Fits w)
    (hrenew : a.Renewable w) (htabled : w.manager.Tabled) (hm : w.manager.Dated) : m'.Dated := by
  have hdrawn : w.manager.drawId.1.Dated := hm.congr rfl rfl rfl rfl le_rfl
  cases h with
  | same => exact hm
  | createUseLease | createTtlUseLease | createPlacementLease | createRetentionLease
  | createCommitLease =>
    obtain ⟨_, _, hguards, hresult⟩ := Action.creates_guards rfl hfits htabled
    exact hresult ▸ (hguards.dated hdrawn).congr rfl rfl rfl rfl le_rfl
  | keepaliveSession sid ttl => exact hm.keepaliveSession hfits w.now sid ttl hrenew
  | renewPlacement id ttl lease hlookup =>
    refine hm.foldl_renewGuard _ (htabled.indexed.nodup id lease hlookup) ?_
    intro guard hguard g hg
    obtain ⟨g', hg', hlease⟩ := htabled.indexed.guarded id lease hlookup guard hguard
    obtain rfl := some_inj.mp (hg'.symm.trans hg)
    exact hrenew guard g' hg hlease
  | addFinalizer | watches => exact hm.congr rfl rfl rfl rfl le_rfl
  | releaseSession sid guard hlookup =>
    obtain ⟨_, hsg, rfl⟩ := hm.session_of sid guard hlookup
    exact hm.drop_session hsg
  | expireDue now order => exact hm.expireDue now
  | retireLease id lease hlookup =>
    obtain ⟨_, _, hshape⟩ := Manager.retireLease_shape w.manager lease
    refine hm.thin (fun guard g hg => Manager.retireLease_lookup hg) ?_ ?_ ?_ ?_
    all_goals rw [hshape]
    exact fun due hdue => hdue

lemma Edit.honours (h : Edit w a m' leaseRenewal sessionRenewal) (hfits : a.Fits w)
    (htabled : w.manager.Tabled) (hm : w.manager.Dated)
    (hh : Honours w.manager w.leaseRenewal w.sessionRenewal) :
    Honours m' leaseRenewal sessionRenewal := by
  have hleases := h.leases
  cases h with
  | same => exact hh
  | createUseLease | createTtlUseLease | createPlacementLease | createRetentionLease
  | createCommitLease => exact hh.create rfl hfits htabled
  | keepaliveSession sid ttl =>
    have hguards : (w.manager.keepaliveSession w.now sid ttl).guardById = w.manager.guardById := by
      rw [Manager.keepaliveSession]
      split <;> rfl
    refine ⟨(hleases rfl).1.2 ▸ hh.drawn, hguards ▸ hh.lease, ?_⟩
    intro sid' renewal hrenewal id sg hsg hsid
    rcases Manager.keepaliveSession_lookup hm hsg with ⟨heq, hdeadline⟩ | ⟨hne, hold⟩
    · rw [← hsid, heq, update_self, some_inj] at hrenewal
      exact hrenewal ▸ hdeadline
    · rw [← hsid, update_of_ne hne] at hrenewal
      exact hh.session _ renewal hrenewal id sg hold rfl
  | renewPlacement id ttl lease hlookup =>
    obtain ⟨guardById, _, hshape⟩ :=
      Manager.foldl_renewGuard_shape (deadlineAt w.now ttl) lease.guards w.manager
    refine ⟨?_, ?_, ?_⟩
    · intro id' renewal hrenewal
      rw [hshape]
      rcases eq_or_ne id' id with rfl | hne
      · exact htabled.drawn id' (mem_of_lookup hlookup)
      · rw [update_of_ne hne] at hrenewal
        exact hh.drawn id' renewal hrenewal
    · intro id' renewal hrenewal guard found hfound hlease htimed
      obtain ⟨g, hg, hsame, hrenewed, hkept⟩ := Manager.foldl_renewGuard_lookup hfound
      obtain ⟨holder, hholder, hguard⟩ := htabled.indexed.holder hg
      rcases eq_or_ne id' id with rfl | hne
      · -- all guards of the lease have been renewed
        rw [← hsame, hlease, hlookup] at hholder
        cases hholder
        rw [update_self, some_inj] at hrenewal
        exact hrenewal ▸ hrenewed hguard htimed
      · rw [update_of_ne hne] at hrenewal
        have hother : guard ∉ lease.guards := by
          intro hmem
          obtain ⟨_, hg', hid⟩ := htabled.indexed.guarded id lease hlookup guard hmem
          cases hg.symm.trans hg'
          exact hne (hlease.symm.trans (hsame.trans hid))
        obtain rfl := hkept hother
        exact hh.lease id' renewal hrenewal guard found hg hlease htimed
    · rw [hshape]
      exact hh.session
  | addFinalizer | watches => exact hh.thin (fun _ _ hg => hg) (fun _ _ hsg => hsg) rfl
  | releaseSession sid guard hlookup =>
    exact hh.thin (fun _ _ hg => hg) (fun id sg hsg => (lookup_erase_cases hsg).2) rfl
  | expireDue now order =>
    have hripe := Manager.ripe_expireDue hm now
    exact hh.thin (fun _ _ hg => hripe.guards ▸ hg) hripe.sessions (hleases rfl).1.2
  | retireLease id lease hlookup =>
    obtain ⟨_, guardById, hshape⟩ := Manager.retireLease_shape w.manager lease
    refine hh.thin (fun guard g hg => Manager.retireLease_lookup hg) ?_ (by rw [hshape])
    rw [hshape]
    exact fun _ _ hsg => hsg

end Edits

/-- The tables agree, the heap tracks the guards, and the guards have the deadlines of the latest
renewals. -/
structure Renewed (w : World φ) : Prop where
  tabled : w.manager.Tabled
  dated : w.manager.Dated
  honours : Honours w.manager w.leaseRenewal w.sessionRenewal

lemma Renewed.of_reached {monitor : Bool} {now : ℤ} {p : Calls φ}
    (h : Reached (fun w _ a => a.Fits w ∧ a.Renewable w) (World.start monitor now) p) :
    Renewed p.shared := by
  refine Agendas.invariant (I := fun w _ => Renewed w) h ?_ (fun _ _ _ hw => hw) ?_
  · have hnone {κ : Type} {renewal : Renewal} (key : κ)
        (h : (fun _ => none : κ → Option Renewal) key = some renewal) : False := nomatch h
    refine ⟨.empty monitor, .empty monitor, ?_⟩
    exact ⟨fun id _ h => (hnone id h).elim, fun id _ h => (hnone id h).elim,
      fun sid _ h => (hnone sid h).elim⟩
  · rintro a w w' more others ⟨hfits, hrenew⟩ hact hw
    have hedit := act_edit hact
    exact ⟨hedit.tabled hfits hw.tabled, hedit.dated hfits hrenew hw.tabled hw.dated,
      hedit.honours hfits hw.tabled hw.dated hw.honours⟩

def seconds (n : ℤ) : Duration := (n : WithTop ℤ)

/-- A placement for ten seconds has been renewed for five. -/
def shortened : World Unit :=
  { World.start true 0 with
    manager :=
      [1].foldl (renewGuard (deadlineAt 0 (seconds 5)))
        (createPlacementLease { monitor := true } 0 hostReplica (seconds 10) []).1
    registered := [(1, .reclaim hostReplica)]
    leaseRenewal := update (fun _ => none) 1 (some ⟨0, seconds 5⟩) }

/-- A placement is renewed when its time is over, but `expire_due` has collected it by then. -/
def overtaken : List (Move Unit) :=
  [.call ⟨.createPlacementLease hostReplica (seconds 10) [], rfl⟩, .resume 0,
    .call ⟨.tick 10, rfl⟩, .resume 1,
    .call ⟨.expireDue (deadlineAt 10 (seconds 0)) .asIs, rfl⟩, .resume 2,
    .call ⟨.renewPlacement 1 (seconds 100), rfl⟩, .resume 3]

/-- A placement is renewed for a hundred seconds and then for five, which are over. -/
def cutShort : List (Move Unit) :=
  [.call ⟨.createPlacementLease hostReplica (seconds 10) [], rfl⟩, .resume 0,
    .call ⟨.renewPlacement 1 (seconds 100), rfl⟩, .resume 1,
    .call ⟨.renewPlacement 1 (seconds 5), rfl⟩, .resume 2,
    .call ⟨.tick 5, rfl⟩, .resume 3,
    .call ⟨.expireDue (deadlineAt 5 (seconds 0)) .asIs, rfl⟩, .resume 4]

end TensorCast.Sessions
