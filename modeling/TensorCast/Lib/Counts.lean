import Mathlib

/-!
# Reference counts

A table gives some resources a count.  It is right for a list of holders if every resource that is
in the table has as many holders as its count says, and every holder holds a resource that is in
the table.  The rules below say how the table may follow when a holder comes or goes.
-/

namespace TensorCast.Lib

open Function List

variable {ι ρ : Type*} [DecidableEq ρ]

/-- The table is right for the holders, each of which holds the resource `key` says. -/
structure Counts (key : ι → ρ) (holders : List ι) (count : ρ → Option ℕ) : Prop where
  count_eq : ∀ r n, count r = some n → n = holders.countP fun h => key h = r
  recorded : ∀ h ∈ holders, ∃ n, count (key h) = some n

namespace Counts

variable {key : ι → ρ} {holders rest : List ι} {count : ρ → Option ℕ} {h : ι} {r : ρ} {n : ℕ}

lemma empty : Counts key [] fun _ => none :=
  ⟨nofun, nofun⟩

section

variable (hc : Counts key holders count)

include hc

lemma of_perm (hperm : holders.Perm rest) : Counts key rest count := by
  refine ⟨fun r n hr => ?_, fun h hh => hc.recorded h (hperm.mem_iff.mpr hh)⟩
  rw [← hperm.countP_eq]
  exact hc.count_eq r n hr

lemma pos (hmem : h ∈ holders) (hr : count (key h) = some n) : 0 < n := by
  rw [hc.count_eq _ _ hr, countP_pos_iff]
  exact ⟨h, hmem, by simp⟩

/-- The entry of one resource changes, and the holders of the others stay. -/
lemma set {holders' : List ι} {entry : Option ℕ}
    (hentry : ∀ n, entry = some n → n = holders'.countP fun h => key h = r)
    (hrecorded : ∀ h ∈ holders', key h = r → ∃ n, entry = some n)
    (hcount : ∀ r' ≠ r, (holders'.countP fun h => key h = r') = holders.countP fun h => key h = r')
    (hmem : ∀ h ∈ holders', key h ≠ r → h ∈ holders) :
    Counts key holders' (update count r entry) := by
  refine ⟨fun r' n hn => ?_, fun h hh => ?_⟩
  · rcases eq_or_ne r' r with rfl | hne
    · exact hentry n (by rwa [update_self] at hn)
    · rw [update_of_ne hne] at hn
      rw [hcount r' hne]
      exact hc.count_eq r' n hn
  · rcases eq_or_ne (key h) r with heq | hne
    · rw [heq, update_self]
      exact hrecorded h hh heq
    · rw [update_of_ne hne]
      exact hc.recorded h (hmem h hh hne)

lemma enter (hr : count r = none) : Counts key holders (update count r (some 0)) := by
  have hnone : ∀ h ∈ holders, key h ≠ r := by
    rintro h hh rfl
    obtain ⟨n, hn⟩ := hc.recorded h hh
    rw [hr] at hn
    cases hn
  refine hc.set ?_ (fun h hh heq => absurd heq (hnone h hh)) (fun _ _ => rfl) fun h hh _ => hh
  rintro n ⟨⟩
  symm
  rw [countP_eq_zero]
  intro h hh
  simpa using hnone h hh

lemma leave (hr : count r = some 0) : Counts key holders (update count r none) := by
  refine hc.set nofun ?_ (fun _ _ => rfl) fun h hh _ => hh
  rintro h hh rfl
  exact absurd (hc.pos hh hr) (lt_irrefl 0)

lemma take (hr : count (key h) = some n) :
    Counts key (h :: holders) (update count (key h) (some (n + 1))) := by
  refine hc.set ?_ (fun _ _ _ => ⟨_, rfl⟩) (fun r hne => ?_) fun h' hh' hne => ?_
  · rintro m ⟨⟩
    rw [countP_cons_of_pos (by simp), ← hc.count_eq _ _ hr]
  · exact countP_cons_of_neg (by simpa using hne.symm)
  · exact (mem_cons.mp hh').resolve_left fun he => hne (he ▸ rfl)

end

lemma give (hc : Counts key (h :: rest) count) (hr : count (key h) = some (n + 1)) :
    Counts key rest (update count (key h) (some n)) := by
  refine hc.set ?_ (fun _ _ _ => ⟨_, rfl⟩) (fun r hne => ?_) fun h' hh' _ => .tail h hh'
  · rintro m ⟨⟩
    have hcount := hc.count_eq _ _ hr
    rw [countP_cons_of_pos (by simp)] at hcount
    exact Nat.succ.inj hcount
  · rw [countP_cons_of_neg (by simpa using hne.symm)]

lemma give_last (hc : Counts key (h :: rest) count) (hr : count (key h) = some 1) :
    Counts key rest (update count (key h) none) := by
  have hgive := hc.give hr
  have hleave := hgive.leave (update_self (key h) (some 0) count)
  rwa [update_idem] at hleave

end Counts

/-- A list without the entry of one id, when the ids differ. -/
lemma perm_cons_filter_ne {κ : Type*} [DecidableEq κ] {id : ι → κ} {l : List ι} {h : ι}
    (hnodup : (l.map id).Nodup) (hmem : h ∈ l) :
    l.Perm (h :: l.filter fun h' => id h' ≠ id h) := by
  induction l with
  | nil => cases hmem
  | cons x l ih =>
    rw [map_cons, nodup_cons] at hnodup
    rcases mem_cons.mp hmem with rfl | hrest
    · -- no other entry has this id
      have hfilter : (l.filter fun h' => id h' ≠ id h) = l := by
        rw [filter_eq_self]
        intro h' hh'
        have hne : id h' ≠ id h := fun heq => hnodup.1 (heq ▸ mem_map_of_mem hh')
        simpa using hne
      rw [filter_cons_of_neg (by simp), hfilter]
    · have hne : id x ≠ id h := fun heq => hnodup.1 (heq ▸ mem_map_of_mem hrest)
      rw [filter_cons_of_pos (by simpa using hne)]
      exact ((ih hnodup.2 hrest).cons x).trans (Perm.swap h x _)

end TensorCast.Lib
