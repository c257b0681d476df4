import Mathlib

/-!
# A map with least-recently-used eviction

The entries of the map are kept beside a list of their keys, the most recently used first.  The
structure carries the proof that the two agree.  What the entries satisfy is a predicate that each
operation preserves.
-/

namespace TensorCast.Lib

open List

/-- A map of bounded size with the keys in order of use. -/
structure Lru (κ ν : Type*) where
  capacity : ℕ
  /-- The keys, most recently used first. -/
  order : List κ
  entries : List (κ × ν)
  nodup : order.Nodup
  agree : (entries.map Prod.fst).Perm order

namespace Lru

variable {κ ν : Type*} [DecidableEq κ]

def empty (capacity : ℕ) : Lru κ ν :=
  { capacity := max capacity 1, order := [], entries := [], nodup := .nil, agree := .refl _ }

def find? (c : Lru κ ν) (k : κ) : Option ν :=
  (c.entries.find? fun e => e.1 = k).map Prod.snd

/-- Remove a key and its entry. -/
def erase (c : Lru κ ν) (k : κ) : Lru κ ν where
  capacity := c.capacity
  order := c.order.filter (· ≠ k)
  entries := c.entries.filter (·.1 ≠ k)
  nodup := c.nodup.filter _
  agree := by
    have h := c.agree.filter (· ≠ k)
    rwa [List.filter_map] at h

/-- Move a present key to the front of the order. -/
def touch (c : Lru κ ν) (k : κ) : Lru κ ν :=
  if h : k ∈ c.order then
    { c with
      order := k :: c.order.filter (· ≠ k)
      nodup := List.nodup_cons.mpr ⟨by simp, c.nodup.filter _⟩
      agree := by
        have hp := List.perm_cons_erase h
        rw [c.nodup.erase_eq_filter] at hp
        refine c.agree.trans (hp.trans (List.Perm.of_eq ?_))
        congr 1
        exact List.filter_congr fun x _ => by simp [bne, Bool.beq_eq_decide_eq] }
  else c

/-- Replace the value of a present key. -/
def replace (c : Lru κ ν) (k : κ) (v : ν) : Lru κ ν where
  capacity := c.capacity
  order := c.order
  entries := c.entries.map fun e => if e.1 = k then (k, v) else e
  nodup := c.nodup
  agree := by
    have h : (c.entries.map fun e => if e.1 = k then (k, v) else e).map Prod.fst =
        c.entries.map Prod.fst := by
      rw [List.map_map]
      refine List.map_congr_left fun e _ => ?_
      simp only [Function.comp_apply]
      split
      · rename_i hek
        exact hek.symm
      · rfl
    rw [h]
    exact c.agree

/-- Remove entries from the back of the order while there are more than the capacity. -/
def evict : ℕ → Lru κ ν → Lru κ ν
  | 0, c => c
  | fuel + 1, c =>
    if c.capacity < c.entries.length then
      match c.order.getLast? with
      | none => c
      | some last => evict fuel (c.erase last)
    else c

/-- The eviction loop removes one key a round, so the number of keys is enough fuel. -/
def evictIfNeeded (c : Lru κ ν) : Lru κ ν := evict c.order.length c

def setCapacity (c : Lru κ ν) (capacity : ℕ) : Lru κ ν :=
  evictIfNeeded { c with capacity := max capacity 1 }

/-- Add an absent key in front. -/
def push (c : Lru κ ν) (k : κ) (v : ν) (h : k ∉ c.entries.map Prod.fst) : Lru κ ν where
  capacity := c.capacity
  order := k :: c.order
  entries := (k, v) :: c.entries
  nodup := List.nodup_cons.mpr ⟨fun hk => h (c.agree.mem_iff.mpr hk), c.nodup⟩
  agree := c.agree.cons k

def insert (c : Lru κ ν) (k : κ) (v : ν) : Lru κ ν :=
  if h : k ∈ c.entries.map Prod.fst then (c.replace k v).touch k
  else evictIfNeeded (c.push k v h)

/-! ## What the entries satisfy -/

/-- Every entry satisfies the predicate. -/
def All (P : κ → ν → Prop) (c : Lru κ ν) : Prop := ∀ e ∈ c.entries, P e.1 e.2

section All

variable {P : κ → ν → Prop} {c : Lru κ ν}

omit [DecidableEq κ] in
lemma all_empty (capacity : ℕ) : All P (empty capacity : Lru κ ν) :=
  fun _ h => absurd h (by simp [empty])

section

variable (h : All P c)

include h

lemma All.find? {k : κ} {v : ν} (hf : c.find? k = some v) : P k v := by
  rw [Lru.find?, Option.map_eq_some_iff] at hf
  obtain ⟨e, he, rfl⟩ := hf
  have hk : e.1 = k := by simpa using find?_some he
  rw [← hk]
  exact h e (mem_of_find?_eq_some he)

lemma All.erase (k : κ) : All P (c.erase k) :=
  fun e he => h e (mem_of_mem_filter he)

lemma All.touch (k : κ) : All P (c.touch k) := by
  unfold Lru.touch
  split
  · exact h
  · exact h

lemma All.replace {k : κ} {v : ν} (hv : P k v) : All P (c.replace k v) := by
  intro e he
  obtain ⟨e', he', rfl⟩ := mem_map.mp he
  split
  · exact hv
  · exact h e' he'

lemma All.evict (fuel : ℕ) : All P (evict fuel c) := by
  induction fuel generalizing c with
  | zero => exact h
  | succ fuel ih =>
    rw [Lru.evict]
    split
    · split
      · exact h
      · exact ih (h.erase _)
    · exact h

lemma All.setCapacity (capacity : ℕ) : All P (c.setCapacity capacity) :=
  All.evict (c := { c with capacity := max capacity 1 }) h _

lemma All.insert {k : κ} {v : ν} (hv : P k v) : All P (c.insert k v) := by
  unfold Lru.insert
  split
  · exact (h.replace hv).touch k
  · rename_i hk
    have hpush : All P (c.push k v hk) := forall_mem_cons.mpr ⟨hv, h⟩
    exact hpush.evict _

end

end All

end Lru

end TensorCast.Lib
