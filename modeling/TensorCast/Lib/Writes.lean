import Mathlib

/-!
# Writes to a memory

A memory is a function from addresses to values, and a list of writes changes it one write after
the other.  Writes to distinct addresses may be made in any order, and a list of writes leaves
the same memory whatever the addresses that it overwrites held before.
-/

namespace TensorCast.Lib

open List Function

variable {α β : Type*} [DecidableEq α]

/-- The memory after the writes, made from left to right. -/
def writeAll (writes : List (α × β)) (memory : α → β) : α → β :=
  writes.foldl (fun memory w => Function.update memory w.1 w.2) memory

@[simp] lemma writeAll_nil (memory : α → β) : writeAll [] memory = memory := rfl

@[simp] lemma writeAll_cons (w : α × β) (writes : List (α × β)) (memory : α → β) :
    writeAll (w :: writes) memory = writeAll writes (Function.update memory w.1 w.2) := rfl

lemma writeAll_append (first second : List (α × β)) (memory : α → β) :
    writeAll (first ++ second) memory = writeAll second (writeAll first memory) :=
  foldl_append

variable {writes : List (α × β)} {memory memory' : α → β}

lemma writeAll_apply_congr {a : α} (h : a ∉ writes.map Prod.fst → memory a = memory' a) :
    writeAll writes memory a = writeAll writes memory' a := by
  induction writes generalizing memory memory' with
  | nil => exact h (by simp)
  | cons w rest ih =>
    rw [writeAll_cons, writeAll_cons]
    refine ih fun hrest => ?_
    by_cases ha : a = w.1
    · rw [ha, update_self, update_self]
    · rw [update_of_ne ha, update_of_ne ha]
      refine h fun hmem => ?_
      rcases mem_cons.mp hmem with hw | hw
      · exact ha hw
      · exact hrest hw

lemma writeAll_of_notMem {memory : α → β} {a : α}
    (h : a ∉ writes.map Prod.fst) : writeAll writes memory a = memory a := by
  induction writes generalizing memory with
  | nil => rfl
  | cons w rest ih =>
    rw [map_cons, mem_cons, not_or] at h
    rw [writeAll_cons, ih h.2, update_of_ne h.1]

lemma writeAll_map_self (l : List α) (f : α → β) (memory : α → β) (a : α) :
    writeAll (l.map fun x => (x, f x)) memory a = if a ∈ l then f a else memory a := by
  induction l generalizing memory with
  | nil => rfl
  | cons x l ih =>
    rw [map_cons, writeAll_cons, ih]
    by_cases hl : a ∈ l
    · rw [if_pos hl, if_pos (mem_cons_of_mem _ hl)]
    · rw [if_neg hl]
      by_cases hx : a = x
      · rw [hx, update_self, if_pos mem_cons_self]
      · rw [update_of_ne hx, if_neg (by simp [hx, hl])]

def AgreeOff (writes : List (α × β)) (memory memory' : α → β) : Prop :=
  ∀ a, a ∉ writes.map Prod.fst → memory' a = memory a

lemma writeAll_of_agreeOff (h : AgreeOff writes memory memory') :
    writeAll writes memory' = writeAll writes memory := by
  funext a
  exact writeAll_apply_congr (h a)

/-- **Writes to distinct addresses commute.** -/
lemma writeAll_perm {writes writes' : List (α × β)} (h : writes.Perm writes')
    (hnd : (writes.map Prod.fst).Nodup) (memory : α → β) :
    writeAll writes memory = writeAll writes' memory := by
  induction h generalizing memory with
  | nil => rfl
  | cons w _ ih =>
    rw [map_cons, nodup_cons] at hnd
    exact ih hnd.2 _
  | swap w₁ w₂ rest =>
    rw [map_cons, map_cons, nodup_cons, mem_cons, not_or] at hnd
    rw [writeAll_cons, writeAll_cons, writeAll_cons, writeAll_cons, update_comm hnd.1.1]
  | trans hp _ ih₁ ih₂ => exact (ih₁ hnd memory).trans (ih₂ ((hp.map _).nodup_iff.mp hnd) memory)

end TensorCast.Lib
