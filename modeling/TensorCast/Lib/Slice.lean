import TensorCast.Lib.Tiling

/-!
# Slices of a function on positions

What a read delivers is a list of consecutive values of some function: the bytes of a source, or
the bytes that a program denotes.  `slice f a n` is that list, and a copy loop is right when the
pieces it appends are slices that follow each other.
-/

namespace TensorCast.Lib

open List

variable {γ : Type*} {f g : ℕ → γ} {a m n : ℕ}

/-- The values of `f` at the `n` positions from `a` on. -/
def slice (f : ℕ → γ) (a n : ℕ) : List γ := (List.range n).map fun k => f (a + k)

@[simp] lemma length_slice : (slice f a n).length = n := by simp [slice]

@[simp] lemma slice_zero : slice f a 0 = [] := rfl

lemma slice_add (f : ℕ → γ) (a m n : ℕ) : slice f a (m + n) = slice f a m ++ slice f (a + m) n := by
  simp only [slice, range_add, map_append, map_map]
  congr 1
  refine map_congr_left fun k _ => ?_
  rw [Function.comp_apply, add_assoc]

lemma slice_append (h : m ≤ n) : slice f a m ++ slice f (a + m) (n - m) = slice f a n := by
  rw [← slice_add, Nat.add_sub_cancel' h]

lemma slice_congr {b : ℕ} (h : ∀ k < n, f (a + k) = g (b + k)) : slice f a n = slice g b n :=
  map_congr_left fun k hk => h k (mem_range.mp hk)

lemma getElem?_slice {k : ℕ} (hk : k < n) : (slice f a n)[k]? = some (f (a + k)) := by
  simp [slice, hk]

lemma take_drop_slice {i : ℕ} (h : i + m ≤ n) :
    ((slice f a n).drop i).take m = slice f (a + i) m := by
  obtain ⟨r, rfl⟩ := Nat.exists_eq_add_of_le h
  rw [slice_add, slice_add, append_assoc, drop_left' length_slice, take_left' length_slice]

lemma eq_slice_of_getElem? {xs : List γ} (hlen : xs.length = n)
    (h : ∀ k < n, xs[k]? = some (f (a + k))) : xs = slice f a n := by
  refine ext_getElem? fun k => ?_
  by_cases hk : k < n
  · rw [h k hk, getElem?_slice hk]
  · rw [getElem?_eq_none (by omega), getElem?_eq_none (by rw [length_slice]; omega)]

lemma Extent.Tiled.flatMap_slice {σ : Type*} {E : Extent σ} {b : ℕ} {xs : List σ}
    (h : E.Tiled a xs b) :
    (xs.flatMap fun s => slice f (E.lo s) (E.hi s - E.lo s)) = slice f a (b - a) := by
  induction xs generalizing a with
  | nil =>
    rw [show b = a from h.symm, Nat.sub_self]
    rfl
  | cons s rest ih =>
    obtain ⟨rfl, hlt, hrest⟩ := h
    have hle := hrest.le
    have hsplit : b - E.lo s = (E.hi s - E.lo s) + (b - E.hi s) := by omega
    rw [flatMap_cons, ih hrest, hsplit, slice_add, Nat.add_sub_cancel' hlt.le]

end TensorCast.Lib
