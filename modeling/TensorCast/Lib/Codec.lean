import Mathlib

/-!
# Fixed-width byte encodings

A payload that is hashed is a concatenation of fixed-width fields.  Such an encoding loses
nothing: a number is recovered from its little-endian bytes up to the width, and a list from the
concatenation of the encodings of its elements.
-/

namespace TensorCast.Lib

open List Nat

/-- The `k` low bytes of a number, the lowest first. -/
def leBytes : ℕ → ℕ → List UInt8
  | 0, _ => []
  | k + 1, v => UInt8.ofNat (v % 256) :: leBytes k (v / 256)

@[simp] lemma length_leBytes (k v : ℕ) : (leBytes k v).length = k := by
  induction k generalizing v with
  | zero => rfl
  | succ k ih => rw [leBytes, length_cons, ih]

lemma mod_eq_of_leBytes_eq {k v w : ℕ} (h : leBytes k v = leBytes k w) :
    v % 256 ^ k = w % 256 ^ k := by
  induction k generalizing v w with
  | zero => simp [mod_one]
  | succ k ih =>
    rw [leBytes, leBytes, cons.injEq] at h
    have hlow : v % 256 = w % 256 := by
      have := congrArg UInt8.toNat h.1
      rwa [UInt8.toNat_ofNat', UInt8.toNat_ofNat', mod_mod, mod_mod] at this
    rw [pow_succ', mod_mul, mod_mul, hlow, ih h.2]

lemma leBytes_inj {k v w : ℕ} (hv : v < 256 ^ k) (hw : w < 256 ^ k)
    (h : leBytes k v = leBytes k w) : v = w := by
  have := mod_eq_of_leBytes_eq h
  rwa [mod_eq_of_lt hv, mod_eq_of_lt hw] at this

lemma leBytes_uint64_inj {a b : UInt64} (h : leBytes 8 a.toNat = leBytes 8 b.toNat) : a = b :=
  UInt64.toNat_inj.mp (leBytes_inj a.toNat_lt b.toNat_lt h)

lemma leBytes_uint32_inj {a b : UInt32} (h : leBytes 4 a.toNat = leBytes 4 b.toNat) : a = b :=
  UInt32.toNat_inj.mp (leBytes_inj a.toNat_lt b.toNat_lt h)

/-- A concatenation of encodings of one positive width determines the elements. -/
lemma flatMap_inj_of_width {α : Type*} {encode : α → List UInt8} (width : ℕ) (hpos : 0 < width)
    (hwidth : ∀ a, (encode a).length = width) (hinj : ∀ a b, encode a = encode b → a = b)
    {xs ys : List α} (h : xs.flatMap encode = ys.flatMap encode) : xs = ys := by
  have hne (x : α) (xs : List α) : (x :: xs).flatMap encode ≠ [] := by
    intro hnil
    have := congrArg length hnil
    rw [flatMap_cons, length_append, hwidth, length_nil] at this
    omega
  induction xs generalizing ys with
  | nil =>
    cases ys with
    | nil => rfl
    | cons y ys => exact absurd h.symm (hne y ys)
  | cons x xs ih =>
    cases ys with
    | nil => exact absurd h (hne x xs)
    | cons y ys =>
      obtain ⟨hx, hxs⟩ := append_inj h (by rw [hwidth, hwidth])
      rw [hinj x y hx, ih hxs]

end TensorCast.Lib
