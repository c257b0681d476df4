import Mathlib

/-!
# Sums and differences of machine words as natural numbers

The code computes with 64-bit words and guards its sums by comparisons; these facts turn such a guard
into a statement about natural numbers.  Where there is no guard, a word stands for the integers that
are congruent to it modulo `2 ^ 64`, by `UInt64.ofInt`.
-/

namespace TensorCast.Lib

open UInt64

variable {a b t : UInt64}

lemma toNat_add_of_lt (h : a.toNat + b.toNat < 2 ^ 64) : (a + b).toNat = a.toNat + b.toNat := by
  rw [UInt64.toNat_add, Nat.mod_eq_of_lt h]

lemma toNat_add_of_le (h : a.toNat + b.toNat ≤ t.toNat) : (a + b).toNat = a.toNat + b.toNat :=
  toNat_add_of_lt (lt_of_le_of_lt h t.toNat_lt)

lemma toNat_succ (h : a.toNat + 1 < 2 ^ 64) : (a + 1).toNat = a.toNat + 1 :=
  toNat_add_of_lt h

lemma toNat_pos (h : a ≠ 0) : 0 < a.toNat :=
  pos_of_ne_zero fun hzero => h (UInt64.toNat_inj.mp hzero)

lemma ne_zero_of_pos (h : 0 < a.toNat) : a ≠ 0 := by
  rintro rfl
  simp at h

lemma toNat_add_ofNat {n : ℕ} (h : a.toNat + n < 2 ^ 64) :
    (a + ofNat n).toNat = a.toNat + n := by
  have hn : (ofNat n).toNat = n := by
    rw [toNat_ofNat', Nat.mod_eq_of_lt (by omega)]
  rw [toNat_add_of_lt (by omega), hn]

lemma toNat_sub_of_le (h : b.toNat ≤ a.toNat) : (a - b).toNat = a.toNat - b.toNat :=
  UInt64.toNat_sub_of_le a b (UInt64.le_iff_toNat_le.mpr h)

lemma toNat_min_sub (c : UInt64) (h : b.toNat ≤ a.toNat) :
    (min c (a - b)).toNat = min c.toNat (a.toNat - b.toNat) := by
  rw [UInt64.toNat_min, toNat_sub_of_le h]

lemma bounds_check_iff (hb : b ≠ 0) : (¬ t ≤ a ∧ ¬ t - a < b) ↔ a.toNat + b.toNat ≤ t.toNat := by
  have hb' : b.toNat ≠ 0 := fun h => hb (UInt64.toNat_inj.mp h)
  rw [UInt64.le_iff_toNat_le, UInt64.lt_iff_toNat_lt]
  constructor
  · rintro ⟨_, h2⟩
    rw [toNat_sub_of_le (by omega)] at h2
    omega
  · intro h
    rw [toNat_sub_of_le (by omega)]
    omega

/-- The bounds check `t < a`, `t - a < b` of the code, without its subtraction. -/
lemma out_of_bounds_iff : (t < a ∨ t - a < b) ↔ t.toNat < a.toNat + b.toNat := by
  rw [lt_iff_toNat_lt, lt_iff_toNat_lt]
  by_cases h : t.toNat < a.toNat
  · omega
  · rw [toNat_sub_of_le (by omega)]
    omega

/-! ## Integers modulo the word size -/

lemma toNat_ofInt (x : ℤ) : ((ofInt x).toNat : ℤ) = x % 2 ^ 64 := by
  simp only [ofInt, toNat_ofNat']
  omega

@[simp] lemma ofInt_toNat (a : UInt64) : ofInt a.toNat = a := by
  apply UInt64.toNat_inj.mp
  have h := toNat_ofInt a.toNat
  have := a.toNat_lt
  omega

@[simp] lemma ofInt_zero : UInt64.ofInt 0 = 0 := rfl

lemma ofInt_eq_iff {x y : ℤ} : UInt64.ofInt x = UInt64.ofInt y ↔ x ≡ y [ZMOD 2 ^ 64] := by
  rw [← UInt64.toNat_inj, ← Int.natCast_inj, toNat_ofInt, toNat_ofInt, Int.ModEq]

lemma toNat_ofInt_eq_iff {x : ℤ} : ((UInt64.ofInt x).toNat : ℤ) = x ↔ 0 ≤ x ∧ x < 2 ^ 64 := by
  rw [toNat_ofInt]
  omega

/-- A word is the integer `x` when it is congruent to it and `x` is in range. -/
lemma toNat_eq_iff {x : ℤ} : (a.toNat : ℤ) = x ↔ a = ofInt x ∧ 0 ≤ x ∧ x < 2 ^ 64 := by
  constructor
  · rintro rfl
    exact ⟨(ofInt_toNat a).symm, by omega, by have := a.toNat_lt; omega⟩
  · rintro ⟨rfl, h⟩
    exact toNat_ofInt_eq_iff.mpr h

lemma ofNat_eq_ofInt (n : ℕ) : ofNat n = ofInt n := by
  apply UInt64.toNat_inj.mp
  have h := toNat_ofInt n
  rw [UInt64.toNat_ofNat']
  omega

lemma toUInt64_eq_ofInt (s : Int64) : s.toUInt64 = UInt64.ofInt s.toInt := by
  apply UInt64.toNat_inj.mp
  have h := toNat_ofInt s.toInt
  have hs : s.toInt = _ := BitVec.toInt_eq_toNat_cond s.toBitVec
  have hn : s.toUInt64.toNat = s.toBitVec.toNat := rfl
  split at hs <;> omega

end TensorCast.Lib
