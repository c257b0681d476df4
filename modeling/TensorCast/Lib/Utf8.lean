import Mathlib.Data.String.Basic

/-!
# The order of UTF-8 texts

One program compares texts by code points, another by the bytes of their encodings.  Both put any
two texts in the same order: a character with the larger code point has the larger encoding at the
first byte in which the two encodings differ.
-/

namespace TensorCast.Lib

open List

def utf8 (text : String) : List UInt8 :=
  text.toList.flatMap String.utf8EncodeChar

@[simp] lemma utf8_empty : utf8 "" = [] := rfl

@[simp] lemma utf8_append (s t : String) : utf8 (s ++ t) = utf8 s ++ utf8 t := by
  simp [utf8]

/-- Whatever follows them, the encodings of two characters compare as the characters do. -/
lemma utf8EncodeChar_append_lt {c d : Char} (h : c < d) (r r' : List UInt8) :
    String.utf8EncodeChar c ++ r < String.utf8EncodeChar d ++ r' := by
  have hlt : c.val.toNat < d.val.toNat := h
  have hd : d.val.toNat < 0x110000 := by
    have := d.valid
    simp only [UInt32.isValidChar, Nat.isValidChar] at this
    omega
  have hdiv : ∀ n : ℕ, n / 4096 = n / 64 / 64 ∧ n / 262144 = n / 64 / 64 / 64 := by omega
  simp only [String.utf8EncodeChar, hdiv]
  generalize c.val.toNat = v at *
  generalize d.val.toNat = w at *
  have h₁ : v / 64 ≤ w / 64 := by omega
  have h₂ : v / 64 / 64 ≤ w / 64 / 64 := by omega
  have h₃ : v / 64 / 64 / 64 ≤ w / 64 / 64 / 64 ∧ w / 64 / 64 / 64 < 8 := by omega
  -- the cases are the lengths of the two encodings; the first bytes tell different lengths apart
  split_ifs <;> simp only [cons_append, nil_append, cons_lt_cons_iff,
    UInt8.lt_iff_toNat_lt, ← UInt8.toNat_inj, UInt8.toNat_ofNat'] <;> omega

lemma flatMap_utf8EncodeChar_lt {s t : List Char} (h : s < t) :
    s.flatMap String.utf8EncodeChar < t.flatMap String.utf8EncodeChar := by
  induction h with
  | @nil d t =>
    obtain ⟨b, bs, hd⟩ := exists_cons_of_ne_nil (String.utf8EncodeChar_ne_nil (c := d))
    simp [hd]
  | rel h => exact utf8EncodeChar_append_lt h _ _
  | @cons c s t _ ih => simpa using append_left_lt ih

lemma utf8_lt_utf8 {s t : String} (h : s < t) : utf8 s < utf8 t :=
  flatMap_utf8EncodeChar_lt h

@[simp] lemma utf8_inj {s t : String} : utf8 s = utf8 t ↔ s = t := by
  refine ⟨fun h => ?_, fun h => h ▸ rfl⟩
  by_contra hne
  obtain hlt | hlt := lt_or_gt_of_ne hne
  · exact List.lt_irrefl _ (h ▸ utf8_lt_utf8 hlt)
  · exact List.lt_irrefl _ (h ▸ utf8_lt_utf8 hlt)

@[simp] lemma utf8_lt_utf8_iff {s t : String} : utf8 s < utf8 t ↔ s < t := by
  refine ⟨fun h => ?_, utf8_lt_utf8⟩
  obtain hlt | rfl | hlt := lt_trichotomy s t
  · exact hlt
  · exact absurd h (List.lt_irrefl _)
  · exact absurd h (List.lt_asymm (utf8_lt_utf8 hlt))

end TensorCast.Lib
