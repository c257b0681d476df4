import Mathlib

/-!
# The values of a table

A table is an association list without duplicate keys.  Its values are counted and summed up to
their order, so what an insertion and a removal do to them is stated up to a permutation, and so is
what they do to the sum of a quantity over the entries.
-/

namespace TensorCast.Lib

open List AList

variable {κ β : Type*} [DecidableEq κ] {s : AList fun _ : κ => β} {k : κ} {b b' : β}

def values (s : AList fun _ : κ => β) : List β := s.entries.map Sigma.snd

lemma mem_values : b ∈ values s ↔ ∃ k, s.lookup k = some b := by
  rw [values, mem_map]
  constructor
  · rintro ⟨⟨k, b⟩, hmem, rfl⟩
    exact ⟨k, mem_lookup_iff.mpr hmem⟩
  · rintro ⟨k, hk⟩
    exact ⟨⟨k, b⟩, mem_lookup_iff.mp hk, rfl⟩

lemma mem_of_lookup (h : s.lookup k = some b) : k ∈ s :=
  lookup_isSome.mp (by rw [h]; rfl)

lemma lookup_insert_cases {k' : κ} (h : (s.insert k b).lookup k' = some b') :
    k' = k ∧ b' = b ∨ k' ≠ k ∧ s.lookup k' = some b' := by
  rcases eq_or_ne k' k with rfl | hne
  · rw [lookup_insert] at h
    exact .inl ⟨rfl, (Option.some_inj.mp h).symm⟩
  · rw [lookup_insert_ne hne] at h
    exact .inr ⟨hne, h⟩

lemma forall_lookup_insert {P : κ → β → Prop} (hnew : P k b)
    (hold : ∀ k b, s.lookup k = some b → P k b) (k' : κ) (b' : β)
    (h : (s.insert k b).lookup k' = some b') : P k' b' := by
  rcases lookup_insert_cases h with ⟨rfl, rfl⟩ | ⟨-, h⟩
  · exact hnew
  · exact hold k' b' h

lemma lookup_erase_cases {k' : κ} (h : (s.erase k).lookup k' = some b') :
    k' ≠ k ∧ s.lookup k' = some b' := by
  rcases eq_or_ne k' k with rfl | hne
  · rw [lookup_erase] at h
    cases h
  · rw [lookup_erase_ne hne] at h
    exact ⟨hne, h⟩

lemma lookup_insert_of_new {k' : κ} (hnew : k ∉ s) (h : s.lookup k' = some b') :
    (s.insert k b).lookup k' = some b' := by
  have hne : k' ≠ k := fun heq => hnew (heq ▸ mem_of_lookup h)
  rw [lookup_insert_ne hne, h]

lemma values_insert_new (h : k ∉ s) (b : β) : values (s.insert k b) = b :: values s := by
  rw [values, entries_insert_of_notMem h]
  rfl

lemma entries_erase {γ : κ → Type*} {s : AList γ} {v : γ k} (h : s.lookup k = some v) :
    s.entries.Perm (⟨k, v⟩ :: (s.erase k).entries) := by
  obtain ⟨v', before, after, -, hentries, herase⟩ :=
    exists_of_kerase (mem_keys_of_mem (mem_lookup_iff.mp h))
  have hmem : (⟨k, v'⟩ : Sigma γ) ∈ s.entries := by
    rw [hentries]
    exact mem_append_right _ mem_cons_self
  obtain rfl : v = v' := Option.some_inj.mp (h.symm.trans (mem_lookup_iff.mpr hmem))
  rw [hentries, show (s.erase k).entries = before ++ after from herase]
  exact perm_middle

lemma values_erase (h : s.lookup k = some b) : (values s).Perm (b :: values (s.erase k)) := by
  have hperm := entries_erase h
  exact hperm.map Sigma.snd

lemma values_insert (s : AList fun _ : κ => β) (k : κ) (b : β) :
    (values (s.insert k b)).Perm (b :: values (s.erase k)) := by
  have herase : (s.insert k b).erase k = s.erase k := by
    refine AList.ext ?_
    change kerase k (kinsert k b s.entries) = kerase k s.entries
    exact kerase_cons_eq rfl
  rw [← herase]
  exact values_erase (lookup_insert s)

/-! ## Tables that are functions -/

section

variable {t : κ → Option β} {k' : κ}

lemma update_some_cases (h : Function.update t k (some b) k' = some b') :
    k' = k ∧ b = b' ∨ k' ≠ k ∧ t k' = some b' := by
  rcases eq_or_ne k' k with rfl | hne
  · exact .inl ⟨rfl, by simpa using h⟩
  · exact .inr ⟨hne, by simpa [hne] using h⟩

lemma update_none_cases (h : Function.update t k none k' = some b') : k' ≠ k ∧ t k' = some b' := by
  rcases eq_or_ne k' k with rfl | hne
  · simp at h
  · exact ⟨hne, by simpa [hne] using h⟩

end

/-! ## Sums over the entries -/

section

variable {β : κ → Type*} {M : Type*} [AddCommMonoid M] {f : Sigma β → M} {s : AList β} {v v' : β k}

def total (f : Sigma β → M) (s : AList β) : M := (s.entries.map f).sum

lemma total_eq_add_erase (h : s.lookup k = some v) : total f s = f ⟨k, v⟩ + total f (s.erase k) :=
  ((entries_erase h).map f).sum_eq

lemma total_insert : total f (s.insert k v) = f ⟨k, v⟩ + total f (s.erase k) := by
  rfl

lemma total_insert_of_eq (h : s.lookup k = some v) (hf : f ⟨k, v'⟩ = f ⟨k, v⟩) :
    total f (s.insert k v') = total f s := by
  rw [total_insert, total_eq_add_erase h, hf]

lemma total_insert_of_none (h : s.lookup k = none) :
    total f (s.insert k v) = f ⟨k, v⟩ + total f s := by
  rw [total, entries_insert_of_notMem (lookup_eq_none.mp h)]
  rfl

end

lemma sum_count_mul {n : ℕ} {l : List ℕ} (h : ∀ i ∈ l, i < n) (w : ℕ → ℕ) :
    ∑ i ∈ Finset.range n, l.count i * w i = (l.map w).sum := by
  rw [Finset.sum_list_map_count]
  symm
  refine Finset.sum_subset (fun i hi => ?_) fun i _ hi => ?_
  · exact mem_range.mpr (h i (mem_toFinset.mp hi))
  · rw [count_eq_zero_of_not_mem fun hmem => hi (mem_toFinset.mpr hmem)]
    exact zero_nsmul _

end TensorCast.Lib
