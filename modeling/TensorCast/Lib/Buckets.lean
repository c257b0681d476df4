import Mathlib

/-!
# Buckets of positions

The positions of a vector sorted into buckets by a class, where every position knows its place in
its bucket, so that it can be taken out by moving the last one of the bucket there.
-/

namespace TensorCast.Lib

open Function List

/-- An index by keys: the position of a key is the one that holds it with its value. -/
structure Keyed {κ ν : Type*} (item : ℕ → Option (κ × ν)) (index : κ → Option ℕ)
    (value : κ → Option ν) : Prop where
  iff : ∀ i k v, item i = some (k, v) ↔ index k = some i ∧ value k = some v
  isSome : ∀ k, (index k).isSome = (value k).isSome

section Keyed

variable {κ ν : Type*} [DecidableEq κ] {item : ℕ → Option (κ × ν)} {index : κ → Option ℕ}
  {value : κ → Option ν} {k : κ} {v : ν} {i : ℕ}

lemma Keyed.push (h : Keyed item index value) (hi : item i = none) (hk : index k = none) :
    Keyed (update item i (some (k, v))) (update index k (some i)) (update value k (some v)) := by
  refine ⟨fun j k' v' => ?_, fun k' => ?_⟩
  · have hj := h.iff j k' v'
    grind
  · have := h.isSome k'
    grind

lemma Keyed.erase (h : Keyed item index value) (hi : item i = some (k, v)) :
    Keyed (update item i none) (update index k none) (update value k none) := by
  refine ⟨fun j k' v' => ?_, fun k' => ?_⟩
  · have hj := h.iff j k' v'
    have hk := h.iff i k v
    grind
  · have := h.isSome k'
    grind

lemma Keyed.move {last : ℕ} (h : Keyed item index value) (hi : item i = none)
    (hlast : item last = some (k, v)) :
    Keyed (update (update item last none) i (some (k, v))) (update index k (some i)) value := by
  refine ⟨fun j k' v' => ?_, fun k' => ?_⟩
  · have hj := h.iff j k' v'
    have hk := h.iff last k v
    grind
  · have := h.isSome k'
    have hk := h.iff last k v
    grind

end Keyed

/-- Every position stands in the bucket of its class at the place that is noted for it and nowhere
else, and no bucket is empty. -/
structure Indexed {γ : Type*} (item : ℕ → Option (γ × ℕ)) (buckets : γ → Option (List ℕ)) :
    Prop where
  nonempty : ∀ g, buckets g ≠ some []
  iff : ∀ i g p, item i = some (g, p) ↔ ((buckets g).getD [])[p]? = some i

variable {γ : Type*} {item : ℕ → Option (γ × ℕ)} {buckets : γ → Option (List ℕ)} {g : γ} {i p : ℕ}

lemma Indexed.mem_iff (h : Indexed item buckets) :
    i ∈ (buckets g).getD [] ↔ ∃ p, item i = some (g, p) := by
  simp only [mem_iff_getElem?, h.iff]

lemma Indexed.nodup (h : Indexed item buckets) (g : γ) : ((buckets g).getD []).Nodup := by
  refine nodup_iff_getElem?_ne_getElem?.mpr fun p q hlt hq heq => ?_
  obtain ⟨j, hj⟩ : ∃ j, ((buckets g).getD [])[q]? = some j := ⟨_, getElem?_eq_getElem hq⟩
  have hp := (h.iff j g p).mpr (heq.trans hj)
  rw [(h.iff j g q).mpr hj] at hp
  simp at hp
  omega

variable [DecidableEq γ]

/-- The last element in place of the one at `p`. -/
def swapOut (bucket : List ℕ) (p : ℕ) : List ℕ := (bucket.set p (bucket.getLastD 0)).dropLast

/-- The buckets with a new content of one of them, which is dropped if it is empty. -/
def setBucket (buckets : γ → Option (List ℕ)) (g : γ) (bucket : List ℕ) : γ → Option (List ℕ) :=
  update buckets g (if bucket = [] then none else some bucket)

lemma getD_setBucket (bucket : List ℕ) (g' : γ) :
    (setBucket buckets g bucket g').getD [] = if g' = g then bucket else (buckets g').getD [] := by
  unfold setBucket
  grind

lemma Indexed.set (h : Indexed item buckets) {bucket : List ℕ} {item' : ℕ → Option (γ × ℕ)}
    (hiff : ∀ j g' q, item' j = some (g', q) ↔
      if g' = g then bucket[q]? = some j else item j = some (g', q)) :
    Indexed item' (setBucket buckets g bucket) where
  nonempty g' := by
    have := h.nonempty g'
    unfold setBucket
    grind
  iff j g' q := by
    rw [hiff, getD_setBucket]
    split_ifs
    · rfl
    · exact h.iff j g' q

lemma Indexed.push (h : Indexed item buckets) (hi : item i = none) :
    Indexed (update item i (some (g, ((buckets g).getD []).length)))
      (setBucket buckets g ((buckets g).getD [] ++ [i])) := by
  refine h.set fun j g' q => ?_
  have hj := h.iff j g q
  grind

/-- The position leaves its bucket, and the last one of the bucket takes its place. -/
lemma Indexed.swapOut (h : Indexed item buckets) (hi : item i = some (g, p)) :
    let bucket := (buckets g).getD []
    let rest := swapOut bucket p
    Indexed (update (if p < rest.length then update item (bucket.getLastD 0)
        ((item (bucket.getLastD 0)).map fun x => (x.1, p)) else item) i none)
      (setBucket buckets g rest) := by
  intro bucket rest
  refine h.set fun j g' q => ?_
  have hj := h.iff j g q
  have hp := (h.iff i g p).mp hi
  obtain ⟨last, hlast⟩ : ∃ last, bucket[bucket.length - 1]? = some last := by grind
  have hlast' := (h.iff last g _).mpr hlast
  have hgetLast : bucket.getLastD 0 = last := by
    rw [getLastD_eq_getLast?, getLast?_eq_getElem?, hlast]
    rfl
  have hrest : rest[q]? =
      if q + 1 < bucket.length then if q = p then some last else bucket[q]? else none := by
    simp only [rest, Lib.swapOut, hgetLast, dropLast_eq_take, getElem?_take,
      getElem?_set]
    grind
  have hlength : rest.length = bucket.length - 1 := by simp [rest, Lib.swapOut]
  rw [hgetLast, hlength, hrest]
  grind

/-- An entry is moved to a free position. -/
lemma Indexed.move {last : ℕ} (h : Indexed item buckets) (hi : item i = none)
    (hlast : item last = some (g, p)) :
    Indexed (update (update item last none) i (some (g, p)))
      (setBucket buckets g (((buckets g).getD []).set p i)) := by
  refine h.set fun j g' q => ?_
  have hj := h.iff j g q
  have hl := h.iff last g p
  grind

end TensorCast.Lib
