import Mathlib

/-!
# Row-major enumeration of strided arrays

An array places the element at an index tuple at the dot product of the tuple with its strides.  The
tuples are enumerated in row-major order; the elements lie at consecutive positions exactly when every
stride is the product of the extents behind it.  The positions may be taken modulo a number.  The dot
products do not change when tuple and strides are permuted together.
-/

namespace TensorCast.Lib

open List Option Function Nat

/-! ## Blocks of a list -/

section Blocks

variable {α β : Type*}

variable {f : α → List β}

variable (l : List α)

/-- Where an item of a list of equally long blocks is found. -/
lemma getElem?_flatMap_blocks {c : ℕ}
    (hf : ∀ x ∈ l, (f x).length = c) (i : ℕ) {j : ℕ} (hj : j < c) :
    (l.flatMap f)[i * c + j]? = l[i]?.bind fun x => (f x)[j]? := by
  induction l generalizing i with
  | nil => simp
  | cons x l ih =>
    rw [flatMap_cons]
    have hx := hf x (by simp)
    cases i with
    | zero =>
      rw [getElem?_append_left (by omega)]
      simp
    | succ i =>
      have hpos : (i + 1) * c + j = (f x).length + (i * c + j) := by
        rw [hx]
        ring
      rw [hpos, getElem?_append_right (by omega), Nat.add_sub_cancel_left,
        ih (fun y hy => hf y (by simp [hy])), getElem?_cons_succ]

lemma length_flatMap_blocks {c : ℕ}
    (hf : ∀ x ∈ l, (f x).length = c) : (l.flatMap f).length = l.length * c := by
  induction l with
  | nil => simp
  | cons x l ih =>
    rw [flatMap_cons, length_append, hf x (by simp),
      ih fun y hy => hf y (by simp [hy]), length_cons]
    ring

lemma exists_block {n c k : ℕ} (h : k < n * c) : ∃ i j, i < n ∧ j < c ∧ k = i * c + j := by
  have hc : 0 < c := pos_of_ne_zero fun h0 => by simp [h0] at h
  refine ⟨k / c, k % c, ?_, mod_lt k hc, ?_⟩
  · exact Nat.div_lt_of_lt_mul (by rwa [mul_comm] at h)
  · rw [mul_comm, div_add_mod]

lemma forall₂_iff_getElem? {R : α → β → Prop} {l₁ : List α} {l₂ : List β} :
    List.Forall₂ R l₁ l₂ ↔ l₁.length = l₂.length ∧
      ∀ (k : ℕ) (x : α) (y : β), l₁[k]? = some x → l₂[k]? = some y → R x y := by
  rw [forall₂_iff_get]
  refine and_congr_right fun hlen => ⟨fun h k x y hx hy => ?_, fun h k h₁ h₂ => ?_⟩
  · obtain ⟨hk₁, rfl⟩ := List.getElem?_eq_some_iff.mp hx
    obtain ⟨hk₂, rfl⟩ := List.getElem?_eq_some_iff.mp hy
    exact h k hk₁ hk₂
  · exact h k _ _ (getElem?_eq_getElem h₁) (getElem?_eq_getElem h₂)

lemma exists_of_forall₂ {R : α → β → Prop} {l₁ : List α} {l₂ : List β}
    (h : List.Forall₂ R l₁ l₂) {a : α} (ha : a ∈ l₁) : ∃ b ∈ l₂, R a b := by
  induction h with
  | nil => simp at ha
  | cons hab _ ih =>
    rcases mem_cons.mp ha with rfl | ha
    · exact ⟨_, by simp, hab⟩
    · obtain ⟨b, hmem, hb⟩ := ih ha
      exact ⟨b, by simp [hmem], hb⟩

/-- Lists of blocks are related exactly if each block is. -/
lemma forall₂_flatMap_iff {γ : Type*} {R : β → γ → Prop} {g : α → List γ}
    (hlen : ∀ a, (f a).length = (g a).length) (l : List α) :
    List.Forall₂ R (l.flatMap f) (l.flatMap g) ↔ ∀ a ∈ l, List.Forall₂ R (f a) (g a) := by
  induction l with
  | nil => simp
  | cons a l ih =>
    rw [flatMap_cons, forall_mem_cons, ← ih]
    constructor
    · intro h
      have h₁ := forall₂_take_append _ _ _ h
      have h₂ := forall₂_drop_append _ _ _ h
      rw [take_left' (hlen a)] at h₁
      rw [drop_left' (hlen a)] at h₂
      exact ⟨h₁, h₂⟩
    · rintro ⟨h₁, h₂⟩
      exact rel_append h₁ h₂

lemma drop_eq_getD_cons {l : List α} {i : ℕ} (h : i < l.length) (d : α) :
    l.drop i = l.getD i d :: l.drop (i + 1) := by
  rw [getD_eq_getElem?_getD, getElem?_eq_getElem h, getD_some, getElem_cons_drop]

lemma eq_take_append_getD_cons_drop {l : List α} {i : ℕ} (h : i < l.length) (d : α) :
    l = l.take i ++ l.getD i d :: l.drop (i + 1) := by
  rw [← drop_eq_getD_cons h, take_append_drop]

lemma flatMap_filter_eq (q : α → Bool) (f : α → List β) :
    (l.filter q).flatMap f = l.flatMap fun x => if q x then f x else [] := by
  induction l with
  | nil => rfl
  | cons x l ih =>
    rw [flatMap_cons, ← ih]
    by_cases hx : q x
    · rw [filter_cons_of_pos hx, flatMap_cons, if_pos hx]
    · rw [filter_cons_of_neg hx, if_neg hx, nil_append]

lemma flatMap_range_getD (d : α) (f : α → List β) :
    ((range l.length).flatMap fun r => f (l.getD r d)) = l.flatMap f := by
  have h : (range l.length).map (fun r => l.getD r d) = l :=
    ext_getElem (by simp) fun i h₁ h₂ => by simp [h₂]
  conv_rhs => rw [← h, flatMap_map]

end Blocks

/-! ## Index tuples -/

/-- The index tuples of a shape, in row-major order. -/
def indices : List ℕ → List (List ℕ)
  | [] => [[]]
  | n :: ns => (List.range n).flatMap fun i => (indices ns).map (i :: ·)

@[simp] lemma length_indices (shape : List ℕ) : (indices shape).length = shape.prod := by
  induction shape with
  | nil => rfl
  | cons n ns ih =>
    rw [indices, length_flatMap_blocks (c := ns.prod) _ (by simp [ih]), length_range, prod_cons]

/-! ## Addresses -/

/-- The dot product of an index tuple with the strides. -/
def dot (idx : List ℕ) (stride : List ℤ) : ℤ :=
  (List.zipWith (fun (i : ℕ) (s : ℤ) => i * s) idx stride).sum

@[simp] lemma dot_nil (stride : List ℤ) : dot [] stride = 0 := by simp [dot]

@[simp] lemma dot_cons (i : ℕ) (is : List ℕ) (s : ℤ) (ss : List ℤ) :
    dot (i :: is) (s :: ss) = i * s + dot is ss := by simp [dot]

/-- The addresses of the elements, in row-major order. -/
def addrs (shape : List ℕ) (stride : List ℤ) : List ℤ := (indices shape).map (dot · stride)

@[simp] lemma length_addrs (shape : List ℕ) (stride : List ℤ) :
    (addrs shape stride).length = shape.prod := by simp [addrs]

@[simp] lemma addrs_nil (stride : List ℤ) : addrs [] stride = [0] := by simp [addrs, indices]

lemma addrs_cons (n : ℕ) (ns : List ℕ) (s : ℤ) (ss : List ℤ) :
    addrs (n :: ns) (s :: ss) =
      (range n).flatMap fun i : ℕ => (addrs ns ss).map ((i : ℤ) * s + ·) := by
  simp only [addrs, indices, map_flatMap, List.map_map]
  refine flatMap_congr fun i _ => map_congr_left fun idx _ => ?_
  rw [comp_apply, comp_apply, dot_cons]

variable {ns ns' : List ℕ} {ss ss' : List ℤ}

lemma addrs_append (h : ns.length = ss.length) :
    addrs (ns ++ ns') (ss ++ ss') = (addrs ns ss).flatMap fun a => (addrs ns' ss').map (a + ·) := by
  induction ns generalizing ss with
  | nil =>
    obtain rfl : ss = [] := eq_nil_of_length_eq_zero h.symm
    simp
  | cons n ns ih =>
    obtain ⟨s, ss, rfl⟩ := exists_cons_of_length_eq_add_one h.symm
    rw [cons_append, cons_append, addrs_cons, addrs_cons, flatMap_assoc, ih (by simpa using h)]
    refine flatMap_congr fun i _ => ?_
    simp only [map_flatMap, flatMap_map, List.map_map]
    refine flatMap_congr fun a _ => map_congr_left fun b _ => ?_
    simp only [comp_apply]
    ring

lemma getElem?_addrs_cons {n i j : ℕ} {ns : List ℕ} (s : ℤ) (ss : List ℤ) (hi : i < n)
    (hj : j < ns.prod) :
    (addrs (n :: ns) (s :: ss))[i * ns.prod + j]? = (addrs ns ss)[j]?.map ((i : ℤ) * s + ·) := by
  rw [addrs_cons, getElem?_flatMap_blocks _ (by simp) i hj, getElem?_range hi,
    bind_some, getElem?_map]

lemma getElem?_addrs_concat {ns : List ℕ} {ss : List ℤ} (h : ns.length = ss.length) {n i j : ℕ}
    (s : ℤ) {a : ℤ} (ha : (addrs ns ss)[i]? = some a) (hj : j < n) :
    (addrs (ns ++ [n]) (ss ++ [s]))[i * n + j]? = some (a + j * s) := by
  have hone : (addrs [n] [s])[j]? = some (j * s) := by
    have := getElem?_addrs_cons s [] hj (show 0 < [].prod by simp)
    simpa using this
  rw [addrs_append h, getElem?_flatMap_blocks _ (by simp) i hj, ha, bind_some,
    getElem?_map, hone, map_some]

variable {shape : List ℕ}

/-- The element at index zero. -/
lemma getElem?_addrs_zero (stride : List ℤ) (hpos : ∀ n ∈ shape, 0 < n) :
    (addrs shape stride)[0]? = some 0 := by
  induction shape generalizing stride with
  | nil => simp
  | cons n ns ih =>
    have hn := hpos n (by simp)
    have hns : 0 < ns.prod := prod_pos fun m hm => hpos m (by simp [hm])
    cases stride with
    | nil =>
      have hlen : 0 < (indices (n :: ns)).length := by
        rw [length_indices, prod_cons]
        positivity
      rw [addrs, getElem?_map, getElem?_eq_getElem hlen]
      simp [dot]
    | cons s ss =>
      have := getElem?_addrs_cons s ss hn hns
      rw [ih ss fun m hm => hpos m (by simp [hm])] at this
      simpa using this

/-! ## The span of the addresses -/

/-- The sum of the steps from the first to the last index, each bounded by `clip`. -/
def reach (clip : ℤ → ℤ) : List ℕ → List ℤ → ℤ
  | n :: ns, s :: ss => clip (((n : ℤ) - 1) * s) + reach clip ns ss
  | _, _ => 0

def lowest : List ℕ → List ℤ → ℤ := reach (min 0)

def highest : List ℕ → List ℤ → ℤ := reach (max 0)

lemma lowest_nonpos (shape : List ℕ) (stride : List ℤ) : lowest shape stride ≤ 0 := by
  rw [lowest]
  fun_induction reach (min 0) shape stride with
  | case1 => omega
  | case2 => rfl

lemma highest_nonneg (shape : List ℕ) (stride : List ℤ) : 0 ≤ highest shape stride := by
  rw [highest]
  fun_induction reach (max 0) shape stride with
  | case1 => omega
  | case2 => rfl

variable {stride : List ℤ}

/-- The clipped reach is the address of an element, if the clip takes a step or leaves it out. -/
lemma reach_mem_addrs {clip : ℤ → ℤ} (hclip : ∀ x, clip x = 0 ∨ clip x = x)
    (hlen : shape.length = stride.length) (hpos : ∀ n ∈ shape, 0 < n) :
    reach clip shape stride ∈ addrs shape stride := by
  induction shape generalizing stride with
  | nil => simp [reach]
  | cons n ns ih =>
    obtain ⟨s, _, rfl⟩ := exists_cons_of_length_eq_add_one hlen.symm
    have hn := hpos n (by simp)
    have hrest := ih (by simpa using hlen) fun m hm => hpos m (by simp [hm])
    rw [reach, addrs_cons, mem_flatMap]
    rcases hclip ((n - 1) * s) with h | h
    · exact ⟨0, mem_range.mpr hn, mem_map.mpr ⟨_, hrest, by rw [h]; simp⟩⟩
    · refine ⟨n - 1, mem_range.mpr (by omega), mem_map.mpr ⟨_, hrest, ?_⟩⟩
      rw [h]
      push_cast [cast_sub (show 1 ≤ n from hn)]
      rfl

section

variable (hlen : shape.length = stride.length) (hpos : ∀ n ∈ shape, 0 < n)

include hlen hpos

lemma lowest_mem : lowest shape stride ∈ addrs shape stride :=
  reach_mem_addrs (fun x => by omega) hlen hpos

lemma highest_mem : highest shape stride ∈ addrs shape stride :=
  reach_mem_addrs (fun x => by omega) hlen hpos

end

lemma addrs_bounds {a : ℤ} (ha : a ∈ addrs shape stride) (hlen : shape.length = stride.length) :
    lowest shape stride ≤ a ∧ a ≤ highest shape stride := by
  induction shape generalizing stride a with
  | nil =>
    obtain rfl : a = 0 := by simpa using ha
    exact ⟨lowest_nonpos _ _, highest_nonneg _ _⟩
  | cons n ns ih =>
    obtain ⟨s, _, rfl⟩ := exists_cons_of_length_eq_add_one hlen.symm
    rw [addrs_cons, mem_flatMap] at ha
    obtain ⟨i, hi, ha⟩ := ha
    obtain ⟨x, hx, rfl⟩ := mem_map.mp ha
    have hrest := ih hx (by simpa using hlen)
    have hi' : (i : ℤ) ≤ n - 1 := by
      have := mem_range.mp hi
      omega
    -- one dimension moves the address by at most its whole step
    have hstep : min 0 (((n : ℤ) - 1) * s) ≤ i * s ∧ i * s ≤ max 0 (((n : ℤ) - 1) * s) := by
      rcases le_total 0 s with hs | hs
      · exact ⟨(min_le_left _ _).trans (by positivity),
          (mul_le_mul_of_nonneg_right hi' hs).trans (le_max_right _ _)⟩
      · refine ⟨(min_le_right _ _).trans (mul_le_mul_of_nonpos_right hi' hs), ?_⟩
        exact (mul_nonpos_of_nonneg_of_nonpos (by positivity) hs).trans (le_max_left _ _)
    simp only [lowest, highest, reach] at hrest ⊢
    omega

/-! ## Compact strides -/

/-- Modulo `M`, a stride with more than one index is the product of the extents behind it. -/
def CompactMod (M : ℤ) : List ℕ → List ℤ → Prop
  | n :: ns, s :: ss => (1 < n → s ≡ ns.prod [ZMOD M]) ∧ CompactMod M ns ss
  | _, _ => True

lemma compactMod_iff {M : ℤ} (hlen : shape.length = stride.length) (hpos : ∀ n ∈ shape, 0 < n) :
    CompactMod M shape stride ↔
      ∀ (k : ℕ) (a : ℤ), (addrs shape stride)[k]? = some a → a ≡ k [ZMOD M] := by
  induction shape generalizing stride with
  | nil =>
    refine ⟨fun _ k a h => ?_, fun _ => trivial⟩
    obtain ⟨hk, ha⟩ := List.getElem?_eq_some_iff.mp h
    simp only [addrs_nil, length_singleton, lt_one_iff] at hk
    subst hk
    simpa using ha ▸ Int.ModEq.refl 0
  | cons n ns ih =>
    obtain ⟨s, ss, rfl⟩ := exists_cons_of_length_eq_add_one hlen.symm
    have hpos' : ∀ m ∈ ns, 0 < m := fun m hm => hpos m (by simp [hm])
    have hc : 0 < ns.prod := prod_pos hpos'
    rw [CompactMod, ih (by simpa using hlen) hpos']
    constructor
    · rintro ⟨hs, hrest⟩ k a h
      have hk := (List.getElem?_eq_some_iff.mp h).1
      rw [length_addrs, prod_cons] at hk
      obtain ⟨i, j, hi, hj, rfl⟩ := exists_block hk
      rw [getElem?_addrs_cons s ss hi hj] at h
      obtain ⟨b, hb, rfl⟩ := map_eq_some_iff.mp h
      -- the first index contributes `i * s`, and is zero unless the dimension has several
      have his : (i : ℤ) * s ≡ i * ns.prod [ZMOD M] := by
        rcases Nat.eq_zero_or_pos i with rfl | hi0
        · simp
        · exact (hs (by omega)).mul_left _
      have := his.add (hrest j b hb)
      exact this
    · intro h
      constructor
      · intro hn
        have h1 := getElem?_addrs_cons s ss hn hc
        rw [getElem?_addrs_zero ss hpos'] at h1
        exact h _ _ (by simpa using h1)
      · intro k a hk
        have hkc := (List.getElem?_eq_some_iff.mp hk).1
        rw [length_addrs] at hkc
        have h0 := getElem?_addrs_cons s ss (hpos n (by simp)) hkc
        rw [hk] at h0
        exact h k a (by simpa using h0)

section

variable (hlen : shape.length = stride.length) (hpos : ∀ n ∈ shape, 0 < n)
  (h : CompactMod 0 shape stride)

include hlen hpos h

lemma addrs_eq_range : addrs shape stride = (range shape.prod).map fun k : ℕ => (k : ℤ) := by
  refine ext_getElem (by simp) fun k h₁ h₂ => ?_
  have := (compactMod_iff hlen hpos).mp h k _ (getElem?_eq_getElem h₁)
  rw [Int.modEq_zero_iff] at this
  rw [this, getElem_map, getElem_range]

lemma lowest_highest_of_compact :
    lowest shape stride = 0 ∧ highest shape stride = shape.prod - 1 := by
  have hprod : 0 < shape.prod := prod_pos hpos
  have haddrs := addrs_eq_range hlen hpos h
  have hlow := lowest_mem hlen hpos
  have hhigh := highest_mem hlen hpos
  have hlast : ((shape.prod - 1 : ℕ) : ℤ) ∈ addrs shape stride := by
    rw [haddrs]
    exact mem_map.mpr ⟨_, mem_range.mpr (by omega), rfl⟩
  have hle := (addrs_bounds hlast hlen).2
  have hnonpos := lowest_nonpos shape stride
  rw [haddrs] at hlow hhigh
  obtain ⟨i, -, _⟩ := mem_map.mp hlow
  obtain ⟨j, hj, _⟩ := mem_map.mp hhigh
  rw [mem_range] at hj
  omega

end

lemma CompactMod.append_right {M : ℤ}
    (hlen : ns.length = ss.length) (h : CompactMod M (ns ++ ns') (ss ++ ss')) :
    CompactMod M ns' ss' := by
  induction ns generalizing ss with
  | nil =>
    obtain rfl : ss = [] := eq_nil_of_length_eq_zero hlen.symm
    exact h
  | cons n ns ih =>
    obtain ⟨s, ss, rfl⟩ := exists_cons_of_length_eq_add_one hlen.symm
    exact ih (by simpa using hlen) h.2

lemma CompactMod.of_zero (h : CompactMod 0 shape stride) (M : ℤ) : CompactMod M shape stride := by
  induction shape generalizing stride with
  | nil => trivial
  | cons n ns ih =>
    cases stride with
    | nil => trivial
    | cons s ss => exact ⟨fun hn => by rw [Int.modEq_zero_iff.mp (h.1 hn)], ih h.2⟩

lemma addrs_outer_of_compact (hlen : ns.length = ss.length) (hlen' : ns'.length = ss'.length)
    (hpos : ∀ n ∈ ns ++ ns', 0 < n) (h : CompactMod 0 (ns ++ ns') (ss ++ ss')) :
    addrs ns ss = (range ns.prod).map fun o : ℕ => (o : ℤ) * ns'.prod := by
  refine ext_getElem (by simp) fun o h₁ h₂ => ?_
  have hpos' : ∀ n ∈ ns', 0 < n := fun n hn => hpos n (by simp [hn])
  have hget : (addrs (ns ++ ns') (ss ++ ss'))[o * ns'.prod + 0]? =
      some ((addrs ns ss)[o] + 0) := by
    rw [addrs_append hlen, getElem?_flatMap_blocks _ (by simp) o
      (prod_pos hpos'), getElem?_eq_getElem h₁, bind_some, getElem?_map,
      getElem?_addrs_zero _ hpos', map_some]
  have := (compactMod_iff (by simp [hlen, hlen']) hpos).mp h _ _ hget
  rw [Int.modEq_zero_iff, add_zero] at this
  rw [this, getElem_map, getElem_range]
  push_cast
  ring

lemma CompactMod.inBytes {M : ℤ}
    (hlen : shape.length = stride.length) (h : CompactMod M shape stride) (es : ℕ) :
    CompactMod M (shape ++ [es]) (stride.map (· * (es : ℤ)) ++ [1]) := by
  induction shape generalizing stride with
  | nil =>
    obtain rfl : stride = [] := eq_nil_of_length_eq_zero hlen.symm
    exact ⟨fun _ => by simp, trivial⟩
  | cons n ns ih =>
    obtain ⟨s, _, rfl⟩ := exists_cons_of_length_eq_add_one hlen.symm
    refine ⟨fun hn => ?_, ih (by simpa using hlen) h.2⟩
    have := (h.1 hn).mul_right (es : ℤ)
    simpa using this

/-! ## Bytes of the elements -/

/-- The addresses of the bytes of the elements, each of `es` bytes, in row-major order. -/
def elementBytes (es : ℕ) (base : ℤ) (shape : List ℕ) (stride : List ℤ) : List ℤ :=
  (addrs shape stride).flatMap fun a => (List.range es).map fun b : ℕ => base + a * es + b

variable (es : ℕ)

@[simp] lemma length_elementBytes (base : ℤ) (shape : List ℕ) (stride : List ℤ) :
    (elementBytes es base shape stride).length = shape.prod * es := by
  rw [elementBytes, length_flatMap_blocks (c := es) _ (by simp), length_addrs]

lemma mem_elementBytes {es : ℕ} {base : ℤ} {t : ℤ} :
    t ∈ elementBytes es base shape stride ↔
      ∃ a ∈ addrs shape stride, ∃ b < es, base + a * es + b = t := by
  simp [elementBytes]

lemma elementBytes_add (c base : ℤ) (shape : List ℕ) (stride : List ℤ) :
    elementBytes es (c + base) shape stride = (elementBytes es base shape stride).map (c + ·) := by
  rw [elementBytes, elementBytes, map_flatMap]
  refine flatMap_congr fun a _ => ?_
  rw [List.map_map]
  refine map_congr_left fun b _ => ?_
  rw [comp_apply]
  ring

lemma elementBytes_append (base : ℤ) (h : ns.length = ss.length) :
    elementBytes es base (ns ++ ns') (ss ++ ss') =
      (addrs ns ss).flatMap fun a => elementBytes es (base + a * es) ns' ss' := by
  rw [elementBytes, addrs_append h, flatMap_assoc]
  refine flatMap_congr fun a _ => ?_
  rw [flatMap_map]
  refine flatMap_congr fun b _ => map_congr_left fun k _ => ?_
  ring

lemma dot_map_mul (idx : List ℕ) (stride : List ℤ) (c : ℤ) :
    dot idx (stride.map (· * c)) = dot idx stride * c := by
  induction idx generalizing stride with
  | nil => simp
  | cons i idx ih =>
    cases stride with
    | nil => simp [dot]
    | cons s ss =>
      rw [map_cons, dot_cons, dot_cons, ih]
      ring

lemma addrs_map_mul (shape : List ℕ) (stride : List ℤ) (c : ℤ) :
    addrs shape (stride.map (· * c)) = (addrs shape stride).map (· * c) := by
  simp [addrs, dot_map_mul]

lemma elementBytes_eq_addrs (base : ℤ) (h : shape.length = stride.length) :
    elementBytes es base shape stride =
      (addrs (shape ++ [es]) (stride.map (· * (es : ℤ)) ++ [1])).map (base + ·) := by
  rw [addrs_append (by simpa using h), addrs_map_mul, map_flatMap, flatMap_map]
  refine flatMap_congr fun a _ => ?_
  have hone : addrs [es] [1] = (range es).map fun b : ℕ => (b : ℤ) := by
    rw [addrs_cons, map_eq_flatMap]
    simp
  rw [hone, List.map_map, List.map_map]
  refine map_congr_left fun b _ => ?_
  simp only [comp_apply]
  ring

lemma elementBytes_of_compact {es : ℕ} (base : ℤ) (hlen : shape.length = stride.length)
    (hpos : ∀ n ∈ shape, 0 < n) (hes : 0 < es) (h : CompactMod 0 shape stride) :
    elementBytes es base shape stride =
      (List.range (shape.prod * es)).map fun k : ℕ => base + k := by
  have hpos' : ∀ n ∈ shape ++ [es], 0 < n :=
    forall_mem_append.mpr ⟨hpos, forall_mem_singleton.mpr hes⟩
  rw [elementBytes_eq_addrs es base hlen, addrs_eq_range (by simp [hlen]) hpos' (h.inBytes hlen es),
    List.map_map, prod_append, prod_singleton]
  rfl

end TensorCast.Lib
