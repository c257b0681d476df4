import Mathlib

/-!
# Tilings of an interval by items with an extent

A byte space is described by a list of items, each of which occupies a half-open interval of
positions: the segments of a map, the runs of a program, the slices of a window.

* `Extent.Tiles`: an unordered list occupies every position of an interval exactly once;
* `Extent.Tiled`: a list occupies an interval from left to right;
* `Extent.denote`: the value that a list gives to a position;
* `Extent.Tiled.eq_of_denote_eq`: a tiling that cannot be coarsened is determined by the function it
  denotes.
-/

namespace TensorCast.Lib

open List Option

/-- The index of the first element above `x` in a sorted list, its length if there is none. -/
def upperBound {κ : Type*} [LT κ] [DecidableLT κ] (starts : List κ) (x : κ) : ℕ :=
  starts.findIdx fun s => decide (x < s)

/-- The half-open interval `[lo s, hi s)` of positions that an item occupies. -/
structure Extent (σ : Type*) where
  /-- The first position of an item. -/
  lo : σ → ℕ
  /-- The position one past the last of an item. -/
  hi : σ → ℕ

namespace Extent

variable {σ γ : Type*} (E : Extent σ)

/-- The item occupies the position. -/
def Covers (s : σ) (d : ℕ) : Prop := E.lo s ≤ d ∧ d < E.hi s

instance (s : σ) (d : ℕ) : Decidable (E.Covers s d) :=
  inferInstanceAs (Decidable (_ ∧ _))

/-- Two items that share no position. -/
def Disjoint (s t : σ) : Prop := E.hi s ≤ E.lo t ∨ E.hi t ≤ E.lo s

lemma Disjoint.symm {s t : σ} (h : E.Disjoint s t) : E.Disjoint t s := Or.symm h

variable {d : ℕ}

lemma Disjoint.not_covers {s t : σ} (h : E.Disjoint s t) (hs : E.Covers s d) : ¬ E.Covers t d := by
  rintro ⟨_, _⟩
  obtain ⟨_, _⟩ := hs
  rcases h with h | h <;> omega

/-! ## Unordered tilings -/

/-- The items lie inside `[a, b)`, share no position and leave none out. -/
structure Tiles (a b : ℕ) (xs : List σ) : Prop where
  inside : ∀ s ∈ xs, a ≤ E.lo s ∧ E.hi s ≤ b
  disjoint : xs.Pairwise E.Disjoint
  covered : ∀ d, a ≤ d → d < b → ∃ s ∈ xs, E.Covers s d

variable {E}

variable {a b : ℕ} {xs ys : List σ}

lemma Tiles.perm (h : E.Tiles a b xs) (hp : xs.Perm ys) : E.Tiles a b ys := by
  refine ⟨fun s hs => h.inside s (hp.mem_iff.mpr hs), ?_, ?_⟩
  · exact (hp.pairwise_iff (fun h => Disjoint.symm E h)).mp h.disjoint
  · intro d hd hd'
    obtain ⟨s, hs, hc⟩ := h.covered d hd hd'
    exact ⟨s, hp.mem_iff.mp hs, hc⟩

/-! ## Ordered tilings -/

variable (E)

/-- The items occupy `[a, b)` from left to right, each of them at least one position. -/
def Tiled : ℕ → List σ → ℕ → Prop
  | a, [], b => a = b
  | a, s :: rest, b => E.lo s = a ∧ a < E.hi s ∧ Tiled (E.hi s) rest b

instance decidableTiled : ∀ (a : ℕ) (xs : List σ) (b : ℕ), Decidable (E.Tiled a xs b)
  | a, [], b => inferInstanceAs (Decidable (a = b))
  | a, s :: rest, b =>
    have := decidableTiled (E.hi s) rest b
    inferInstanceAs (Decidable (E.lo s = a ∧ a < E.hi s ∧ E.Tiled (E.hi s) rest b))

@[simp] lemma tiled_nil : E.Tiled a [] b ↔ a = b := Iff.rfl

variable {s : σ}

@[simp] lemma tiled_cons {rest : List σ} :
    E.Tiled a (s :: rest) b ↔ E.lo s = a ∧ a < E.hi s ∧ E.Tiled (E.hi s) rest b := Iff.rfl

variable {E}

variable {xs : List σ}

lemma Tiled.le (h : E.Tiled a xs b) : a ≤ b := by
  induction xs generalizing a with
  | nil => exact le_of_eq h
  | cons s rest ih =>
    obtain ⟨-, _, hrest⟩ := h
    have := ih hrest
    omega

lemma tiled_append {a c : ℕ} : E.Tiled a (xs ++ ys) c ↔ ∃ b, E.Tiled a xs b ∧ E.Tiled b ys c := by
  induction xs generalizing a with
  | nil => simp
  | cons s rest ih => simp only [cons_append, tiled_cons, ih, and_assoc, exists_and_left]

lemma Tiled.inside (h : E.Tiled a xs b) (hs : s ∈ xs) :
    a ≤ E.lo s ∧ E.lo s < E.hi s ∧ E.hi s ≤ b := by
  induction xs generalizing a with
  | nil => simp at hs
  | cons t rest ih =>
    obtain ⟨hlo, _, hrest⟩ := h
    rcases mem_cons.mp hs with rfl | hs
    · exact ⟨hlo.ge, by omega, hrest.le⟩
    · have := ih hrest hs
      omega

lemma Tiled.ordered (h : E.Tiled a xs b) : xs.Pairwise fun s t => E.hi s ≤ E.lo t := by
  induction xs generalizing a with
  | nil => exact Pairwise.nil
  | cons s rest ih =>
    obtain ⟨-, -, hrest⟩ := h
    exact pairwise_cons.mpr ⟨fun t ht => (hrest.inside ht).1, ih hrest⟩

lemma Tiled.isChain_imp {R S : σ → σ → Prop} (h : E.Tiled a xs b)
    (hR : xs.IsChain R) (hRS : ∀ s t, E.lo t = E.hi s → R s t → S s t) : xs.IsChain S := by
  induction xs generalizing a with
  | nil => exact .nil
  | cons s rest ih =>
    cases rest with
    | nil => exact .singleton s
    | cons t rest =>
      obtain ⟨hst, hrest⟩ := isChain_cons_cons.mp hR
      exact .cons_cons (hRS s t h.2.2.1 hst) (ih h.2.2 hrest)

lemma Tiled.exists_covers (h : E.Tiled a xs b) (had : a ≤ d)
    (hdb : d < b) : ∃ s ∈ xs, E.Covers s d := by
  induction xs generalizing a with
  | nil =>
    have : a = b := h
    omega
  | cons s rest ih =>
    obtain ⟨_, -, hrest⟩ := h
    by_cases hd : d < E.hi s
    · exact ⟨s, mem_cons_self, by omega, hd⟩
    · obtain ⟨t, ht, hc⟩ := ih hrest (by omega)
      exact ⟨t, mem_cons_of_mem _ ht, hc⟩

lemma Tiled.tiles (h : E.Tiled a xs b) : E.Tiles a b xs where
  inside _ hs := ⟨(h.inside hs).1, (h.inside hs).2.2⟩
  disjoint := h.ordered.imp fun hst => Or.inl hst
  covered _ had hdb := h.exists_covers had hdb

/-- An unordered tiling by nonempty items, once sorted, is a left-to-right tiling. -/
lemma Tiles.tiled (h : E.Tiles a b xs) (hab : a ≤ b)
    (hne : ∀ s ∈ xs, E.lo s < E.hi s) (hsort : xs.Pairwise fun s t => E.lo s ≤ E.lo t) :
    E.Tiled a xs b := by
  induction xs generalizing a with
  | nil =>
    by_contra hne'
    have hlt : a < b := lt_of_le_of_ne hab hne'
    obtain ⟨s, hs, -⟩ := h.covered a le_rfl hlt
    simp at hs
  | cons s rest ih =>
    obtain ⟨hs_le, hsort'⟩ := pairwise_cons.mp hsort
    obtain ⟨hs_disj, hdisj'⟩ := pairwise_cons.mp h.disjoint
    have hs_in := h.inside s mem_cons_self
    have hs_ne := hne s mem_cons_self
    -- the first position is covered, and no item starts before the first of the sorted list
    have hlo : E.lo s = a := by
      obtain ⟨t, ht, htc⟩ := h.covered a le_rfl (by omega)
      have htc₁ := htc.1
      rcases mem_cons.mp ht with rfl | ht
      · omega
      · have := hs_le t ht
        omega
    refine ⟨hlo, by omega, ih ⟨?_, hdisj', ?_⟩ hs_in.2
      (fun t ht => hne t (mem_cons_of_mem _ ht)) hsort'⟩
    · intro t ht
      refine ⟨?_, (h.inside t (mem_cons_of_mem _ ht)).2⟩
      have h1 := hs_le t ht
      have h2 := hne t (mem_cons_of_mem _ ht)
      rcases hs_disj t ht with hd | hd <;> omega
    · intro d hd hdb
      obtain ⟨t, ht, htc⟩ := h.covered d (by omega) hdb
      rcases mem_cons.mp ht with rfl | ht
      · exact absurd htc.2 (by omega)
      · exact ⟨t, ht, htc⟩

/-! ## The function denoted by a list of items -/

variable (E)

/-- The value that the first item over a position gives to it. -/
def denote (cell : σ → ℕ → γ) (xs : List σ) (d : ℕ) : Option γ :=
  (xs.find? fun s => decide (E.Covers s d)).map fun s => cell s d

variable {E} {cell : σ → ℕ → γ}

@[simp] lemma denote_nil (d : ℕ) : E.denote cell [] d = none := rfl

lemma denote_cons (s : σ) (rest : List σ) (d : ℕ) :
    E.denote cell (s :: rest) d =
      if E.Covers s d then some (cell s d) else E.denote cell rest d := by
  unfold denote
  by_cases h : E.Covers s d <;> simp [h]

lemma denote_append (xs ys : List σ) (d : ℕ) :
    E.denote cell (xs ++ ys) d = (E.denote cell xs d).or (E.denote cell ys d) := by
  induction xs with
  | nil => simp
  | cons s rest ih =>
    rw [cons_append, denote_cons, denote_cons, ih]
    split <;> simp

lemma denote_eq_none_iff : E.denote cell xs d = none ↔ ∀ s ∈ xs, ¬ E.Covers s d := by
  simp [denote]

lemma denote_eq_some_of_mem (hd : xs.Pairwise E.Disjoint)
    (hs : s ∈ xs) (hc : E.Covers s d) : E.denote cell xs d = some (cell s d) := by
  induction xs with
  | nil => simp at hs
  | cons t rest ih =>
    obtain ⟨ht, hrest⟩ := pairwise_cons.mp hd
    rw [denote_cons]
    rcases mem_cons.mp hs with rfl | hs
    · rw [if_pos hc]
    · rw [if_neg ((ht s hs).symm.not_covers _ hc), ih hrest hs]

lemma exists_mem_of_denote_eq_some {c : γ}
    (h : E.denote cell xs d = some c) : ∃ s ∈ xs, E.Covers s d ∧ cell s d = c := by
  simp only [denote, map_eq_some_iff] at h
  obtain ⟨s, hs, hc⟩ := h
  have hcov := find?_some hs
  exact ⟨s, mem_of_find?_eq_some hs, by simpa using hcov, hc⟩

lemma denote_perm (hd : xs.Pairwise E.Disjoint) (hp : xs.Perm ys) (d : ℕ) :
    E.denote cell ys d = E.denote cell xs d := by
  have hd' : ys.Pairwise E.Disjoint := (hp.pairwise_iff fun h => Disjoint.symm E h).mp hd
  cases h : E.denote cell xs d with
  | none =>
    rw [denote_eq_none_iff] at h ⊢
    exact fun s hs => h s (hp.mem_iff.mpr hs)
  | some c =>
    obtain ⟨s, hs, hc, rfl⟩ := exists_mem_of_denote_eq_some h
    exact denote_eq_some_of_mem hd' (hp.mem_iff.mp hs) hc

lemma Tiled.denote_of_mem (h : E.Tiled a xs b)
    (hs : s ∈ xs) (hc : E.Covers s d) : E.denote cell xs d = some (cell s d) :=
  denote_eq_some_of_mem h.tiles.disjoint hs hc

lemma Tiled.denote_eq_none (h : E.Tiled a xs b)
    (hd : d < a ∨ b ≤ d) : E.denote cell xs d = none := by
  rw [denote_eq_none_iff]
  rintro s hs ⟨_, _⟩
  have := h.inside hs
  omega

lemma Tiled.denote_isSome_iff (h : E.Tiled a xs b) :
    (E.denote cell xs d).isSome ↔ a ≤ d ∧ d < b := by
  constructor
  · intro hs
    by_contra hd
    rw [h.denote_eq_none (by omega)] at hs
    simp at hs
  · rintro ⟨had, hdb⟩
    obtain ⟨s, hs, hc⟩ := h.exists_covers had hdb
    rw [h.denote_of_mem hs hc]
    rfl

/-- The items tile `[a, b)` and give each position the value of `f`. -/
structure Paints (E : Extent σ) (cell : σ → ℕ → γ) (f : ℕ → γ) (a : ℕ) (xs : List σ) (b : ℕ) :
    Prop where
  tiled : E.Tiled a xs b
  value : ∀ d, a ≤ d → d < b → E.denote cell xs d = some (f d)

namespace Paints

variable {f : ℕ → γ} {a b : ℕ} {xs : List σ}

lemma nil (a : ℕ) : Paints E cell f a [] a := ⟨rfl, fun d h1 h2 => by omega⟩

lemma congr {g : ℕ → γ} (h : Paints E cell f a xs b) (hfg : ∀ d, a ≤ d → d < b → f d = g d) :
    Paints E cell g a xs b :=
  ⟨h.tiled, fun d h1 h2 => by rw [h.value d h1 h2, hfg d h1 h2]⟩

section

variable {s : σ} (hs : E.lo s < E.hi s) (hf : ∀ d, E.Covers s d → cell s d = f d)

include hs hf

lemma cons (h : Paints E cell f (E.hi s) xs b) : Paints E cell f (E.lo s) (s :: xs) b where
  tiled := ⟨rfl, hs, h.tiled⟩
  value d h1 h2 := by
    rw [denote_cons]
    by_cases hc : E.Covers s d
    · rw [if_pos hc, hf d hc]
    · rw [if_neg hc]
      refine h.value d ?_ h2
      by_contra hlt
      exact hc ⟨h1, by omega⟩

lemma singleton : Paints E cell f (E.lo s) [s] (E.hi s) := cons hs hf (nil _)

end

/-- Items may be replaced one by one by items with the same extent and values. -/
lemma map {τ : Type*} {E' : Extent τ} {cell' : τ → ℕ → γ} {g : σ → τ} (h : Paints E cell f a xs b)
    (hlo : ∀ s ∈ xs, E'.lo (g s) = E.lo s) (hhi : ∀ s ∈ xs, E'.hi (g s) = E.hi s)
    (hcell : ∀ s ∈ xs, ∀ d, cell' (g s) d = cell s d) :
    Paints E' cell' f a (xs.map g) b := by
  obtain ⟨htiled, hvalue⟩ := h
  constructor
  · clear hvalue hcell
    induction xs generalizing a with
    | nil => exact htiled
    | cons s rest ih =>
      obtain ⟨h1, h2, h3⟩ := htiled
      obtain ⟨hlos, hlo⟩ := forall_mem_cons.mp hlo
      obtain ⟨hhis, hhi⟩ := forall_mem_cons.mp hhi
      rw [map_cons, tiled_cons, hlos, hhis]
      exact ⟨h1, h2, ih hlo hhi h3⟩
  · intro d h1 h2
    rw [← hvalue d h1 h2]
    clear hvalue htiled
    induction xs with
    | nil => rfl
    | cons s rest ih =>
      obtain ⟨hlos, hlo⟩ := forall_mem_cons.mp hlo
      obtain ⟨hhis, hhi⟩ := forall_mem_cons.mp hhi
      obtain ⟨hcells, hcell⟩ := forall_mem_cons.mp hcell
      have hcov : E'.Covers (g s) d ↔ E.Covers s d := by rw [Covers, Covers, hlos, hhis]
      rw [map_cons, denote_cons, denote_cons, hcells, ih hlo hhi hcell]
      simp only [hcov]

lemma denote_eq {τ : Type*} {E' : Extent τ} {cell' : τ → ℕ → γ} {ys : List τ}
    (h : Paints E cell f a xs b) (h' : Paints E' cell' f a ys b) (d : ℕ) :
    E.denote cell xs d = E'.denote cell' ys d := by
  by_cases hd : a ≤ d ∧ d < b
  · rw [h.value d hd.1 hd.2, h'.value d hd.1 hd.2]
  · rw [h.tiled.denote_eq_none (by omega), h'.tiled.denote_eq_none (by omega)]

end Paints

/-! ## Finding the item over a position -/

/-- The bound search over the starts of a tiling stops right after the item over the
position. -/
lemma Tiled.upperBound_split {κ : Type*} [LT κ] [DecidableLT κ] (start : σ → κ) {x : κ}
    (hx : ∀ s, x < start s ↔ d < E.lo s) (h : E.Tiled a xs b) (had : a ≤ d) (hdb : d < b) :
    ∃ pre s post, xs = pre ++ s :: post ∧ E.Covers s d ∧
      upperBound (xs.map start) x = pre.length + 1 := by
  induction xs generalizing a with
  | nil =>
    have : a = b := h
    omega
  | cons s rest ih =>
    obtain ⟨_, -, hrest⟩ := h
    have hstep : upperBound ((s :: rest).map start) x = upperBound (rest.map start) x + 1 := by
      have hns : ¬ x < start s := by rw [hx]; omega
      simp [upperBound, findIdx_cons, hns]
    by_cases hd : d < E.hi s
    · refine ⟨[], s, rest, rfl, ⟨by omega, hd⟩, ?_⟩
      rw [hstep]
      -- the next item already starts above the position
      cases rest with
      | nil => rfl
      | cons t rest =>
        have ht : x < start t := by rw [hx, hrest.1]; exact hd
        simp [upperBound, findIdx_cons, ht]
    · obtain ⟨pre, t, post, hsplit, hc, hub⟩ := ih hrest (by omega)
      refine ⟨s :: pre, t, post, by rw [hsplit, cons_append], hc, ?_⟩
      rw [hstep, hub, length_cons]

/-! ## The coarsest tiling of a function -/

/-- Two tilings of an interval whose items continue their own values and whose neighbours do not
continue each other are equal if they denote the same function.  By `hext` an item is known by its
extent and its first value. -/
theorem Tiled.eq_of_denote_eq (next : γ → γ)
    (hcont : ∀ s d, E.lo s ≤ d → d + 1 < E.hi s → cell s (d + 1) = next (cell s d))
    {P : σ → Prop}
    (hext : ∀ s t, P s → P t → E.lo s = E.lo t → E.hi s = E.hi t →
      cell s (E.lo s) = cell t (E.lo t) → s = t)
    (hx : E.Tiled a xs b) (hy : E.Tiled a ys b)
    (hPx : ∀ s ∈ xs, P s) (hPy : ∀ s ∈ ys, P s)
    (hbx : xs.IsChain fun s t => cell t (E.lo t) ≠ next (cell s (E.hi s - 1)))
    (hby : ys.IsChain fun s t => cell t (E.lo t) ≠ next (cell s (E.hi s - 1)))
    (h : ∀ d, a ≤ d → d < b → E.denote cell xs d = E.denote cell ys d) : xs = ys := by
  -- an item that ends strictly inside the other's first item would be continued by its successor
  have key : ∀ {a : ℕ} {s t : σ} {xs' ys' : List σ}, E.Tiled a (s :: xs') b →
      E.Tiled a (t :: ys') b →
      (s :: xs').IsChain (fun s t => cell t (E.lo t) ≠ next (cell s (E.hi s - 1))) →
      (∀ d, a ≤ d → d < b → E.denote cell (s :: xs') d = E.denote cell (t :: ys') d) →
      ¬ E.hi s < E.hi t := by
    intro a s t xs' ys' hs ht hbs hd hlt
    have hab : E.hi t ≤ b := (ht.inside mem_cons_self).2.2
    cases xs' with
    | nil =>
      have : E.hi s = b := hs.2.2
      omega
    | cons s' rest =>
      obtain ⟨_, _, hs'lo, _, -⟩ := hs
      have hne : cell s' (E.lo s') ≠ next (cell s (E.hi s - 1)) :=
        (isChain_cons_cons.mp hbs).1
      have htl : E.lo t = a := ht.1
      have h1 := hd (E.hi s) (by omega) (by omega)
      have h2 := hd (E.hi s - 1) (by omega) (by omega)
      rw [denote_cons, if_neg (by rintro ⟨-, h'⟩; omega), denote_cons,
        if_pos ⟨by omega, by omega⟩, denote_cons, if_pos ⟨by omega, by omega⟩] at h1
      rw [denote_cons, if_pos ⟨by omega, by omega⟩, denote_cons, if_pos ⟨by omega, by omega⟩] at h2
      have hc := hcont t (E.hi s - 1) (by omega) (by omega)
      rw [show E.hi s - 1 + 1 = E.hi s by omega] at hc
      apply hne
      rw [hs'lo, some.inj h1, hc, some.inj h2]
  induction xs generalizing a ys with
  | nil =>
    cases ys with
    | nil => rfl
    | cons t ys' =>
      have hab : a = b := hx
      have := hy.inside mem_cons_self
      omega
  | cons s xs' ih =>
    cases ys with
    | nil =>
      have hab : a = b := hy
      have := hx.inside mem_cons_self
      omega
    | cons t ys' =>
      obtain ⟨hPs, hPx'⟩ := forall_mem_cons.mp hPx
      obtain ⟨hPt, hPy'⟩ := forall_mem_cons.mp hPy
      have hhi : E.hi s = E.hi t := by
        have h1 := key hx hy hbx h
        have h2 := key hy hx hby fun d hd hd' => (h d hd hd').symm
        omega
      have hsl : E.lo s = a := hx.1
      have htl : E.lo t = a := hy.1
      have hst : s = t := by
        have hlt : a < E.hi s := hx.2.1
        have h0 := h a le_rfl (by have := hx.inside mem_cons_self; omega)
        rw [denote_cons, denote_cons, if_pos ⟨by omega, by omega⟩,
          if_pos ⟨by omega, by omega⟩] at h0
        exact hext s t hPs hPt (hsl.trans htl.symm) hhi (by rw [hsl, htl]; exact some.inj h0)
      subst hst
      have hrest : xs' = ys' := by
        refine ih hx.2.2 hy.2.2 hPx' hPy' (isChain_of_isChain_cons hbx)
          (isChain_of_isChain_cons hby) ?_
        intro d hd hdb
        have hlt : a < E.hi s := hx.2.1
        have h1 := h d (by omega) hdb
        have hnc : ¬ E.Covers s d := by
          rintro ⟨-, h'⟩
          omega
        rw [denote_cons, denote_cons, if_neg hnc, if_neg hnc] at h1
        exact h1
      rw [hrest]

end Extent

end TensorCast.Lib
