import Mathlib

/-!
# Runs of concurrent threads

A system of threads is a function `step` that says what one step of a thread does to the state, if
the thread can take one.  A run is any sequence of steps that the threads are allowed to take, in
any order; a schedule is a run that is given as a list of threads.
-/

namespace TensorCast.Lib

/-! ## Runs -/

section Runs

variable {σ τ : Type*} (step : τ → σ → Option σ) (allowed : σ → τ → Prop)

/-- A step that a thread is allowed to take. -/
def Moves (s s' : σ) : Prop := ∃ t, allowed s t ∧ step t s = some s'

/-- What a run can lead to. -/
def Reaches : σ → σ → Prop := Relation.ReflTransGen (Moves step allowed)

variable {step allowed} {init s : σ}

lemma Reaches.invariant {P : σ → Prop} (h : Reaches step allowed init s) (hinit : P init)
    (hstep : ∀ s t s', Reaches step allowed init s → allowed s t → step t s = some s' →
      P s → P s') : P s := by
  induction h with
  | refl => exact hinit
  | tail hreach hmove ih =>
    obtain ⟨t, hallowed, ht⟩ := hmove
    exact hstep _ t _ hreach hallowed ht ih

lemma Reaches.snoc {s' : σ} {t : τ} (h : Reaches step allowed init s) (hallowed : allowed s t)
    (ht : step t s = some s') : Reaches step allowed init s' :=
  Relation.ReflTransGen.tail h ⟨t, hallowed, ht⟩

lemma Reaches.mono {allowed' : σ → τ → Prop} (h : Reaches step allowed init s)
    (hle : ∀ s t, allowed s t → allowed' s t) : Reaches step allowed' init s :=
  Relation.ReflTransGen.mono (fun s _ ⟨t, hallowed, ht⟩ => ⟨t, hle s t hallowed, ht⟩) _ _ h

/-- The state after a schedule, if its steps can be taken and are allowed. -/
def run (step : τ → σ → Option σ) (allowed : σ → τ → Bool) : List τ → σ → Option σ
  | [], s => some s
  | t :: rest, s => if allowed s t = true then (step t s).bind (run step allowed rest) else none

lemma reaches_of_run {allowed : σ → τ → Bool} {schedule : List τ} {s s' : σ}
    (h : run step allowed schedule s = some s') :
    Reaches step (fun s t => allowed s t = true) s s' := by
  induction schedule generalizing s with
  | nil =>
    cases h
    exact .refl
  | cons t rest ih =>
    by_cases hallowed : allowed s t = true
    · rw [run, if_pos hallowed, Option.bind_eq_some_iff] at h
      obtain ⟨_, hstep, hrest⟩ := h
      exact .head ⟨t, hallowed, hstep⟩ (ih hrest)
    · rw [run, if_neg hallowed] at h
      cases h

end Runs

/-! ## One thread among others -/

section Threads

variable {α β : Type*} {l : List α} {i : ℕ} {x : α}

lemma flatMap_perm_eraseIdx (h : l[i]? = some x) (f : α → List β) :
    (l.flatMap f).Perm (f x ++ (l.eraseIdx i).flatMap f) := by
  obtain ⟨hi, rfl⟩ := getElem?_eq_some_iff.mp h
  exact ((List.getElem_cons_eraseIdx_perm hi).flatMap_right f).symm

lemma flatMap_set_perm (h : l[i]? = some x) (y : α) (f : α → List β) :
    ((l.set i y).flatMap f).Perm (f y ++ (l.eraseIdx i).flatMap f) :=
  (List.set_perm_cons_eraseIdx (getElem?_eq_some_iff.mp h).1 y).flatMap_right f

lemma getElem?_set_cases {j : ℕ} {y z : α} (h : (l.set i y)[j]? = some z) :
    (j = i ∧ z = y) ∨ (j ≠ i ∧ l[j]? = some z) := by
  rw [List.getElem?_set] at h
  split_ifs at h with hij hlt
  · exact .inl ⟨hij.symm, (Option.some_inj.mp h).symm⟩
  · exact .inr ⟨fun hji => hij hji.symm, h⟩

lemma getElem?_concat_cases {j : ℕ} {y z : α} (h : (l ++ [y])[j]? = some z) :
    l[j]? = some z ∨ j = l.length ∧ z = y := by
  rw [List.getElem?_append] at h
  split_ifs at h with hlt
  · exact .inl h
  · obtain ⟨hj, rfl⟩ := getElem?_eq_some_iff.mp h
    rw [List.length_singleton] at hj
    exact .inr ⟨by omega, List.getElem_singleton hj⟩

lemma eq_or_mem_eraseIdx {z : α} (h : l[i]? = some x) (hz : z ∈ l) : z = x ∨ z ∈ l.eraseIdx i := by
  obtain ⟨hi, rfl⟩ := getElem?_eq_some_iff.mp h
  exact List.mem_cons.mp ((List.getElem_cons_eraseIdx_perm hi).mem_iff.mpr hz)

lemma forall_mem_set {P : α → Prop} (h : ∀ z ∈ l, P z) {y : α} (hy : P y) : ∀ z ∈ l.set i y, P z :=
  fun z hz => (List.mem_or_eq_of_mem_set hz).elim (h z) fun hzy => hzy ▸ hy

lemma forall_mem_of_set {P : α → Prop} {y : α} (hx : l[i]? = some x) (h : ∀ z ∈ l.set i y, P z)
    (hback : P y → P x) : ∀ z ∈ l, P z := by
  intro z hz
  have hi := (getElem?_eq_some_iff.mp hx).1
  have hset := List.set_perm_cons_eraseIdx hi y
  rcases eq_or_mem_eraseIdx hx hz with rfl | hrest
  · exact hback (h y (hset.mem_iff.mpr List.mem_cons_self))
  · exact h z (hset.mem_iff.mpr (List.mem_cons_of_mem _ hrest))

end Threads

/-! ## Independent components

Components that run the same steps side by side, with nothing shared between them.  Every move of
the whole is aimed at one component.  A component of a state that the whole can reach is a state
that a component can reach by itself.
-/

section Product

variable {ι σ τ μ : Type*} [DecidableEq ι] (aim : μ → ι × τ) (step : τ → σ → Option σ)

def productStep (move : μ) (states : ι → σ) : Option (ι → σ) :=
  (step (aim move).2 (states (aim move).1)).map (Function.update states (aim move).1)

variable {aim step} {init states : ι → σ}

lemma Reaches.component (allowed : σ → τ → Prop)
    (h : Reaches (productStep aim step)
      (fun states move => allowed (states (aim move).1) (aim move).2) init states) (i : ι) :
    Reaches step allowed (init i) (states i) := by
  refine h.invariant (P := fun states => Reaches step allowed (init i) (states i)) ?_ ?_
  · exact Relation.ReflTransGen.refl
  intro states move states' _ hallowed hstep hreach
  obtain ⟨_, hstate, rfl⟩ := Option.map_eq_some_iff.mp hstep
  by_cases hi : i = (aim move).1
  · rw [hi, Function.update_self]
    rw [hi] at hreach
    exact hreach.snoc hallowed hstate
  · rwa [Function.update_of_ne hi]

end Product

end TensorCast.Lib
