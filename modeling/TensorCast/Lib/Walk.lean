import Mathlib

/-!
# Walks that can be cut short

A walk visits the elements of a list in order, and each visit changes a state.  A visit can be
refused: the walk ends there, and what the earlier visits did stays.  This is a loop that checks
an element, changes the state for it, and returns an error from the middle.
-/

namespace TensorCast.Lib

variable {α σ τ ε : Type*}

def walk (visit : α → σ → Except ε σ) : List α → σ → σ × Except ε Unit
  | [], s => (s, .ok ())
  | a :: rest, s =>
    match visit a s with
    | .error e => (s, .error e)
    | .ok s' => walk visit rest s'

variable {visit : α → σ → Except ε σ} {a : α} {rest : List α} {s s' : σ} {e : ε}

lemma walk_cons_ok (h : visit a s = .ok s') : walk visit (a :: rest) s = walk visit rest s' := by
  simp [walk, h]

lemma walk_cons_error (h : visit a s = .error e) : walk visit (a :: rest) s = (s, .error e) := by
  simp [walk, h]

/-- **The rule for walks.**  Let `P done s` say what holds when the elements `done` have been
visited.  If every visit carries it on, it holds at the end: of the whole list if the walk was not
cut short, and of the elements before the one that was refused if it was. -/
lemma walk_cases {P : List α → σ → Prop} {l : List α} (hinit : P [] s)
    (hvisit : ∀ done a s s', P done s → visit a s = .ok s' → P (done ++ [a]) s') :
    (∃ s', walk visit l s = (s', .ok ()) ∧ P l s') ∨
      ∃ done a rest s' e, l = done ++ a :: rest ∧ walk visit l s = (s', .error e) ∧
        P done s' ∧ visit a s' = .error e := by
  -- the induction is on what is left, for any list of elements that have been visited
  suffices h : ∀ done s, P done s →
      (∃ s', walk visit l s = (s', .ok ()) ∧ P (done ++ l) s') ∨
        ∃ l₁ a rest s' e, l = l₁ ++ a :: rest ∧ walk visit l s = (s', .error e) ∧
          P (done ++ l₁) s' ∧ visit a s' = .error e by
    simpa using h [] s hinit
  induction l with
  | nil =>
    intro done s hdone
    exact .inl ⟨s, rfl, by simpa using hdone⟩
  | cons a l ih =>
    intro done s hdone
    cases hv : visit a s with
    | error e => exact .inr ⟨[], a, l, s, e, rfl, walk_cons_error hv, by simpa using hdone, hv⟩
    | ok s₁ =>
      rw [walk_cons_ok hv]
      rcases ih (done ++ [a]) s₁ (hvisit done a s s₁ hdone hv) with
        ⟨s', hw, hP⟩ | ⟨l₁, b, rest, s', e, rfl, hw, hP, hb⟩
      · exact .inl ⟨s', hw, by simpa using hP⟩
      · exact .inr ⟨a :: l₁, b, rest, s', e, rfl, hw, by simpa using hP, hb⟩

lemma walk_invariant {P : σ → Prop} (l : List α) (hinit : P s)
    (hvisit : ∀ a s s', P s → visit a s = .ok s' → P s') : P (walk visit l s).1 := by
  rcases walk_cases hinit
    (fun _ a s s' => hvisit a s s') with ⟨s', hw, hP⟩ | ⟨_, _, _, s', _, -, hw, hP, -⟩
  all_goals rw [hw]; exact hP

lemma walk_sim (visit : α → σ → Except ε σ) (visit' : α → τ → Except ε τ) {R : σ → τ → Prop}
    (hvisit : ∀ a s t, R s t → (∃ e, visit a s = .error e ∧ visit' a t = .error e) ∨
      ∃ s' t', visit a s = .ok s' ∧ visit' a t = .ok t' ∧ R s' t')
    (l : List α) {t : τ} (h : R s t) :
    R (walk visit l s).1 (walk visit' l t).1 ∧ (walk visit l s).2 = (walk visit' l t).2 := by
  induction l generalizing s t with
  | nil => exact ⟨h, rfl⟩
  | cons a l ih =>
    rcases hvisit a s t h with ⟨e, hs, ht⟩ | ⟨s', t', hs, ht, hR⟩
    · rw [walk_cons_error hs, walk_cons_error ht]
      exact ⟨h, rfl⟩
    · rw [walk_cons_ok hs, walk_cons_ok ht]
      exact ih hR

end TensorCast.Lib
