import TensorCast.Lib.Transition

/-!
# Threads with agendas

A thread is the list of the atomic actions it still has to take, its agenda.  An action changes the
shared state, or has to wait, and may put further actions in front of the agenda.  A call starts a new
thread.  An invariant is stated of the shared state and the pending actions as a multiset, and
`Agendas.invariant` asks that every single action keeps it.
-/

namespace TensorCast.Lib

open List Multiset

/-- The shared state, and the agenda of each thread. -/
structure Agendas (σ α : Type*) where
  shared : σ
  threads : List (List α) := []

namespace Agendas

variable {σ α κ : Type*} {p p' : Agendas σ α}

/-- The actions that are still to be taken. -/
def pending (p : Agendas σ α) : Multiset α := (p.threads.flatten : List α)

/-- No call is in progress. -/
def Quiescent (p : Agendas σ α) : Prop := ∀ agenda ∈ p.threads, agenda = []

/-- A call, or the next action of a thread. -/
inductive Move (κ : Type*)
  | call (c : κ)
  | resume (i : ℕ)

variable (start : κ → List α) (act : α → σ → Option (σ × List α))

def step : Move κ → Agendas σ α → Option (Agendas σ α)
  | .call c, p => some { p with threads := p.threads ++ [start c] }
  | .resume i, p =>
    match p.threads[i]? with
    | some (a :: rest) =>
      (act a p.shared).map fun (shared, more) => ⟨shared, p.threads.set i (more ++ rest)⟩
    | _ => none

/-- Every action is taken under a condition on the shared state and the other pending actions. -/
def Allowed (ok : σ → Multiset α → α → Prop) (p : Agendas σ α) : Move κ → Prop
  | .call _ => True
  | .resume i => ∀ a rest, p.threads[i]? = some (a :: rest) →
    ∀ others, p.pending = a ::ₘ others → ok p.shared others a

variable {start act} {ok : σ → Multiset α → α → Prop} {i : ℕ}

lemma allowed_resume {a : α} {rest : List α} (h : p.threads[i]? = some (a :: rest))
    (hok : ∀ others, p.pending = a ::ₘ others → ok p.shared others a) :
    Allowed ok p (.resume i : Move κ) := by
  intro a' rest' h'
  cases h.symm.trans h'
  exact hok

lemma allowed_true (p : Agendas σ α) (m : Move κ) : Allowed (fun _ _ _ => True) p m := by
  cases m with
  | call c => trivial
  | resume i => exact fun _ _ _ _ _ => trivial

lemma step_resume {a : α} {rest more : List α} {shared : σ}
    (h : p.threads[i]? = some (a :: rest)) (hact : act a p.shared = some (shared, more)) :
    step start act (.resume i) p = some ⟨shared, p.threads.set i (more ++ rest)⟩ := by
  rw [step, h]
  dsimp only
  rw [hact]
  rfl

lemma Quiescent.pending (h : p.Quiescent) : p.pending = 0 := by
  rw [Agendas.pending, coe_eq_zero, flatten_eq_nil_iff]
  exact h

lemma others_eq_zero {a : α} {others : Multiset α} (h : p.pending.card = 1)
    (hothers : p.pending = a ::ₘ others) : others = 0 := by
  rw [hothers, card_cons] at h
  exact card_eq_zero.mp (Nat.succ.inj h)

lemma pending_call (c : κ) :
    ({ p with threads := p.threads ++ [start c] } : Agendas σ α).pending =
      (start c : Multiset α) + p.pending := by
  simp only [pending, flatten_append, flatten_singleton, ← coe_add]
  exact add_comm _ _

lemma pending_eq {agenda : List α} (h : p.threads[i]? = some agenda) :
    p.pending = (agenda : Multiset α) + ((p.threads.eraseIdx i).flatten : List α) := by
  have hperm := flatMap_perm_eraseIdx h fun agenda => agenda
  rw [flatMap_id', flatMap_id'] at hperm
  exact coe_eq_coe.mpr hperm

lemma pending_set {agenda : List α} (h : p.threads[i]? = some agenda) (shared : σ)
    (agenda' : List α) :
    (⟨shared, p.threads.set i agenda'⟩ : Agendas σ α).pending =
      (agenda' : Multiset α) + ((p.threads.eraseIdx i).flatten : List α) := by
  have hperm := flatMap_set_perm h agenda' fun agenda => agenda
  rw [flatMap_id', flatMap_id'] at hperm
  exact coe_eq_coe.mpr hperm

lemma step_cases {m : Move κ} (h : step start act m p = some p') :
    (∃ c, m = .call c ∧ p'.shared = p.shared ∧ p'.pending = (start c : Multiset α) + p.pending) ∨
    ∃ i a rest more others, m = .resume i ∧ p.threads[i]? = some (a :: rest) ∧
      act a p.shared = some (p'.shared, more) ∧ p.pending = a ::ₘ others ∧
      p'.pending = (more : Multiset α) + others := by
  cases m with
  | call c =>
    cases h
    exact .inl ⟨c, rfl, rfl, pending_call c⟩
  | resume i =>
    refine .inr ?_
    rw [step] at h
    split at h
    case h_1 a rest hthread =>
      obtain ⟨⟨shared, more⟩, hact, rfl⟩ := Option.map_eq_some_iff.mp h
      refine ⟨i, a, rest, more, (rest : Multiset α) + ((p.threads.eraseIdx i).flatten : List α),
        rfl, hthread, hact, ?_, ?_⟩
      · rw [pending_eq hthread, ← cons_coe, cons_add]
      · rw [pending_set hthread, ← coe_add, add_assoc]
    case h_2 => cases h

/-- What holds of the shared state and the pending actions at the start, and is kept by every call
and by every action, holds in every state that is reached. -/
theorem invariant {I : σ → Multiset α → Prop}
    {p₀ : Agendas σ α} (h : Reaches (step start act) (Allowed ok) p₀ p)
    (hinit : I p₀.shared p₀.pending)
    (hcall : ∀ c s others, I s others → I s ((start c : Multiset α) + others))
    (hact : ∀ a s s' more others, ok s others a → act a s = some (s', more) → I s (a ::ₘ others) →
      I s' ((more : Multiset α) + others)) :
    I p.shared p.pending := by
  refine Reaches.invariant (P := fun p => I p.shared p.pending) h hinit ?_
  intro p m p' _ hallowed hstep hp
  rcases step_cases hstep with ⟨c, rfl, hshared, hpending⟩ |
    ⟨i, a, rest, more, others, rfl, hthread, hact', hothers, hpending⟩
  · rw [hshared, hpending]
    exact hcall c _ _ hp
  · rw [hpending]
    rw [hothers] at hp
    exact hact a _ _ more others (hallowed a rest hthread others hothers) hact' hp

end Agendas

end TensorCast.Lib
