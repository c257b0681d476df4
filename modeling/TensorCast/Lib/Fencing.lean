import TensorCast.Lib.Transition

/-!
# Fencing leases

A lease is renewed only before it has ended, it can be given up at any time, and a new holder gets a
token that was never used and the next generation.  Then the generations grow with the tokens, and a
lease that has ended or was given up is not valid again in its generation.
-/

namespace TensorCast.Lib

open List

/-- The token of the holder, if there is one, the generation, and the end. -/
structure Lease (τ : Type*) where
  token : Option τ := none
  generation : ℕ := 0
  expiresAt : ℤ := 0

/-- A token that was given out, and to whom. -/
structure Grant (τ η : Type*) where
  token : τ
  generation : ℕ
  holder : η

namespace Lease

variable {τ η : Type*} {now now' : ℤ} {lease lease' : Lease τ} {grants grants' : List (Grant τ η)}

/-- What happens to a lease, and to the list of the tokens that were given out. -/
inductive Step (now : ℤ) (lease : Lease τ) (grants : List (Grant τ η)) :
    Lease τ → List (Grant τ η) → Prop
  | stay : Step now lease grants lease grants
  | renew (expiresAt : ℤ) (hvalid : now < lease.expiresAt) :
      Step now lease grants { lease with expiresAt } grants
  | giveUp (expiresAt : ℤ) : Step now lease grants { lease with token := none, expiresAt } grants
  | grant (token : τ) (holder : η) (expiresAt : ℤ) (hfresh : ∀ grant ∈ grants, grant.token ≠ token) :
      Step now lease grants ⟨some token, lease.generation + 1, expiresAt⟩
        (grants ++ [⟨token, lease.generation + 1, holder⟩])

/-- The lease and the tokens that were given out agree. -/
structure Fenced (lease : Lease τ) (grants : List (Grant τ η)) : Prop where
  behind : ∀ grant ∈ grants, 0 < grant.generation ∧ grant.generation ≤ lease.generation
  ordered : grants.Pairwise fun grant later =>
    grant.token ≠ later.token ∧ grant.generation < later.generation
  current : ∀ token, lease.token = some token →
    ∃ grant ∈ grants, grant.token = token ∧ grant.generation = lease.generation

structure Later (now : ℤ) (lease : Lease τ) (now' : ℤ) (lease' : Lease τ) : Prop where
  le : lease.generation ≤ lease'.generation
  token : lease'.generation = lease.generation → lease'.token = none ∨ lease'.token = lease.token
  valid : lease'.generation = lease.generation → lease'.token ≠ none → now' < lease'.expiresAt →
    now < lease.expiresAt

lemma Fenced.empty : Fenced ({} : Lease τ) ([] : List (Grant τ η)) := ⟨nofun, .nil, nofun⟩

lemma Later.refl (hle : now ≤ now') : Later now lease now' lease :=
  ⟨le_rfl, fun _ => .inr rfl, fun _ _ => hle.trans_lt⟩

lemma Later.trans {now'' : ℤ} {lease'' : Lease τ} (h : Later now lease now' lease')
    (h' : Later now' lease' now'' lease'') : Later now lease now'' lease'' := by
  have hmid (heq : lease''.generation = lease.generation) :
      lease''.generation = lease'.generation ∧ lease'.generation = lease.generation := by
    have := h.le
    have := h'.le
    omega
  refine ⟨h.le.trans h'.le, fun heq => ?_, fun heq htoken hvalid => ?_⟩
  · rcases h'.token (hmid heq).1 with hnone | hsame
    · exact .inl hnone
    · exact hsame ▸ h.token (hmid heq).2
  · have hsame := (h'.token (hmid heq).1).resolve_left htoken
    exact h.valid (hmid heq).2 (hsame ▸ htoken) (h'.valid (hmid heq).1 htoken hvalid)

lemma Step.later (h : Step now' lease grants lease' grants') (hle : now ≤ now') :
    Later now lease now' lease' := by
  cases h with
  | stay => exact .refl hle
  | renew expiresAt hvalid => exact ⟨le_rfl, fun _ => .inr rfl, fun _ _ _ => hle.trans_lt hvalid⟩
  | giveUp expiresAt => exact ⟨le_rfl, fun _ => .inl rfl, fun _ hnone => absurd rfl hnone⟩
  | grant token holder expiresAt hfresh =>
    exact ⟨Nat.le_succ _, fun heq => absurd heq (Nat.succ_ne_self _),
      fun heq => absurd heq (Nat.succ_ne_self _)⟩

lemma Step.subset (h : Step now lease grants lease' grants') : grants ⊆ grants' := by
  cases h with
  | grant => exact subset_append_left _ _
  | _ => exact List.Subset.refl _

lemma Fenced.step (h : Fenced lease grants) (hstep : Step now lease grants lease' grants') :
    Fenced lease' grants' := by
  cases hstep with
  | stay => exact h
  | renew => exact ⟨h.behind, h.ordered, h.current⟩
  | giveUp => exact ⟨h.behind, h.ordered, nofun⟩
  | grant token holder expiresAt hfresh =>
    refine ⟨forall_mem_append.mpr ⟨fun g hg => ?_, by simp⟩,
      pairwise_append.mpr ⟨h.ordered, by simp, ?_⟩, ?_⟩
    · exact (h.behind g hg).imp_right Nat.le_succ_of_le
    · rintro g hg _ (_ | ⟨_, ⟨⟩⟩)
      exact ⟨hfresh g hg, Nat.lt_succ_of_le (h.behind g hg).2⟩
    · rintro _ ⟨⟩
      exact ⟨_, mem_append_right _ (mem_singleton_self _), rfl, rfl⟩

lemma Fenced.grant_eq (h : Fenced lease grants) {a b : Grant τ η} (ha : a ∈ grants) (hb : b ∈ grants)
    (hab : a.token = b.token ∨ a.generation = b.generation) : a = b := by
  by_contra hne
  have hsymm : Std.Symm fun a b : Grant τ η => a.token ≠ b.token ∧ a.generation ≠ b.generation :=
    ⟨fun _ _ h => ⟨h.1.symm, h.2.symm⟩⟩
  have hdistinct : grants.Pairwise fun a b => a.token ≠ b.token ∧ a.generation ≠ b.generation :=
    h.ordered.imp fun h => ⟨h.1, h.2.ne⟩
  exact hab.elim (hdistinct.forall ha hb hne).1 (hdistinct.forall ha hb hne).2

lemma Fenced.same (h : Fenced lease grants) (h' : Fenced lease' grants') (hsub : grants ⊆ grants')
    (hlater : Later now lease now' lease') {grant : Grant τ η} (hgrant : grant ∈ grants)
    (htoken : lease'.token = some grant.token) :
    lease'.generation = lease.generation ∧ lease.token = some grant.token := by
  obtain ⟨g, hg, hgt, hgen⟩ := h'.current _ htoken
  obtain rfl := h'.grant_eq hg (hsub hgrant) (.inl hgt)
  have heq : lease'.generation = lease.generation :=
    le_antisymm (hgen ▸ (h.behind g hgrant).2) hlater.le
  refine ⟨heq, ?_⟩
  rcases hlater.token heq with hnone | hsame
  · cases hnone.symm.trans htoken
  · exact hsame ▸ htoken

end Lease

/-! ## Runs -/

/-- A row with a lease, the time of the last call, and the tokens that were given out. -/
structure Leased (ρ τ η : Type*) where
  row : ρ
  clock : ℤ := 0
  grants : List (Grant τ η) := []

variable {ρ τ η ι : Type*} {step : ι → Leased ρ τ η → Option (Leased ρ τ η)}
  {allowed : Leased ρ τ η → ι → Prop} {s s' : Leased ρ τ η}

def Follows (lease : ρ → Lease τ) (step : ι → Leased ρ τ η → Option (Leased ρ τ η))
    (allowed : Leased ρ τ η → ι → Prop) : Prop :=
  ∀ s i s', Lease.Fenced (lease s.row) s.grants → allowed s i → step i s = some s' →
    s.clock ≤ s'.clock ∧ Lease.Step s'.clock (lease s.row) s.grants (lease s'.row) s'.grants

lemma Follows.reaches {lease : ρ → Lease τ} (h : Follows lease step allowed)
    (hreach : Reaches step allowed s s') (hfenced : Lease.Fenced (lease s.row) s.grants) :
    Lease.Fenced (lease s'.row) s'.grants ∧ s.grants ⊆ s'.grants ∧
      Lease.Later s.clock (lease s.row) s'.clock (lease s'.row) := by
  refine hreach.invariant (P := fun s' => Lease.Fenced (lease s'.row) s'.grants ∧
    s.grants ⊆ s'.grants ∧ Lease.Later s.clock (lease s.row) s'.clock (lease s'.row))
    ⟨hfenced, List.Subset.refl _, .refl le_rfl⟩ ?_
  rintro s₁ i s₂ - hallowed hstep ⟨hs₁, hsub, hlater⟩
  obtain ⟨hclock, hlease⟩ := h s₁ i s₂ hs₁ hallowed hstep
  exact ⟨hs₁.step hlease, List.Subset.trans hsub hlease.subset, hlater.trans (hlease.later hclock)⟩

end TensorCast.Lib
