import TensorCast.Lifecycle.Spec

/-!
# Revocation

A binding record that was revoked, or whose capability was released, must not be redeemed again.  Two
operations can undo a revocation: a renewal makes the binding that it names active, and an entry whose
lifetime is over marks the binding that it names as expired, also a revoked one, while the check on
redemption asks for revoked bindings only.
-/

namespace TensorCast.Lifecycle

open Core Function Lib LifecycleKernel LifecycleKernel

/-! ## What must not happen -/

def Operation.Mints (c : String) (k : LifecycleKernel) : Operation → Prop
  | .mintCapability request createdAt issuedAt => request.capabilityId = c ∧
      (k.mintCapability request createdAt issuedAt).2.IsOk
  | _ => False

def Operation.MintsBinding (b : String) (k : LifecycleKernel) : Operation → Prop
  | .mintCapability request createdAt issuedAt => request.bindingMode = .bindingRecord ∧
      request.namedBinding = some b ∧ (k.mintCapability request createdAt issuedAt).2.IsOk
  | _ => False

/-! ## Operations other than mints -/

namespace LifecycleKernel

variable {k k₁ k₂ : LifecycleKernel}

/-- No binding or address is new or changes its capability, and a revoked binding stays revoked. -/
structure Evolves (k k' : LifecycleKernel) : Prop where
  binding : ∀ b binding', k'.bindingsById b = some binding' →
    ∃ binding, k.bindingsById b = some binding ∧ binding'.capabilityId = binding.capabilityId ∧
      (binding.state = .revoked → binding'.state = .revoked)
  address : ∀ key c, k'.addressToCapabilityId key = some c → k.addressToCapabilityId key = some c

namespace Evolves

lemma of_eq (hb : k₁.bindingsById = k.bindingsById)
    (ha : k₁.addressToCapabilityId = k.addressToCapabilityId) : Evolves k k₁ :=
  ⟨fun b binding h => ⟨binding, by rwa [← hb], rfl, id⟩, fun key c h => by rwa [← ha]⟩

lemma refl (k : LifecycleKernel) : Evolves k k := of_eq rfl rfl

lemma trans (h : Evolves k k₁) (h' : Evolves k₁ k₂) : Evolves k k₂ := by
  refine ⟨fun b r₂ hr₂ => ?_, fun key c hc => h.address key c (h'.address key c hc)⟩
  obtain ⟨r₁, hr₁, hc₁, hs₁⟩ := h'.binding b r₂ hr₂
  obtain ⟨r, hr, hc, hs⟩ := h.binding b r₁ hr₁
  exact ⟨r, hr, hc₁.trans hc, fun hrev => hs₁ (hs hrev)⟩

lemma setEntry (k : LifecycleKernel) (c : String) (entry : CapabilityEntry) :
    Evolves k (k.setEntry c entry) := of_eq rfl rfl

lemma setBinding {b : String} {binding binding' : LifecycleBindingRecord}
    (hb : k.bindingsById b = some binding) (hc : binding'.capabilityId = binding.capabilityId)
    (hs : binding.state = .revoked → binding'.state = .revoked) :
    Evolves k (k.setBinding b binding') := by
  refine ⟨fun b₁ r hr => ?_, fun _ _ h => h⟩
  rcases update_some_cases hr with ⟨rfl, rfl⟩ | ⟨-, hr⟩
  · exact ⟨binding, hb, hc, hs⟩
  · exact ⟨r, hr, rfl, id⟩

lemma dropAddress (k : LifecycleKernel) (address : CapabilityBindingAddress) :
    Evolves k (k.dropAddress address) :=
  ⟨fun _ r hr => ⟨r, hr, rfl, id⟩, fun _ _ hc => (update_none_cases hc).2⟩

lemma eraseEntry (k : LifecycleKernel) (c : String) : Evolves k (k.eraseEntry c) := by
  rw [LifecycleKernel.eraseEntry]
  cases k.capabilitiesById c with
  | none => exact refl k
  | some entry =>
    refine (dropAddress k entry.address).trans ⟨fun b r hr => ⟨r, ?_, rfl, id⟩, fun _ _ h => h⟩
    dsimp only at hr
    cases hb : entry.bindingId with
    | none => rwa [hb] at hr
    | some b₁ =>
      rw [hb] at hr
      exact (update_none_cases hr).2

lemma writes {respects : Prop} (hk : Writes respects k k₁) (hrespects : respects) :
    Evolves k k₁ := by
  induction hk with
  | refl => exact refl k
  | setEntry _ _ _ ih => exact ih.trans (setEntry _ _ _)
  | setBinding _ hb hcap hstate ih => exact ih.trans (setBinding hb hcap (hstate hrespects))
  | dropAddress _ address ih => exact ih.trans (dropAddress _ address)
  | eraseEntry _ c ih => exact ih.trans (eraseEntry _ c)
  | guards _ _ hb ha ih => exact ih.trans (of_eq hb ha)

end Evolves

/-! ## What stays withdrawn -/

/-- No credential leads to the capability: its bindings are revoked, and no address is indexed
for it. -/
structure Withdrawn (c : String) (k : LifecycleKernel) : Prop where
  binding : ∀ b binding, k.bindingsById b = some binding → binding.capabilityId = c →
    binding.state = .revoked
  address : ∀ key, k.addressToCapabilityId key ≠ some c

def BindingRevoked (b : String) (k : LifecycleKernel) : Prop :=
  ∀ binding, k.bindingsById b = some binding → binding.state = .revoked

lemma Withdrawn.evolves {c : String} (h : Withdrawn c k) (hk : Evolves k k₁) : Withdrawn c k₁ := by
  refine ⟨fun b r' hr' hc => ?_, fun key hkey => h.address key (hk.address key c hkey)⟩
  obtain ⟨r, hr, hcap, hrev⟩ := hk.binding b r' hr'
  exact hrev (h.binding b r hr (hcap.symm.trans hc))

lemma BindingRevoked.evolves {b : String} (h : BindingRevoked b k) (hk : Evolves k k₁) :
    BindingRevoked b k₁ := by
  intro r' hr'
  obtain ⟨r, hr, -, hrev⟩ := hk.binding b r' hr'
  exact hrev (h r hr)

lemma Withdrawn.step {c : String} {operation : Operation} (h : Withdrawn c k)
    (hrespects : operation.Respects k) (hmint : ¬ operation.Mints c k) :
    Withdrawn c (operation.apply k) := by
  cases operation with
  | mintCapability request createdAt issuedAt =>
    rw [Operation.apply]
    rcases mintCapability_cases k request createdAt issuedAt with ⟨_, hk⟩ |
      ⟨-, _, -, -, -, hok, hcases⟩
    · rw [hk]
      exact h
    have hne : request.capabilityId ≠ c := fun hc => hmint ⟨hc, _, hok⟩
    rcases hcases with ⟨-, -, hk⟩ | ⟨-, b, binding, -, hcap, hk⟩
    · rw [hk]
      refine ⟨h.binding, fun key hkey => ?_⟩
      rcases update_some_cases hkey with ⟨-, hc⟩ | ⟨-, hkey⟩
      · exact hne hc
      · exact h.address key hkey
    · rw [hk]
      refine ⟨fun b₁ r hr hc => ?_, h.address⟩
      rcases update_some_cases hr with ⟨-, rfl⟩ | ⟨-, hr⟩
      · exact absurd (hcap.symm.trans hc) hne
      · exact h.binding b₁ r hr hc
  | _ => exact h.evolves (.writes (.apply (by simp)) hrespects)

lemma BindingRevoked.step {b : String} {operation : Operation} (h : BindingRevoked b k)
    (hrespects : operation.Respects k) (hmint : ¬ operation.MintsBinding b k) :
    BindingRevoked b (operation.apply k) := by
  cases operation with
  | mintCapability request createdAt issuedAt =>
    rw [Operation.apply]
    rcases mintCapability_cases k request createdAt issuedAt with ⟨_, hk⟩ |
      ⟨-, _, -, -, -, hok, ⟨-, -, hk⟩ | ⟨hmode, _, binding, hb₁, -, hk⟩⟩
    · rw [hk]
      exact h
    · rw [hk]
      exact h
    · rw [hk]
      intro r hr
      rcases update_some_cases hr with ⟨rfl, -⟩ | ⟨-, hr⟩
      · exact absurd ⟨hmode, hb₁, _, hok⟩ hmint
      · exact h r hr
  | _ => exact h.evolves (.writes (.apply (by simp)) hrespects)

lemma withdrawn_releaseCapability (hcons : Consistent k) (c : String) :
    Withdrawn c (k.releaseCapability c).1 := by
  rcases releaseCapability_cases k c with ⟨hk, hnone⟩ | ⟨entry, k₁, hentry, hk₁, hcases⟩
  · -- the capability is not there, so nothing refers to it
    rw [hk]
    refine ⟨fun b r hr hc => ?_, fun key hkey => ?_⟩
    · obtain ⟨e, he, -⟩ := hcons.binding b r hr
      rw [hc, hnone] at he
      cases he
    · obtain ⟨e, he, -⟩ := hcons.address key c hkey
      rw [hnone] at he
      cases he
  have h₁ : Withdrawn c k₁ := by
    have hold : Evolves k k₁ := by
      rw [hk₁]
      exact ((Evolves.setEntry k c _).trans (.writes (.revokeBinding .refl _) trivial)).trans
        (.dropAddress _ _)
    refine ⟨fun b r hr hc => ?_, fun key hkey => ?_⟩
    · -- the binding of the capability is the one that it names
      obtain ⟨r₀, hr₀, hc₀, -⟩ := hold.binding b r hr
      obtain ⟨e, he, hb⟩ := hcons.binding b r₀ hr₀
      rw [← hc₀, hc, hentry] at he
      cases he
      rw [hk₁, hb] at hr
      change ((k.setEntry c _).revokeBindingRecord b).1.bindingsById b = some r at hr
      rcases revokeBindingRecord_cases (k.setEntry c (entry.withState .draining)) b with
        ⟨-, hnone⟩ | ⟨binding, -, hk⟩
      · rw [bindingsById_setEntry, hr₀] at hnone
        cases hnone
      · rw [hk] at hr
        obtain ⟨-, rfl⟩ | ⟨hne, -⟩ := update_some_cases hr
        · rfl
        · exact absurd rfl hne
    · -- its address is the one that was taken out
      obtain ⟨e, he, ha⟩ := hcons.address key c (hold.address key c hkey)
      cases hentry.symm.trans he
      rw [hk₁] at hkey
      simp [dropAddress, ha] at hkey
  rcases hcases with hk | ⟨-, hk⟩ <;> rw [hk]
  · exact h₁
  · exact h₁.evolves (.eraseEntry k₁ c)

lemma bindingRevoked_revokeBindingRecord (k : LifecycleKernel) (b : String) :
    BindingRevoked b (k.revokeBindingRecord b).1 := by
  intro r hr
  rcases revokeBindingRecord_cases k b with ⟨hk, hnone⟩ | ⟨binding, -, hk⟩
  · rw [hk, hnone] at hr
    cases hr
  · rw [hk] at hr
    obtain rfl : binding.withState .revoked = r := by
      simpa [setBinding] using hr
    rfl

end LifecycleKernel

/-! ## Revocation in runs -/

lemma LifecycleKernel.Consistent.addresses_of_admitted {k : LifecycleKernel} (h : k.Consistent)
    {credential : ParsedCredential} {clock : Clock} {use : AdmittedCapabilityUse}
    (hok : (k.admitRedemption credential clock).2 = .ok use) :
    k.Addresses credential use.capability.capabilityId := by
  rcases admitRedemption_cases k credential clock with ⟨status, hk⟩ |
    ⟨c, entry, -, haddr, hentry, ⟨status, hk⟩ | ⟨_, hk, hid, -⟩⟩
    <;> rw [hk] at hok <;> cases hok
  · rw [hid, h.capability c entry hentry]
    exact haddr

/-- **Revocation is final** in every run whose operations do not overwrite the state of a binding that
is over: after `release_capability(c)` no redemption yields `c`, and after `revoke_binding_record(b)`
none through `b` is admitted, until it is minted again; and a renewal brings back neither a binding
that is over nor a capability that drains. -/
theorem revocation_is_final {issuer : String} {k : LifecycleKernel}
    (hrun : Reaches step (fun k operation => operation.Respects k) (start issuer) k) :
    (∀ c k', Reaches step (fun k operation => operation.Respects k ∧ ¬ operation.Mints c k)
        (k.releaseCapability c).1 k' →
      ∀ credential clock use, (k'.admitRedemption credential clock).2 = .ok use →
        use.capability.capabilityId ≠ c) ∧
    (∀ b k', Reaches step (fun k operation => operation.Respects k ∧ ¬ operation.MintsBinding b k)
        (k.revokeBindingRecord b).1 k' →
      ∀ credential clock, credential.bindingMode = .bindingRecord →
        credential.address.bindingId = some b →
        ¬ (k'.admitRedemption credential clock).2.IsOk) ∧
    ∀ request, (Operation.renewCapability request).Respects k →
      (∀ b binding, k.bindingsById b = some binding → binding.state ≠ .active →
        (k.renewCapability request).1.bindingsById b = some binding) ∧
      ∀ c entry, k.capabilitiesById c = some entry → entry.capability.state = .draining →
        ∃ entry', (k.renewCapability request).1.capabilitiesById c = some entry' ∧
          entry'.capability.state = .draining := by
  have hcons := (Consistent.start issuer).reaches hrun
  refine ⟨fun c k' hafter => ?_, fun b k' hafter => ?_, fun request hrespects => ⟨?_, ?_⟩⟩
  · have hcons' := (hcons.apply (.releaseCapability c)).reaches hafter
    have hwithdrawn : Withdrawn c k' := by
      refine hafter.invariant (withdrawn_releaseCapability hcons c) ?_
      rintro k₁ operation k₂ - ⟨hrespects, hmint⟩ hstep h
      cases hstep
      exact h.step hrespects hmint
    rintro credential clock use hok rfl
    rcases hcons'.addresses_of_admitted hok with ⟨-, binding, hb, hlive, hcap⟩ | ⟨-, haddr⟩
    · exact hlive (hwithdrawn.binding _ _ hb hcap)
    · exact hwithdrawn.address _ haddr
  · have hcons' := (hcons.apply (.revokeBindingRecord b)).reaches hafter
    have hrevoked : BindingRevoked b k' := by
      refine hafter.invariant (bindingRevoked_revokeBindingRecord k b) ?_
      rintro k₁ operation k₂ - ⟨hrespects, hmint⟩ hstep h
      cases hstep
      exact h.step hrespects hmint
    rintro credential clock hmode hb ⟨use, hok⟩
    rcases hcons'.addresses_of_admitted hok with ⟨-, binding, hbinding, hlive, -⟩ | ⟨hmode', -⟩
    · rw [hb] at hbinding
      exact hlive (hrevoked binding hbinding)
    · rw [hmode] at hmode'
      cases hmode'
  · intro b binding hb hover
    rcases renewCapability_cases k request with hk | ⟨entry, entry', hentry, -, -, hk |
      ⟨b₁, binding₁, expires, hmode, hexp, hnamed, hb₁, hk⟩⟩
    · rw [hk, hb]
    · rw [hk]
      exact hb
    · have hactive : binding₁.state = .active :=
        hrespects entry binding₁ hentry hmode (by simp [hexp]) (by rw [hnamed]; exact hb₁)
      have hne : b ≠ b₁ := by
        rintro rfl
        cases hb.symm.trans hb₁
        exact hover hactive
      rw [hk]
      simpa [LifecycleKernel.setBinding, hne] using hb
  · intro c entry hentry hdraining
    rcases renewCapability_cases k request with hk | ⟨entry₁, entry', hentry₁, -, hdrain, hcases⟩
    · exact ⟨entry, by rw [hk, hentry], hdraining⟩
    have hk : (k.renewCapability request).1.capabilitiesById =
        update k.capabilitiesById request.capabilityId (some entry') := by
      rcases hcases with hk | ⟨_, _, _, -, -, -, -, hk⟩ <;> rw [hk] <;> rfl
    rw [hk]
    rcases eq_or_ne c request.capabilityId with rfl | hne
    · cases hentry.symm.trans hentry₁
      exact ⟨entry', by simp, hdrain.draining hdraining⟩
    · exact ⟨entry, by simp [hne, hentry], hdraining⟩

/-! ## Revocations that are undone -/

/-- A time between `InfinitePast` and `InfiniteFuture`. -/
def instant (n : ℤ) : Time := ((n : WithTop ℤ) : WithBot (WithTop ℤ))

def exportAddress : CapabilityBindingAddress :=
  { routePrincipal := { principalId := "daemon" }
    bindingKey := "token"
    bindingId := some "b" }

/-- A capability with a binding record, for ten units of time. -/
def exportRequest : MintCapabilityRequest :=
  { subject := { subjectId := "s" }
    address := exportAddress
    capabilityId := "c"
    capabilityExpiresAt := instant 10
    bindingMode := .bindingRecord
    credentialExpiresAt := some (instant 100) }

def exportCredential : ParsedCredential :=
  { address := exportAddress, bindingMode := .bindingRecord }

def exportRenewal (expires : ℤ) : RenewCapabilityRequest :=
  { capabilityId := "c"
    capabilityExpiresAt := instant expires
    credentialExpiresAt := some (instant 100) }

def clockAt (n : ℤ) : Clock := ⟨instant n, instant n, instant n⟩

def LifecycleKernel.perform (k : LifecycleKernel) (operations : List Operation) :
    LifecycleKernel :=
  operations.foldl (fun k operation => operation.apply k) k

/-- A renewal makes a revoked binding active again.  And so does one of a capability that is released
while in use: a renewal makes its binding active, an attempt to redeem it after its lifetime turns
draining into expired, and the next renewal turns expired into active. -/
theorem revocation_is_undone :
    (∃ use, (((start "daemon").perform
        [.mintCapability exportRequest (instant 0) (instant 0), .revokeBindingRecord "b",
          .renewCapability (exportRenewal 10)]).admitRedemption exportCredential (clockAt 1)).2 =
        .ok use ∧ use.capability.capabilityId = "c") ∧
    ∃ use, (((start "daemon").perform
        [.mintCapability exportRequest (instant 0) (instant 0),
          .admitRedemption exportCredential (clockAt 1), .releaseCapability "c",
          .renewCapability (exportRenewal 10), .admitRedemption exportCredential (clockAt 20),
          .renewCapability (exportRenewal 100)]).admitRedemption exportCredential (clockAt 30)).2 =
        .ok use ∧ use.capability.capabilityId = "c" :=
  ⟨⟨_, rfl, rfl⟩, ⟨_, rfl, rfl⟩⟩

def exported : LifecycleKernel :=
  (start "daemon").perform [.mintCapability exportRequest (instant 0) (instant 0)]

/-- A capability that is released while it is in use, and a credential that is tried after
that. -/
theorem revocation_is_final_in_use :
    (∃ use, (exported.admitRedemption exportCredential (clockAt 1)).2 = .ok use) ∧
    ∀ use, (((exported.admitRedemption exportCredential (clockAt 1)).1.releaseCapability
        "c").1.admitRedemption exportCredential (clockAt 2)).2 = .ok use →
      use.capability.capabilityId ≠ "c" := by
  refine ⟨⟨_, rfl⟩, ?_⟩
  have hmint : Reaches step (fun k operation => operation.Respects k) (start "daemon") exported :=
    Reaches.snoc (t := .mintCapability exportRequest (instant 0) (instant 0)) .refl trivial rfl
  have hrespects :
      (Operation.admitRedemption exportCredential (clockAt 1)).Respects exported := by
    intro c entry b binding hres hentry hover
    obtain rfl : "c" = c := Except.ok.inj hres
    cases hentry
    exact absurd hover (by decide)
  exact (revocation_is_final (hmint.snoc hrespects rfl)).1 "c" _ .refl exportCredential (clockAt 2)

end TensorCast.Lifecycle
