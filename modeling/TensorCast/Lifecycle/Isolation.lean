import TensorCast.Lifecycle.Revocation

/-!
# Isolation of capabilities

An operation on one capability should not change how the credentials of another one are admitted.
The kernel does not check that a binding id is used once: a mint replaces the record of a binding, a
renewal may name any binding, and releasing or erasing a capability takes the binding and the address
that it names, whoever they belong to.
-/

namespace TensorCast.Lifecycle

open Core Function Lib LifecycleKernel

/-! ## Operations on a capability -/

/-- The capability that an operation mints, renews, releases or erases. -/
def Operation.target (k : LifecycleKernel) : Operation → Option String
  | .mintCapability request _ _ => some request.capabilityId
  | .renewCapability request => some request.capabilityId
  | .releaseUseGuard useGuard => k.useGuardToCapabilityId useGuard.guardId
  | .releaseCapability c => some c
  | _ => none

namespace LifecycleKernel

/-- The capability names the binding. -/
def Names (k : LifecycleKernel) (d b : String) : Prop :=
  ∃ entry, k.capabilitiesById d = some entry ∧ entry.bindingId = some b

/-- The binding and the address of the entry do not lead to the capability `d`. -/
structure Apart (k : LifecycleKernel) (d : String) (entry : CapabilityEntry) : Prop where
  binding : ∀ b, entry.bindingId = some b → ¬ k.Names d b
  address : k.addressToCapabilityId (addressIndexKey entry.address) ≠ some d

end LifecycleKernel

/-- The operation uses no binding and no address of the capability `d`. -/
def Operation.Separate (d : String) (k : LifecycleKernel) : Operation → Prop
  | .mintCapability request _ _ => validateMintRequest k.issuerDaemonId request = .ok () →
      k.capabilitiesById request.capabilityId = none → request.bindingMode = .bindingRecord →
      ∀ b, request.namedBinding = some b → ¬ k.Names d b
  | .renewCapability request => ∀ entry, k.capabilitiesById request.capabilityId = some entry →
      entry.bindingMode = .bindingRecord → request.credentialExpiresAt.isSome →
      ¬ k.Names d (renewedBinding request entry)
  | .releaseUseGuard useGuard => ∀ c entry, k.useGuardToCapabilityId useGuard.guardId = some c →
      k.capabilitiesById c = some entry → LastUse entry → k.Apart d entry
  | .releaseCapability c => ∀ entry, k.capabilitiesById c = some entry → k.Apart d entry
  | _ => True

/-! ## What the admission of a capability depends on -/

namespace LifecycleKernel

variable {k k₁ k₂ : LifecycleKernel} {d : String}

/-- Nothing that the admission of `d` depends on has changed. -/
structure Spares (d : String) (k k' : LifecycleKernel) : Prop where
  issuer : k'.issuerDaemonId = k.issuerDaemonId
  nextGuard : k'.nextGuardId = k.nextGuardId
  capability : k'.capabilitiesById d = k.capabilitiesById d
  binding : ∀ b, k.Names d b → k'.bindingsById b = k.bindingsById b
  address : ∀ key, k.addressToCapabilityId key = some d → k'.addressToCapabilityId key = some d

namespace Spares

lemma refl (d : String) (k : LifecycleKernel) : Spares d k k :=
  ⟨rfl, rfl, rfl, fun _ _ => rfl, fun _ h => h⟩

lemma names_iff (h : Spares d k k₁) (b : String) : k₁.Names d b ↔ k.Names d b := by
  rw [Names, Names, h.capability]

lemma trans (h : Spares d k k₁) (h' : Spares d k₁ k₂) : Spares d k k₂ := by
  refine ⟨h'.issuer.trans h.issuer, h'.nextGuard.trans h.nextGuard,
    h'.capability.trans h.capability, fun b hb => ?_,
    fun key hkey => h'.address key (h.address key hkey)⟩
  rw [h'.binding b ((h.names_iff b).mpr hb), h.binding b hb]

variable {c : String}

lemma setEntry (k : LifecycleKernel) (hne : d ≠ c) (entry : CapabilityEntry) :
    Spares d k (k.setEntry c entry) :=
  ⟨rfl, rfl, by simp [LifecycleKernel.setEntry, hne], fun _ _ => rfl, fun _ h => h⟩

lemma setBinding {b : String} (hb : ¬ k.Names d b) (binding : LifecycleBindingRecord) :
    Spares d k (k.setBinding b binding) := by
  refine ⟨rfl, rfl, rfl, fun b₁ hb₁ => ?_, fun _ h => h⟩
  have hne : b₁ ≠ b := by
    rintro rfl
    exact hb hb₁
  simp [LifecycleKernel.setBinding, hne]

lemma dropAddress {address : CapabilityBindingAddress}
    (h : k.addressToCapabilityId (addressIndexKey address) ≠ some d) :
    Spares d k (k.dropAddress address) := by
  refine ⟨rfl, rfl, rfl, fun _ _ => rfl, fun key hkey => ?_⟩
  have hne : key ≠ addressIndexKey address := by
    rintro rfl
    exact h hkey
  simpa [LifecycleKernel.dropAddress, hne] using hkey

lemma eraseEntry (hne : d ≠ c) (h : ∀ entry, k.capabilitiesById c = some entry → k.Apart d entry) :
    Spares d k (k.eraseEntry c) := by
  rw [LifecycleKernel.eraseEntry]
  cases hentry : k.capabilitiesById c with
  | none => exact refl d k
  | some entry =>
    obtain ⟨hbinding, haddress⟩ := h entry hentry
    obtain ⟨-, -, -, -, haddr⟩ := dropAddress haddress
    refine ⟨rfl, rfl, by simp [hne], fun b hb => ?_, haddr⟩
    dsimp only
    cases hnamed : entry.bindingId with
    | none => rfl
    | some b₁ =>
      have hb₁ : b ≠ b₁ := by
        rintro rfl
        exact hbinding b hnamed hb
      simp [hb₁]

lemma apart (h : Spares d k k₁) {entry entry₁ : CapabilityEntry} (hapart : k.Apart d entry)
    (hsame : SameEntry entry entry₁)
    (haddr : k₁.addressToCapabilityId (addressIndexKey entry.address) ≠ some d) :
    k₁.Apart d entry₁ := by
  refine ⟨fun b hb => ?_, by rwa [hsame.address]⟩
  rw [h.names_iff]
  exact hapart.binding b (hsame.bindingId.symm.trans hb)

lemma mintCapability {request : MintCapabilityRequest} {createdAt issuedAt : Time}
    (hne : d ≠ request.capabilityId)
    (h : (Operation.mintCapability request createdAt issuedAt).Separate d k) :
    Spares d k (k.mintCapability request createdAt issuedAt).1 := by
  rcases mintCapability_cases k request createdAt issuedAt with ⟨_, hk⟩ |
    ⟨hfresh, entry, -, -, -, hok, hcases⟩
  · rw [hk]
    exact refl d k
  rcases hcases with ⟨-, hfree, hk⟩ | ⟨hmode, b, binding, hb, -, hk⟩
  · rw [hk]
    refine (setEntry k hne entry).trans ⟨rfl, rfl, rfl, fun _ _ => rfl, fun key hkey => ?_⟩
    -- the address was free, so it is not one of `d`
    have hkne : key ≠ addressIndexKey request.address := by
      rintro rfl
      rw [addressToCapabilityId_setEntry, hfree] at hkey
      cases hkey
    simpa [hkne] using hkey
  · have hvalid : validateMintRequest k.issuerDaemonId request = .ok () :=
      validate_of_mint hok
    rw [hk]
    have hentry := setEntry k hne entry
    refine hentry.trans (setBinding ?_ binding)
    rw [hentry.names_iff]
    exact h hvalid hfresh hmode b hb

lemma renewCapability {request : RenewCapabilityRequest} (hne : d ≠ request.capabilityId)
    (h : (Operation.renewCapability request).Separate d k) :
    Spares d k (k.renewCapability request).1 := by
  rcases renewCapability_cases k request with hk | ⟨entry, entry', hentry, -, -, hk |
    ⟨b, binding, expires, hmode, hexp, rfl, hb, hk⟩⟩ <;> rw [hk]
  · exact refl d k
  · exact setEntry k hne entry'
  · have hset := setEntry k hne entry'
    refine hset.trans (setBinding ?_ _)
    rw [hset.names_iff]
    exact h entry hentry hmode (by simp [hexp])

lemma revokeBinding {named : Option String} (h : ∀ b, named = some b → ¬ k.Names d b) :
    Spares d k (k.revokeBinding named) := by
  cases named with
  | none => exact refl d k
  | some b =>
    change Spares d k (k.revokeBindingRecord b).1
    rcases revokeBindingRecord_cases k b with ⟨hk, -⟩ | ⟨_, -, hk⟩ <;> rw [hk]
    · exact refl d k
    · exact setBinding (h b rfl) _

lemma releaseCapability (hne : d ≠ c) (h : (Operation.releaseCapability c).Separate d k) :
    Spares d k (k.releaseCapability c).1 := by
  rcases releaseCapability_cases k c with ⟨hk, -⟩ | ⟨entry, k₁, hentry, hk₁, hcases⟩
  · rw [hk]
    exact refl d k
  have hapart := h entry hentry
  have hset := setEntry k hne (entry.withState .draining)
  have hrevoke : Spares d k ((k.setEntry c (entry.withState .draining)).revokeBinding
      entry.bindingId) := by
    refine hset.trans (revokeBinding fun b hb => ?_)
    rw [hset.names_iff]
    exact hapart.binding b hb
  have haddr : ((k.setEntry c (entry.withState .draining)).revokeBinding
      entry.bindingId).addressToCapabilityId = k.addressToCapabilityId := by
    rw [addressToCapabilityId_revokeBinding, addressToCapabilityId_setEntry]
  have h₁ : Spares d k k₁ := by
    rw [hk₁]
    refine hrevoke.trans (dropAddress ?_)
    rw [haddr]
    exact hapart.address
  rcases hcases with hk | ⟨-, hk⟩
  · rw [hk]
    exact h₁
  · rw [hk]
    refine h₁.trans (eraseEntry hne fun entry₁ hentry₁ => ?_)
    have hsame : SameEntry entry entry₁ := by
      have : k₁.capabilitiesById c = some (entry.withState .draining) := by
        rw [hk₁]
        simp [LifecycleKernel.setEntry]
      cases this.symm.trans hentry₁
      exact .withState entry .draining
    refine h₁.apart hapart hsame ?_
    rw [hk₁]
    simp [LifecycleKernel.dropAddress]

lemma releaseUseGuard {useGuard : LifecycleUseGuard} (hcons : Consistent k)
    (hne : k.useGuardToCapabilityId useGuard.guardId ≠ some d)
    (h : (Operation.releaseUseGuard useGuard).Separate d k) :
    Spares d k (k.releaseUseGuard useGuard).1 := by
  rw [LifecycleKernel.releaseUseGuard]
  cases hguard : k.useGuardToCapabilityId useGuard.guardId with
  | none => exact refl d k
  | some c =>
    have hdc : d ≠ c := by
      rintro rfl
      exact hne hguard
    have hdrop : Spares d k (k.dropUse c) := by
      rcases dropUse_cases k c with hk | ⟨entry, entry', hentry, hsame, hk | ⟨hlast, hk⟩⟩
      · rw [hk]
        exact refl d k
      · rw [hk]
        exact setEntry k hdc entry'
      · have hapart := h c entry hguard hentry hlast
        have hset := setEntry k hdc entry'
        rw [hk, hcons.capability c entry hentry]
        refine hset.trans (eraseEntry hdc fun entry₁ hentry₁ => ?_)
        obtain rfl : entry' = entry₁ := by simpa [LifecycleKernel.setEntry] using hentry₁
        exact hset.apart hapart hsame hapart.address
    exact hdrop.trans ⟨rfl, rfl, rfl, fun _ _ => rfl, fun _ h => h⟩

lemma apply {operation : Operation} (hcons : Consistent k) (h : operation.Separate d k)
    (htarget : operation.target k = some c) (hne : d ≠ c) : Spares d k (operation.apply k) := by
  cases operation with
  | mintCapability request createdAt issuedAt =>
    cases htarget
    exact mintCapability hne h
  | renewCapability request =>
    cases htarget
    exact renewCapability hne h
  | admitRedemption credential clock => cases htarget
  | releaseUseGuard useGuard =>
    refine releaseUseGuard hcons (fun hd => hne ?_) h
    exact Option.some.inj (hd.symm.trans htarget)
  | revokeBindingRecord b => cases htarget
  | releaseCapability c =>
    cases htarget
    exact releaseCapability hne h

end Spares

/-! ## Admission -/

lemma resolve_eq_ok_iff {credential : ParsedCredential} {now : Time} {c : String} :
    (k.resolveEntryForCredential credential now).2 = .ok c ↔
      routePrincipalIsLocalIssuer credential.address.routePrincipal k.issuerDaemonId = true ∧
      k.capabilitiesById c ≠ none ∧
      ((credential.bindingMode = .bindingRecord ∧ credential.address.bindingId.getD "" ≠ "" ∧
          ∃ binding, k.bindingsById (credential.address.bindingId.getD "") = some binding ∧
            ¬ (binding.address.family ≠ credential.address.family ∨
              binding.address.bindingSpace ≠ credential.address.bindingSpace ∨
              binding.address.bindingKeyKind ≠ credential.address.bindingKeyKind ∨
              binding.address.bindingKey ≠ credential.address.bindingKey) ∧
            binding.state ≠ .revoked ∧ ¬ binding.credentialExpiresAt ≤ now ∧
            binding.capabilityId = c) ∨
        (credential.bindingMode = .addressDerived ∧
          k.addressToCapabilityId (addressIndexKey credential.address) = some c)) := by
  rw [resolveEntryForCredential]
  by_cases hlocal :
      routePrincipalIsLocalIssuer credential.address.routePrincipal k.issuerDaemonId = true
  swap
  · simp [hlocal]
  rw [if_neg (by simp [hlocal])]
  simp only [hlocal]
  cases hmode : credential.bindingMode with
  | addressDerived =>
    cases hkey : k.addressToCapabilityId (addressIndexKey credential.address) with
    | none => simp
    | some c₁ =>
      simp only [Option.some.injEq, reduceCtorEq, false_and, false_or, true_and]
      split_ifs with hnone
      · simp only [false_iff, not_and]
        rintro hsome rfl
        exact hsome (by simpa using hnone)
      · simp only [Except.ok.injEq, iff_and_self]
        rintro rfl
        simpa using hnone
  | bindingRecord =>
    by_cases hid : credential.address.bindingId.getD "" = ""
    · simp [hid]
    rw [if_neg hid]
    cases hb : k.bindingsById (credential.address.bindingId.getD "") with
    | none => simp
    | some binding =>
      -- the record is the one that was found, so each check stands against its own condition
      simp only [Option.some.injEq, reduceCtorEq, exists_eq_left', false_and, or_false, true_and,
        ne_eq, hid, not_false_eq_true]
      split_ifs with h₁ h₂ h₃ h₄
      · simp [h₁]
      · simp [h₂]
      · simp [h₃]
      · simp only [false_iff, not_and]
        rintro hsome - - - rfl
        exact hsome (by simpa using h₄)
      · simp only [Except.ok.injEq, h₁, h₂, h₃, not_false_eq_true, true_and, iff_and_self]
        rintro rfl
        simpa using h₄

namespace Spares

variable {credential : ParsedCredential}

lemma resolve (h : Spares d k k₁) (hcons : Consistent k) {now : Time}
    (hres : (k.resolveEntryForCredential credential now).2 = .ok d) :
    (k₁.resolveEntryForCredential credential now).2 = .ok d := by
  rw [resolve_eq_ok_iff] at hres ⊢
  rw [h.issuer, h.capability]
  obtain ⟨hlocal, hsome, ⟨hmode, hid, binding, hb, hmatch, hlive, htime, hcap⟩ | ⟨hmode, hkey⟩⟩ :=
    hres
  · -- the record belongs to `d`, so `d` names it
    have hnames : k.Names d (credential.address.bindingId.getD "") := by
      obtain ⟨entry, hentry, hnamed⟩ := hcons.binding _ _ hb
      rw [hcap] at hentry
      exact ⟨entry, hentry, hnamed⟩
    rw [← h.binding _ hnames] at hb
    exact ⟨hlocal, hsome, .inl ⟨hmode, hid, binding, hb, hmatch, hlive, htime, hcap⟩⟩
  · exact ⟨hlocal, hsome, .inr ⟨hmode, h.address _ hkey⟩⟩

lemma grantUse (h : Spares d k k₁) {entry : CapabilityEntry}
    (hentry : k.capabilitiesById d = some entry) (observed : Time) :
    (k₁.grantUse d entry observed).2 = (k.grantUse d entry observed).2 := by
  have hbinding : entry.bindingId.bind k₁.bindingsById = entry.bindingId.bind k.bindingsById := by
    cases hnamed : entry.bindingId with
    | none => rfl
    | some b => exact h.binding b ⟨entry, hentry, hnamed⟩
  simp only [LifecycleKernel.grantUse, h.nextGuard, hbinding]

lemma admitted (h : Spares d k k₁) (hcons : Consistent k)
    {clock : Clock} (hres : (k.resolveEntryForCredential credential clock.resolved).2 = .ok d) :
    (k₁.admitRedemption credential clock).2 = (k.admitRedemption credential clock).2 := by
  have hfull : ∀ {k : LifecycleKernel},
      (k.resolveEntryForCredential credential clock.resolved).2 = .ok d →
      k.resolveEntryForCredential credential clock.resolved = (k, .ok d) := by
    intro k hres
    rcases resolve_cases k credential clock.resolved with ⟨c, entry, hk, -⟩ | ⟨status, hk⟩ |
      ⟨status, b, _, -, -, hk⟩
      <;> rw [hk] at hres ⊢ <;> cases hres
    rfl
  rw [admitRedemption, admitRedemption, hfull (h.resolve hcons hres), hfull hres]
  dsimp only
  rw [h.capability]
  cases hentry : k.capabilitiesById d with
  | none => rfl
  | some entry =>
    by_cases hover : entry.capability.capabilityExpiresAt ≤ clock.checked
    · simp [maybeExpireEntry, hover, CapabilityEntry.withState]
    · simp only [maybeExpireEntry]
      split_ifs
      · rfl
      · rfl
      · cases validateConstraintClaims entry.capability.constraintClaims
          credential.constraintClaims with
        | error status => rfl
        | ok _ => exact congrArg Except.ok (h.grantUse hentry clock.observed)

end Spares

end LifecycleKernel

/-- **Capabilities are isolated from one another.**  An operation that mints, renews, releases or erases
a capability other than `d`, and uses no binding or address of `d`, does not change how a credential
that resolves to `d` is admitted. -/
theorem capabilities_isolated {issuer : String} {k : LifecycleKernel}
    (hrun : Reaches step (fun _ _ => True) (start issuer) k) {operation : Operation} {c d : String}
    (htarget : operation.target k = some c) (hne : d ≠ c) (hseparate : operation.Separate d k) :
    ∀ credential clock, (k.resolveEntryForCredential credential clock.resolved).2 = .ok d →
      ((operation.apply k).resolveEntryForCredential credential clock.resolved).2 = .ok d ∧
      ((operation.apply k).admitRedemption credential clock).2 =
        (k.admitRedemption credential clock).2 := by
  have hcons := (Consistent.start issuer).reaches hrun
  have hspares := Spares.apply hcons hseparate htarget hne
  exact fun credential clock hres => ⟨hspares.resolve hcons hres, hspares.admitted hcons hres⟩

/-! ## Capabilities that are not -/

def sameBindingRequest : MintCapabilityRequest :=
  { exportRequest with
    capabilityId := "e"
    address := { exportAddress with bindingKey := "other" } }

/-- A capability that is addressed by its key. -/
def payloadRequest (c : String) : MintCapabilityRequest :=
  { subject := { subjectId := "s" }
    address := { routePrincipal := { principalId := "daemon" }, bindingKey := "payload" }
    capabilityId := c
    capabilityExpiresAt := instant 10 }

def payloadCredential : ParsedCredential :=
  { address := { routePrincipal := { principalId := "daemon" }, bindingKey := "payload" } }

/-- A kernel where a capability drains and its address has been minted again. -/
def rebound : LifecycleKernel :=
  (start "daemon").perform
    [.mintCapability (payloadRequest "c") (instant 0) (instant 0),
      .admitRedemption payloadCredential (clockAt 1), .releaseCapability "c",
      .mintCapability (payloadRequest "d") (instant 2) (instant 2)]

/-- A mint with the binding id of another capability replaces its record.  And the last use of a
capability that drains takes its address out of the index, although it was minted for another one. -/
theorem capabilities_not_isolated :
    ((∃ use, (exported.admitRedemption exportCredential (clockAt 1)).2 = .ok use) ∧
      ((exported.mintCapability sameBindingRequest (instant 0) (instant 0)).1.admitRedemption
        exportCredential (clockAt 1)).2 =
          .error (.failedPrecondition "binding_id address mismatch")) ∧
    (∃ use, (rebound.admitRedemption payloadCredential (clockAt 3)).2 = .ok use ∧
      use.capability.capabilityId = "d") ∧
    ((rebound.releaseUseGuard ⟨"lkg-1", "c"⟩).1.admitRedemption payloadCredential (clockAt 3)).2 =
      .error (.notFound "binding address not found") :=
  ⟨⟨⟨_, rfl⟩, rfl⟩, ⟨_, rfl, rfl⟩, rfl⟩

/-- A kernel with one capability of each kind. -/
def mixed : LifecycleKernel :=
  (start "daemon").perform
    [.mintCapability (payloadRequest "d") (instant 0) (instant 0),
      .mintCapability exportRequest (instant 0) (instant 0)]

/-- Releasing a capability does not change the admission of one with another binding. -/
theorem capabilities_isolated_by_release :
    ((mixed.releaseCapability "c").1.admitRedemption payloadCredential (clockAt 1)).2 =
      (mixed.admitRedemption payloadCredential (clockAt 1)).2 := by
  have hrun : Reaches step (fun _ _ => True) (start "daemon") mixed :=
    (Reaches.snoc .refl trivial
      rfl).snoc (t := .mintCapability exportRequest (instant 0) (instant 0)) trivial rfl
  have hseparate : (Operation.releaseCapability "c").Separate "d" mixed := by
    intro entry hentry
    cases hentry
    refine ⟨fun b _ => ?_, by decide⟩
    rintro ⟨_, hother, hnamed⟩
    cases hother
    cases hnamed
  exact (capabilities_isolated hrun rfl (by decide) hseparate payloadCredential (clockAt 1) rfl).2

end TensorCast.Lifecycle
