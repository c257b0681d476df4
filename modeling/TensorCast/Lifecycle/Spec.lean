import TensorCast.Lib.Transition
import TensorCast.Lib.Values
import TensorCast.Lifecycle.Kernel

/-!
# What the operations of the kernel do

Each operation is described once: what it needs and what it writes.  For every run, the indexes are
consistent: a binding record belongs to a capability that names it, and an indexed address is that of
its capability.  Only a mint adds a binding record or an address or moves one to another capability.
-/

namespace TensorCast.Lifecycle

open Core Function Lib

namespace LifecycleKernel

variable {k k' : LifecycleKernel}

/-! ## Single writes -/

@[simp] lemma renewedBinding_withExpiry (request : RenewCapabilityRequest)
    (entry : CapabilityEntry) (expires : Time) :
    renewedBinding request (entry.withExpiry expires) = renewedBinding request entry := rfl

variable (c : String) (named : Option String)

@[simp] lemma bindingsById_setEntry (entry : CapabilityEntry) :
    (k.setEntry c entry).bindingsById = k.bindingsById := rfl

@[simp] lemma addressToCapabilityId_setEntry (entry : CapabilityEntry) :
    (k.setEntry c entry).addressToCapabilityId = k.addressToCapabilityId := rfl

@[simp] lemma capabilitiesById_dropAddress (address : CapabilityBindingAddress) :
    (k.dropAddress address).capabilitiesById = k.capabilitiesById := rfl

lemma setEntry_setEntry (entry entry' : CapabilityEntry) :
    (k.setEntry c entry).setEntry c entry' = k.setEntry c entry' := by
  simp [setEntry]

lemma setEntry_setBinding (b : String) (entry : CapabilityEntry)
    (binding : LifecycleBindingRecord) :
    (k.setBinding b binding).setEntry c entry = (k.setEntry c entry).setBinding b binding := rfl

/-- An entry that was changed without a new mint. -/
structure SameEntry (entry entry' : CapabilityEntry) : Prop where
  capabilityId : entry'.capability.capabilityId = entry.capability.capabilityId
  bindingId : entry'.bindingId = entry.bindingId
  address : entry'.address = entry.address

lemma SameEntry.refl (entry : CapabilityEntry) : SameEntry entry entry := ⟨rfl, rfl, rfl⟩

lemma SameEntry.trans {e₁ e₂ e₃ : CapabilityEntry} (h : SameEntry e₁ e₂) (h' : SameEntry e₂ e₃) :
    SameEntry e₁ e₃ :=
  ⟨h'.capabilityId.trans h.capabilityId, h'.bindingId.trans h.bindingId, h'.address.trans h.address⟩

lemma SameEntry.withState (entry : CapabilityEntry) (state : LifecycleRecordState) :
    SameEntry entry (entry.withState state) := ⟨rfl, rfl, rfl⟩

lemma SameEntry.withExpiry (entry : CapabilityEntry) (expires : Time) :
    SameEntry entry (entry.withExpiry expires) := ⟨rfl, rfl, rfl⟩

/-! ## Resolving -/

/-- How a credential leads to a capability. -/
def Addresses (k : LifecycleKernel) (credential : ParsedCredential) (c : String) : Prop :=
  (credential.bindingMode = .bindingRecord ∧ ∃ binding,
      k.bindingsById (credential.address.bindingId.getD "") = some binding ∧
        binding.state ≠ .revoked ∧ binding.capabilityId = c) ∨
    (credential.bindingMode = .addressDerived ∧
      k.addressToCapabilityId (addressIndexKey credential.address) = some c)

lemma resolve_cases (k : LifecycleKernel) (credential : ParsedCredential) (now : Time) :
    (∃ c entry, k.resolveEntryForCredential credential now = (k, .ok c) ∧
      k.Addresses credential c ∧ k.capabilitiesById c = some entry) ∨
    (∃ status, k.resolveEntryForCredential credential now = (k, .error status)) ∨
    ∃ status b binding, k.bindingsById b = some binding ∧ binding.state ≠ .revoked ∧
      k.resolveEntryForCredential credential now =
        (k.setBinding b (binding.withState .expired), .error status) := by
  rw [resolveEntryForCredential]
  split_ifs with h1
  · exact .inr (.inl ⟨_, rfl⟩)
  cases hmode : credential.bindingMode with
  | addressDerived =>
    cases hkey : k.addressToCapabilityId (addressIndexKey credential.address) with
    | none => exact .inr (.inl ⟨_, rfl⟩)
    | some c =>
      dsimp only
      split_ifs with h2
      · exact .inr (.inl ⟨_, rfl⟩)
      · obtain ⟨entry, hentry⟩ := Option.ne_none_iff_exists'.mp (by simpa using h2)
        exact .inl ⟨c, entry, rfl, .inr ⟨hmode, hkey⟩, hentry⟩
  | bindingRecord =>
    dsimp only
    split_ifs with h2
    · exact .inr (.inl ⟨_, rfl⟩)
    cases hb : k.bindingsById (credential.address.bindingId.getD "") with
    | none => exact .inr (.inl ⟨_, rfl⟩)
    | some binding =>
      dsimp only
      split_ifs with h3 h4 h5 h6
      · exact .inr (.inl ⟨_, rfl⟩)
      · exact .inr (.inl ⟨_, rfl⟩)
      · exact .inr (.inr ⟨_, _, binding, hb, h4, rfl⟩)
      · exact .inr (.inl ⟨_, rfl⟩)
      · obtain ⟨entry, hentry⟩ := Option.ne_none_iff_exists'.mp (by simpa using h6)
        exact .inl ⟨_, entry, rfl, .inl ⟨hmode, binding, hb, h4, rfl⟩, hentry⟩

/-! ## The operations as writes -/

lemma expireBinding_cases (k : LifecycleKernel) (named : Option String) :
    k.expireBinding named = k ∨ ∃ b binding, named = some b ∧ k.bindingsById b = some binding ∧
      k.expireBinding named = k.setBinding b (binding.withState .expired) := by
  cases named with
  | none => exact .inl rfl
  | some b =>
    rw [expireBinding]
    cases hb : k.bindingsById b with
    | none => exact .inl rfl
    | some binding => exact .inr ⟨b, binding, rfl, hb, rfl⟩

@[simp] lemma capabilitiesById_expireBinding :
    (k.expireBinding named).capabilitiesById = k.capabilitiesById := by
  rcases expireBinding_cases k named with hk | ⟨b, binding, -, -, hk⟩ <;> rw [hk]
  rfl

lemma maybeExpire_cases (k : LifecycleKernel) (c : String) (entry : CapabilityEntry) (now : Time) :
    k.maybeExpireEntry c entry now = (k, entry) ∨
    ∃ entry', SameEntry entry entry' ∧ entry.capability.capabilityExpiresAt ≤ now ∧
      entry' = entry.withState .expired ∧ k.maybeExpireEntry c entry now =
        ((k.setEntry c entry').expireBinding entry.bindingId, entry') := by
  rw [maybeExpireEntry]
  split_ifs with h
  · exact .inr ⟨entry.withState .expired, .withState entry .expired, h, rfl, rfl⟩
  · exact .inl rfl

/-- What an attempt to redeem a credential does. -/
lemma admitRedemption_cases (k : LifecycleKernel) (credential : ParsedCredential) (clock : Clock) :
    (∃ status, k.admitRedemption credential clock =
        ((k.resolveEntryForCredential credential clock.resolved).1, .error status)) ∨
    ∃ c entry, k.resolveEntryForCredential credential clock.resolved = (k, .ok c) ∧
      k.Addresses credential c ∧ k.capabilitiesById c = some entry ∧
      ((∃ status, k.admitRedemption credential clock =
          ((k.maybeExpireEntry c entry clock.checked).1, .error status)) ∨
        ∃ use, k.admitRedemption credential clock =
            (((k.maybeExpireEntry c entry clock.checked).1.grantUse c
              (k.maybeExpireEntry c entry clock.checked).2 clock.observed).1, .ok use) ∧
          use.capability.capabilityId = entry.capability.capabilityId ∧
          use = ((k.maybeExpireEntry c entry clock.checked).1.grantUse c
            (k.maybeExpireEntry c entry clock.checked).2 clock.observed).2) := by
  rw [admitRedemption]
  rcases resolve_cases k credential clock.resolved with ⟨c, entry, hres, haddr, hentry⟩ |
    ⟨status, hres⟩ | ⟨status, b, _, -, -, hres⟩
  · refine .inr ⟨c, entry, hres, haddr, hentry, ?_⟩
    have hid : (k.maybeExpireEntry c entry clock.checked).2.capability.capabilityId =
        entry.capability.capabilityId := by
      rcases maybeExpire_cases k c entry clock.checked with h | ⟨entry', hsame, -, -, h⟩ <;> rw [h]
      exact hsame.capabilityId
    rw [hres]
    dsimp only
    rw [hentry]
    dsimp only
    split_ifs with h1 h2
    · exact .inl ⟨_, rfl⟩
    · exact .inl ⟨_, rfl⟩
    · cases hclaims : validateConstraintClaims
          (k.maybeExpireEntry c entry clock.checked).2.capability.constraintClaims
          credential.constraintClaims with
      | error status => exact .inl ⟨status, rfl⟩
      | ok _ => exact .inr ⟨_, rfl, hid, rfl⟩
  · rw [hres]
    exact .inl ⟨status, rfl⟩
  · rw [hres]
    exact .inl ⟨status, rfl⟩

/-- What a renewal keeps besides: a capability that drains drains on, and its uses stay. -/
structure Continues (entry entry' : CapabilityEntry) : Prop where
  draining : entry.capability.state = .draining → entry'.capability.state = .draining
  activeUseCount : entry'.activeUseCount = entry.activeUseCount

lemma reactivate_cases (k : LifecycleKernel) (c : String) (entry : CapabilityEntry)
    (expires : Time) :
    ∃ entry', SameEntry entry entry' ∧ Continues entry entry' ∧
      (k.reactivate c (entry.withExpiry expires)).1 = k.setEntry c entry' := by
  rw [reactivate]
  split_ifs with h
  · exact ⟨(entry.withExpiry expires).withState .active, ⟨rfl, rfl, rfl⟩,
      ⟨fun hd => absurd (h.symm.trans hd) (by decide), rfl⟩, rfl⟩
  · exact ⟨_, .withExpiry entry expires, ⟨id, rfl⟩, rfl⟩

lemma renewCapability_cases (k : LifecycleKernel) (request : RenewCapabilityRequest) :
    (k.renewCapability request).1 = k ∨
    ∃ entry entry', k.capabilitiesById request.capabilityId = some entry ∧
      SameEntry entry entry' ∧ Continues entry entry' ∧
      ((k.renewCapability request).1 = k.setEntry request.capabilityId entry' ∨
        ∃ b binding expires, entry.bindingMode = .bindingRecord ∧
          request.credentialExpiresAt = some expires ∧ renewedBinding request entry = b ∧
          k.bindingsById b = some binding ∧
          (k.renewCapability request).1 =
            (k.setEntry request.capabilityId entry').setBinding b
              { binding with credentialExpiresAt := expires, state := .active }) := by
  rw [renewCapability]
  cases hentry : k.capabilitiesById request.capabilityId with
  | none => exact .inl rfl
  | some entry =>
    have hagain := fun k : LifecycleKernel =>
      reactivate_cases k request.capabilityId entry request.capabilityExpiresAt
    right
    dsimp only
    split
    next expires hmode hexp =>
      simp only [bindingsById_setEntry, renewedBinding_withExpiry]
      cases hb : k.bindingsById (renewedBinding request entry) with
      | none =>
        exact ⟨entry, _, rfl, .withExpiry entry request.capabilityExpiresAt, ⟨id, rfl⟩, .inl rfl⟩
      | some binding =>
        obtain ⟨entry', hsame, hcont, hk⟩ := hagain _
        refine ⟨entry, entry', rfl, hsame, hcont,
          .inr ⟨_, binding, expires, hmode, hexp, rfl, hb, ?_⟩⟩
        rw [hk, setEntry_setBinding, setEntry_setEntry]
    next =>
      -- without a credential only the entry is written
      obtain ⟨entry', hsame, hcont, hk⟩ := hagain _
      refine ⟨entry, entry', rfl, hsame, hcont, .inl ?_⟩
      rw [hk, setEntry_setEntry]

variable {request : MintCapabilityRequest}

lemma namedBinding_of_valid {issuer : String} (h : validateMintRequest issuer request = .ok ())
    (hmode : request.bindingMode = .bindingRecord) : ∃ b, request.namedBinding = some b := by
  rw [validateMintRequest] at h
  split_ifs at h with h1 h2 h3 h4 h5 h6 h7 h8 h9
  cases hb : request.namedBinding with
  | none => simp [hb] at h8
  | some b => exact ⟨b, rfl⟩

lemma mintCapability_cases (k : LifecycleKernel) (request : MintCapabilityRequest)
    (createdAt issuedAt : Time) :
    (∃ status, k.mintCapability request createdAt issuedAt = (k, .error status)) ∨
    (k.capabilitiesById request.capabilityId = none ∧
      ∃ entry, entry.capability.capabilityId = request.capabilityId ∧
        entry.bindingId = request.namedBinding ∧
        (entry.address = request.address ∧ entry.activeUseCount = 0) ∧
        (k.mintCapability request createdAt issuedAt).2 = .ok entry.capability ∧
        ((request.bindingMode = .addressDerived ∧
            k.addressToCapabilityId (addressIndexKey request.address) = none ∧
            (k.mintCapability request createdAt issuedAt).1 =
              { k.setEntry request.capabilityId entry with
                addressToCapabilityId := update k.addressToCapabilityId
                  (addressIndexKey request.address) (some request.capabilityId) }) ∨
          (request.bindingMode = .bindingRecord ∧ ∃ b binding, request.namedBinding = some b ∧
            binding.capabilityId = request.capabilityId ∧
            (k.mintCapability request createdAt issuedAt).1 =
              (k.setEntry request.capabilityId entry).setBinding b binding))) := by
  rw [mintCapability]
  cases hvalid : validateMintRequest k.issuerDaemonId request with
  | error status => exact .inl ⟨status, rfl⟩
  | ok _ =>
    dsimp only
    split_ifs with h1 h2
    · exact .inl ⟨_, rfl⟩
    · exact .inl ⟨_, rfl⟩
    · right
      refine ⟨by simpa using h1, newEntry k.issuerDaemonId request createdAt issuedAt, rfl, rfl,
        ⟨rfl, rfl⟩, ?_⟩
      cases hmode : request.bindingMode with
      | addressDerived =>
        have hfree : k.addressToCapabilityId (addressIndexKey request.address) = none := by
          simpa [hmode] using h2
        exact ⟨rfl, .inl ⟨rfl, hfree, rfl⟩⟩
      | bindingRecord =>
        obtain ⟨b, hb⟩ := namedBinding_of_valid hvalid hmode
        have hid : (newBinding request issuedAt).bindingId = b := by simp [newBinding, hb]
        refine ⟨rfl, .inr ⟨rfl, b, newBinding request issuedAt, hb, rfl, ?_⟩⟩
        rw [hid]

lemma validate_of_mint {createdAt issuedAt : Time} {record : LifecycleCapabilityRecord}
    (h : (k.mintCapability request createdAt issuedAt).2 = .ok record) :
    validateMintRequest k.issuerDaemonId request = .ok () := by
  rw [mintCapability] at h
  cases hvalid : validateMintRequest k.issuerDaemonId request with
  | error status =>
    rw [hvalid] at h
    cases h
  | ok _ => rfl

lemma revokeBindingRecord_cases (k : LifecycleKernel) (b : String) :
    ((k.revokeBindingRecord b).1 = k ∧ k.bindingsById b = none) ∨
    ∃ binding, k.bindingsById b = some binding ∧
      (k.revokeBindingRecord b).1 = k.setBinding b (binding.withState .revoked) := by
  rw [revokeBindingRecord]
  cases hb : k.bindingsById b with
  | none => exact .inl ⟨rfl, rfl⟩
  | some binding => exact .inr ⟨binding, rfl, rfl⟩

@[simp] lemma addressToCapabilityId_revokeBinding :
    (k.revokeBinding named).addressToCapabilityId = k.addressToCapabilityId := by
  unfold revokeBinding revokeBindingRecord
  grind [setBinding]

@[simp] lemma capabilitiesById_revokeBinding :
    (k.revokeBinding named).capabilitiesById = k.capabilitiesById := by
  unfold revokeBinding revokeBindingRecord
  grind [setBinding]

lemma releaseCapability_cases (k : LifecycleKernel) (c : String) :
    ((k.releaseCapability c).1 = k ∧ k.capabilitiesById c = none) ∨
    ∃ entry k₁, k.capabilitiesById c = some entry ∧
      k₁ = ((k.setEntry c (entry.withState .draining)).revokeBinding entry.bindingId).dropAddress
        entry.address ∧
      ((k.releaseCapability c).1 = k₁ ∨
        (entry.activeUseCount = 0 ∧ (k.releaseCapability c).1 = k₁.eraseEntry c)) := by
  rw [releaseCapability]
  cases hentry : k.capabilitiesById c with
  | none => exact .inl ⟨rfl, rfl⟩
  | some entry =>
    refine .inr ⟨entry, _, rfl, rfl, ?_⟩
    dsimp only
    split_ifs with h
    · exact .inr ⟨h, rfl⟩
    · exact .inl rfl

def LastUse (entry : CapabilityEntry) : Prop :=
  entry.activeUseCount = 1 ∧ (entry.capability.state = .draining ∨
    entry.capability.state = .expired ∨ entry.capability.state = .released)

lemma dropUse_cases (k : LifecycleKernel) (c : String) :
    k.dropUse c = k ∨ ∃ entry entry', k.capabilitiesById c = some entry ∧ SameEntry entry entry' ∧
      (k.dropUse c = k.setEntry c entry' ∨ (LastUse entry ∧
        k.dropUse c = (k.setEntry c entry').eraseEntry entry.capability.capabilityId)) := by
  rw [dropUse]
  cases hentry : k.capabilitiesById c with
  | none => exact .inl rfl
  | some entry =>
    dsimp only
    split_ifs with h1 h2
    · exact .inl rfl
    · have hone : entry.activeUseCount = 1 := by
        rw [← sub_add_cancel entry.activeUseCount 1, h2.1]
        rfl
      exact .inr ⟨entry, { entry with activeUseCount := entry.activeUseCount - 1 }, rfl,
        ⟨rfl, rfl, rfl⟩, .inr ⟨⟨hone, h2.2⟩, rfl⟩⟩
    · exact .inr ⟨entry, { entry with activeUseCount := entry.activeUseCount - 1 }, rfl,
        ⟨rfl, rfl, rfl⟩, .inl rfl⟩

/-! ## Chains of writes -/

end LifecycleKernel

/-- A renewal names an active binding, and a redemption does not find an expired entry that names a
revoked binding. -/
def Operation.Respects (k : LifecycleKernel) : Operation → Prop
  | .renewCapability request => ∀ entry binding,
      k.capabilitiesById request.capabilityId = some entry → entry.bindingMode = .bindingRecord →
      request.credentialExpiresAt.isSome →
      k.bindingsById (LifecycleKernel.renewedBinding request entry) = some binding →
        binding.state = .active
  | .admitRedemption credential clock => ∀ c entry b binding,
      (k.resolveEntryForCredential credential clock.resolved).2 = .ok c →
      k.capabilitiesById c = some entry →
      entry.capability.capabilityExpiresAt ≤ clock.checked → entry.bindingId = some b →
      k.bindingsById b = some binding → binding.state ≠ .revoked
  | _ => True

namespace LifecycleKernel

/-- A chain of single writes.  None moves an entry or a binding to another capability, and if the
operation respects the bindings that are over, a revoked one stays revoked. -/
inductive Writes (respects : Prop) (k : LifecycleKernel) : LifecycleKernel → Prop
  | refl : Writes respects k k
  | setEntry {k₁ : LifecycleKernel} {c : String} {entry entry' : CapabilityEntry}
      (h : Writes respects k k₁) (hentry : k₁.capabilitiesById c = some entry)
      (hsame : SameEntry entry entry') : Writes respects k (k₁.setEntry c entry')
  | setBinding {k₁ : LifecycleKernel} {b : String} {binding binding' : LifecycleBindingRecord}
      (h : Writes respects k k₁) (hb : k₁.bindingsById b = some binding)
      (hcap : binding'.capabilityId = binding.capabilityId)
      (hstate : respects → binding.state = .revoked → binding'.state = .revoked) :
      Writes respects k (k₁.setBinding b binding')
  | dropAddress {k₁ : LifecycleKernel} (h : Writes respects k k₁)
      (address : CapabilityBindingAddress) : Writes respects k (k₁.dropAddress address)
  | eraseEntry {k₁ : LifecycleKernel} (h : Writes respects k k₁) (c : String) :
      Writes respects k (k₁.eraseEntry c)
  | guards {k₁ k₂ : LifecycleKernel} (h : Writes respects k k₁)
      (hc : k₂.capabilitiesById = k₁.capabilitiesById) (hb : k₂.bindingsById = k₁.bindingsById)
      (ha : k₂.addressToCapabilityId = k₁.addressToCapabilityId) : Writes respects k k₂

namespace Writes

variable {respects : Prop} {k₁ : LifecycleKernel}

lemma revokeBindingRecord (h : Writes respects k k₁) (b : String) :
    Writes respects k (k₁.revokeBindingRecord b).1 := by
  rcases revokeBindingRecord_cases k₁ b with ⟨hk, -⟩ | ⟨_, hb, hk⟩ <;> rw [hk]
  · exact h
  · exact h.setBinding hb rfl fun _ _ => rfl

lemma revokeBinding (h : Writes respects k k₁) (named : Option String) :
    Writes respects k (k₁.revokeBinding named) := by
  cases named with
  | none => exact h
  | some b => exact h.revokeBindingRecord b

lemma releaseCapability (k : LifecycleKernel) (c : String) :
    Writes respects k (k.releaseCapability c).1 := by
  rcases releaseCapability_cases k c with ⟨hk, -⟩ | ⟨entry, k₁, hentry, hk₁, hcases⟩
  · rw [hk]
    exact .refl
  have h₁ : Writes respects k k₁ := by
    rw [hk₁]
    exact ((Writes.refl.setEntry hentry (.withState entry .draining)).revokeBinding _).dropAddress _
  rcases hcases with hk | ⟨-, hk⟩ <;> rw [hk]
  · exact h₁
  · exact h₁.eraseEntry c

lemma releaseUseGuard (k : LifecycleKernel) (useGuard : LifecycleUseGuard) :
    Writes respects k (k.releaseUseGuard useGuard).1 := by
  rw [LifecycleKernel.releaseUseGuard]
  cases k.useGuardToCapabilityId useGuard.guardId with
  | none => exact .refl
  | some c =>
    have hdrop : Writes respects k (k.dropUse c) := by
      rcases dropUse_cases k c with hk | ⟨entry, entry', hentry, hsame, hk | ⟨-, hk⟩⟩ <;> rw [hk]
      · exact .refl
      · exact Writes.refl.setEntry hentry hsame
      · exact (Writes.refl.setEntry hentry hsame).eraseEntry _
    exact hdrop.guards rfl rfl rfl

lemma renewCapability (k : LifecycleKernel) (request : RenewCapabilityRequest) :
    Writes ((Operation.renewCapability request).Respects k) k (k.renewCapability request).1 := by
  rcases renewCapability_cases k request with hk | ⟨entry, entry', hentry, hsame, -, hk |
    ⟨b, binding, expires, hmode, hexp, hnamed, hb, hk⟩⟩ <;> rw [hk]
  · exact .refl
  · exact Writes.refl.setEntry hentry hsame
  · refine (Writes.refl.setEntry hentry hsame).setBinding hb rfl fun hrespects hrev => ?_
    have hactive : binding.state = .active :=
      hrespects entry binding hentry hmode (by simp [hexp]) (by rw [hnamed]; exact hb)
    exact absurd (hactive.symm.trans hrev) (by decide)

lemma admitRedemption (k : LifecycleKernel) (credential : ParsedCredential) (clock : Clock) :
    Writes ((Operation.admitRedemption credential clock).Respects k) k
      (k.admitRedemption credential clock).1 := by
  rcases admitRedemption_cases k credential clock with ⟨status, hk⟩ |
    ⟨c, entry, hres, -, hentry, hcases⟩
  · rw [hk]
    rcases resolve_cases k credential clock.resolved with ⟨c, entry, hres, -⟩ | ⟨_, hres⟩ |
      ⟨_, b, binding, hb, hlive, hres⟩ <;> rw [hres]
    · exact .refl
    · exact .refl
    · exact Writes.refl.setBinding hb rfl fun _ hrev => absurd hrev hlive
  · -- the entry after the check of its lifetime is still that of the capability
    have hexpired : Writes ((Operation.admitRedemption credential clock).Respects k) k
        (k.maybeExpireEntry c entry clock.checked).1 ∧
        ∃ e, (k.maybeExpireEntry c entry clock.checked).1.capabilitiesById c = some e ∧
          SameEntry e (k.maybeExpireEntry c entry clock.checked).2 := by
      rcases maybeExpire_cases k c entry clock.checked with hk | ⟨entry', hsame, hover, -, hk⟩
      · rw [hk]
        exact ⟨.refl, entry, hentry, .refl entry⟩
      · rw [hk]
        refine ⟨?_, entry', by simp [LifecycleKernel.setEntry], .refl entry'⟩
        rcases expireBinding_cases (k.setEntry c entry') entry.bindingId with hk' |
          ⟨b, binding, hnamed, hb, hk'⟩ <;> rw [hk']
        · exact Writes.refl.setEntry hentry hsame
        · refine (Writes.refl.setEntry hentry hsame).setBinding hb rfl fun hrespects hrev => ?_
          exact absurd hrev (hrespects c entry b binding (by rw [hres]) hentry hover hnamed hb)
    obtain ⟨hwrites, e, he, hsame⟩ := hexpired
    rcases hcases with ⟨status, hk⟩ | ⟨_, hk, -⟩ <;> rw [hk]
    · exact hwrites
    · refine (hwrites.setEntry he (hsame.trans ?_)).guards rfl rfl rfl
      exact ⟨rfl, rfl, rfl⟩

lemma apply {operation : Operation}
    (hmint : ∀ request createdAt issuedAt, operation ≠ .mintCapability request createdAt issuedAt) :
    Writes (operation.Respects k) k (operation.apply k) := by
  cases operation with
  | mintCapability request createdAt issuedAt => exact absurd rfl (hmint _ _ _)
  | renewCapability request => exact renewCapability k request
  | admitRedemption credential clock => exact admitRedemption k credential clock
  | releaseUseGuard useGuard => exact releaseUseGuard k useGuard
  | revokeBindingRecord b => exact Writes.refl.revokeBindingRecord b
  | releaseCapability c => exact releaseCapability k c

end Writes

/-! ## Consistency -/

/-- An entry stands under the id of its capability, a binding record belongs to a capability that
names it, and an indexed address is that of its capability. -/
structure Consistent (k : LifecycleKernel) : Prop where
  capability : ∀ c entry, k.capabilitiesById c = some entry → entry.capability.capabilityId = c
  binding : ∀ b binding, k.bindingsById b = some binding →
    ∃ entry, k.capabilitiesById binding.capabilityId = some entry ∧ entry.bindingId = some b
  address : ∀ key c, k.addressToCapabilityId key = some c →
    ∃ entry, k.capabilitiesById c = some entry ∧ addressIndexKey entry.address = key

namespace Consistent

lemma start (issuer : String) : Consistent (LifecycleKernel.start issuer) :=
  ⟨by simp [LifecycleKernel.start], by simp [LifecycleKernel.start],
    by simp [LifecycleKernel.start]⟩

section

variable (h : Consistent k)

include h

lemma of_eq (hc : k'.capabilitiesById = k.capabilitiesById) (hb : k'.bindingsById = k.bindingsById)
    (ha : k'.addressToCapabilityId = k.addressToCapabilityId) : Consistent k' := by
  obtain ⟨_, _, _⟩ := h
  exact ⟨by rwa [hc], by rwa [hb, hc], by rwa [ha, hc]⟩

/-- Writing an entry that keeps its id, its binding and its address. -/
lemma setEntry {c : String} {entry entry' : CapabilityEntry}
    (hentry : k.capabilitiesById c = some entry) (hsame : SameEntry entry entry') :
    Consistent (k.setEntry c entry') := by
  -- an entry of the old kernel is still there, up to what may change
  have hkeep : ∀ c₁ e₁, k.capabilitiesById c₁ = some e₁ →
      ∃ e₂, (k.setEntry c entry').capabilitiesById c₁ = some e₂ ∧ SameEntry e₁ e₂ := by
    intro c₁ e₁ he₁
    rcases eq_or_ne c₁ c with rfl | hne
    · cases hentry.symm.trans he₁
      exact ⟨entry', by simp [LifecycleKernel.setEntry], hsame⟩
    · exact ⟨e₁, by simp [LifecycleKernel.setEntry, hne, he₁], .refl e₁⟩
  refine ⟨fun c₁ e₁ he₁ => ?_, fun b r hr => ?_, fun key c₁ hc₁ => ?_⟩
  · rcases update_some_cases he₁ with ⟨rfl, rfl⟩ | ⟨-, he₁⟩
    · rw [hsame.capabilityId]
      exact h.capability _ _ hentry
    · exact h.capability _ _ he₁
  · obtain ⟨e₁, he₁, hb⟩ := h.binding b r hr
    obtain ⟨e₂, he₂, hsame₂⟩ := hkeep _ _ he₁
    exact ⟨e₂, he₂, hsame₂.bindingId.trans hb⟩
  · obtain ⟨e₁, he₁, ha⟩ := h.address key c₁ hc₁
    obtain ⟨e₂, he₂, hsame₂⟩ := hkeep _ _ he₁
    exact ⟨e₂, he₂, by rw [hsame₂.address, ha]⟩

lemma setBinding {b : String} {binding binding' : LifecycleBindingRecord}
    (hb : k.bindingsById b = some binding) (hsame : binding'.capabilityId = binding.capabilityId) :
    Consistent (k.setBinding b binding') := by
  refine ⟨h.capability, fun b₁ r hr => ?_, h.address⟩
  rcases update_some_cases hr with ⟨rfl, rfl⟩ | ⟨-, hr⟩
  · rw [hsame]
    exact h.binding b₁ binding hb
  · exact h.binding b₁ r hr

lemma dropAddress (address : CapabilityBindingAddress) : Consistent (k.dropAddress address) :=
  ⟨h.capability, h.binding, fun key c hc => h.address key c (update_none_cases hc).2⟩

/-- Erasing a capability takes its binding record and its address with it, so nothing is left that
refers to it. -/
lemma eraseEntry (c : String) : Consistent (k.eraseEntry c) := by
  rw [LifecycleKernel.eraseEntry]
  cases hentry : k.capabilitiesById c with
  | none => exact h
  | some entry =>
    refine ⟨fun c₁ e₁ he₁ => ?_, fun b r hr => ?_, fun key c₁ hc₁ => ?_⟩
    · exact h.capability c₁ e₁ (update_none_cases he₁).2
    · have hr' : k.bindingsById b = some r ∧ entry.bindingId ≠ some b := by
        dsimp only at hr
        cases hbid : entry.bindingId with
        | none =>
          rw [hbid] at hr
          exact ⟨hr, by simp⟩
        | some b₁ =>
          rw [hbid] at hr
          obtain ⟨hne, hr⟩ := update_none_cases hr
          exact ⟨hr, by simpa using hne.symm⟩
      obtain ⟨e₁, he₁, hb₁⟩ := h.binding b r hr'.1
      have hne : r.capabilityId ≠ c := by
        rintro rfl
        cases hentry.symm.trans he₁
        exact hr'.2 hb₁
      exact ⟨e₁, by simpa [hne] using he₁, hb₁⟩
    · obtain ⟨hkey, hc₁⟩ := update_none_cases hc₁
      obtain ⟨e₁, he₁, ha⟩ := h.address key c₁ hc₁
      have hne : c₁ ≠ c := by
        rintro rfl
        cases hentry.symm.trans he₁
        exact hkey ha.symm
      exact ⟨e₁, by simpa [hne] using he₁, ha⟩

lemma mintCapability (request : MintCapabilityRequest) (createdAt issuedAt : Time) :
    Consistent (k.mintCapability request createdAt issuedAt).1 := by
  rcases mintCapability_cases k request createdAt issuedAt with ⟨_, hk⟩ |
    ⟨hfresh, entry, hid, hnamed, ⟨haddr, -⟩, -, hcases⟩
  · rw [hk]
    exact h
  have hne : ∀ {c e}, k.capabilitiesById c = some e → c ≠ request.capabilityId := by
    rintro c e he rfl
    simp [hfresh] at he
  have hkeep : ∀ {c e}, k.capabilitiesById c = some e →
      update k.capabilitiesById request.capabilityId (some entry) c = some e := by
    intro c e he
    rw [update_of_ne (hne he), he]
  have hcapability : ∀ c e, update k.capabilitiesById request.capabilityId (some entry) c = some e →
      e.capability.capabilityId = c := by
    intro c e he
    rcases update_some_cases he with ⟨rfl, rfl⟩ | ⟨-, he⟩
    · exact hid
    · exact h.capability c e he
  rcases hcases with ⟨-, -, hk⟩ | ⟨-, b, binding, hb, hcap, hk⟩
  · rw [hk]
    refine ⟨hcapability, fun b r hr => ?_, fun key c hc => ?_⟩
    · obtain ⟨e, he, hbe⟩ := h.binding b r hr
      exact ⟨e, hkeep he, hbe⟩
    · rcases update_some_cases hc with ⟨rfl, rfl⟩ | ⟨-, hc⟩
      · exact ⟨entry, by simp [LifecycleKernel.setEntry], by rw [haddr]⟩
      · obtain ⟨e, he, ha⟩ := h.address key c hc
        exact ⟨e, hkeep he, ha⟩
  · rw [hk]
    refine ⟨hcapability, fun b₁ r hr => ?_, fun key c hc => ?_⟩
    · rcases update_some_cases hr with ⟨rfl, rfl⟩ | ⟨-, hr⟩
      · refine ⟨entry, ?_, hnamed.trans hb⟩
        rw [hcap]
        simp [LifecycleKernel.setBinding, LifecycleKernel.setEntry]
      · obtain ⟨e, he, hbe⟩ := h.binding b₁ r hr
        exact ⟨e, hkeep he, hbe⟩
    · obtain ⟨e, he, ha⟩ := h.address key c hc
      exact ⟨e, hkeep he, ha⟩

end

lemma writes {respects : Prop} (h : Consistent k) (hk : Writes respects k k') : Consistent k' := by
  induction hk with
  | refl => exact h
  | setEntry _ hentry hsame ih => exact ih.setEntry hentry hsame
  | setBinding _ hb hcap _ ih => exact ih.setBinding hb hcap
  | dropAddress _ address ih => exact ih.dropAddress address
  | eraseEntry _ c ih => exact ih.eraseEntry c
  | guards _ hc hb ha ih => exact ih.of_eq hc hb ha

lemma apply (h : Consistent k) (operation : Operation) : Consistent (operation.apply k) := by
  cases operation with
  | mintCapability request createdAt issuedAt => exact h.mintCapability request createdAt issuedAt
  | _ => exact h.writes (.apply (by simp))

lemma reaches {allowed : LifecycleKernel → Operation → Prop} (h : Consistent k)
    (hrun : Reaches step allowed k k') : Consistent k' := by
  refine hrun.invariant h ?_
  rintro k₁ operation k₂ - - hstep hcons
  cases hstep
  exact hcons.apply operation

end Consistent

end LifecycleKernel

end TensorCast.Lifecycle
