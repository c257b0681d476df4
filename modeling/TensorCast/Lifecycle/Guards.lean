import TensorCast.Lib.Counts
import TensorCast.Lifecycle.Isolation

/-!
# Use guards

An admitted use holds its capability until its guard is released.  Runs are traced: the trace notes
the guards that are held, those that were released, and how many uses were admitted.  The counts of
the kernel then follow the rules of reference counts.  The ids of guards come from a 64-bit counter.
-/

namespace TensorCast.Lifecycle

open Function Lib LifecycleKernel LifecycleUseGuard List UInt64 Option Nat

namespace LifecycleKernel

variable {k k' : LifecycleKernel} {c : String}

/-! ## What the operations do to the counts -/

/-- The uses that the kernel has counted for a capability, if it has an entry. -/
def uses (k : LifecycleKernel) (c : String) : Option ℕ :=
  (k.capabilitiesById c).map fun entry => entry.activeUseCount.toNat

lemma uses_of_entry {entry : CapabilityEntry} (h : k.capabilitiesById c = some entry) :
    k.uses c = some entry.activeUseCount.toNat := by
  rw [uses, h, map_some]

lemma uses_setEntry (entry : CapabilityEntry) :
    (k.setEntry c entry).uses = update k.uses c (some entry.activeUseCount.toNat) := by
  ext1 c'
  rcases eq_or_ne c' c with rfl | hne
  · simp [uses, setEntry]
  · simp [uses, setEntry, hne]

lemma uses_setEntry_same {entry entry' : CapabilityEntry}
    (h : k.capabilitiesById c = some entry) (hcount : entry'.activeUseCount = entry.activeUseCount) :
    (k.setEntry c entry').uses = k.uses := by
  rw [uses_setEntry, hcount, ← uses_of_entry h, update_eq_self]

lemma uses_eraseEntry (k : LifecycleKernel) (c : String) :
    (k.eraseEntry c).uses = update k.uses c none := by
  rw [eraseEntry]
  cases hentry : k.capabilitiesById c with
  | none =>
    have huses : k.uses c = none := by rw [uses, hentry, map_none]
    rw [← huses, update_eq_self]
  | some entry =>
    ext1 c'
    rcases eq_or_ne c' c with rfl | hne
    · simp [uses]
    · simp [uses, hne]

/-- The counts and the guards stay as they are. -/
structure SameUses (k k' : LifecycleKernel) : Prop where
  uses : k'.uses = k.uses
  guards : k'.useGuardToCapabilityId = k.useGuardToCapabilityId
  next : k'.nextGuardId = k.nextGuardId

namespace SameUses

lemma refl (k : LifecycleKernel) : SameUses k k := ⟨rfl, rfl, rfl⟩

lemma trans {k₁ k₂ k₃ : LifecycleKernel} (h : SameUses k₁ k₂) (h' : SameUses k₂ k₃) :
    SameUses k₁ k₃ :=
  ⟨h'.uses.trans h.uses, h'.guards.trans h.guards, h'.next.trans h.next⟩

lemma setEntry {entry entry' : CapabilityEntry} (h : k.capabilitiesById c = some entry)
    (hcount : entry'.activeUseCount = entry.activeUseCount) :
    SameUses k (k.setEntry c entry') :=
  ⟨uses_setEntry_same h hcount, rfl, rfl⟩

section

variable (k : LifecycleKernel)

lemma setBinding (b : String) (binding : LifecycleBindingRecord) :
    SameUses k (k.setBinding b binding) := ⟨rfl, rfl, rfl⟩

lemma expireBinding (named : Option String) : SameUses k (k.expireBinding named) := by
  rcases expireBinding_cases k named with hk | ⟨b, binding, -, -, hk⟩ <;> rw [hk]
  · exact refl k
  · exact setBinding k b _

lemma revokeBindingRecord (b : String) : SameUses k (k.revokeBindingRecord b).1 := by
  rcases revokeBindingRecord_cases k b with ⟨hk, -⟩ | ⟨_, -, hk⟩ <;> rw [hk]
  · exact refl k
  · exact setBinding k b _

lemma revokeBinding (named : Option String) : SameUses k (k.revokeBinding named) := by
  cases named with
  | none => exact refl k
  | some b => exact revokeBindingRecord k b

lemma renewCapability (request : RenewCapabilityRequest) :
    SameUses k (k.renewCapability request).1 := by
  rcases renewCapability_cases k request with hk | ⟨entry, entry', hentry, -, hcont, hk |
    ⟨b, binding, expires, -, -, -, -, hk⟩⟩ <;> rw [hk]
  · exact refl k
  · exact setEntry hentry hcont.activeUseCount
  · exact (setEntry hentry hcont.activeUseCount).trans (setBinding _ b _)

end

lemma maybeExpireEntry {entry : CapabilityEntry} (h : k.capabilitiesById c = some entry)
    (now : Time) :
    SameUses k (k.maybeExpireEntry c entry now).1 ∧
      (k.maybeExpireEntry c entry now).1.capabilitiesById c =
        some (k.maybeExpireEntry c entry now).2 := by
  rcases maybeExpire_cases k c entry now with hk | ⟨entry', -, -, rfl, hk⟩
  · rw [hk]
    exact ⟨refl k, h⟩
  · have hset : SameUses k (k.setEntry c (entry.withState .expired)) := setEntry h rfl
    rw [hk]
    refine ⟨hset.trans (expireBinding _ _), ?_⟩
    simp [LifecycleKernel.setEntry]

end SameUses

lemma mintCapability_uses (k : LifecycleKernel) (request : MintCapabilityRequest)
    (createdAt issuedAt : Time) {k' : LifecycleKernel}
    (hk' : (k.mintCapability request createdAt issuedAt).1 = k') :
    SameUses k k' ∨ (k.uses request.capabilityId = none ∧
      k'.uses = update k.uses request.capabilityId (some 0) ∧
      k'.useGuardToCapabilityId = k.useGuardToCapabilityId ∧ k'.nextGuardId = k.nextGuardId) := by
  subst hk'
  rcases mintCapability_cases k request createdAt issuedAt with ⟨_, hk⟩ |
    ⟨hfresh, entry, -, -, ⟨-, hzero⟩, -, hcases⟩
  · rw [hk]
    exact .inl (.refl k)
  have hset := uses_setEntry (k := k) (c := request.capabilityId) entry
  rw [hzero] at hset
  refine .inr ⟨by rw [uses, hfresh, map_none], ?_⟩
  rcases hcases with ⟨-, -, hk⟩ | ⟨-, b, _, -, -, hk⟩ <;> rw [hk]
  · exact ⟨hset, rfl, rfl⟩
  · exact ⟨hset, rfl, rfl⟩

lemma releaseCapability_uses (k : LifecycleKernel) (c : String) :
    SameUses k (k.releaseCapability c).1 ∨
    (k.uses c = some 0 ∧ (k.releaseCapability c).1.uses = update k.uses c none ∧
      (k.releaseCapability c).1.useGuardToCapabilityId = k.useGuardToCapabilityId ∧
      (k.releaseCapability c).1.nextGuardId = k.nextGuardId) := by
  rcases releaseCapability_cases k c with ⟨hk, -⟩ | ⟨entry, k₁, hentry, hk₁, hcases⟩
  · rw [hk]
    exact .inl (.refl k)
  have h₁ : SameUses k k₁ := by
    have hdrain : SameUses k (k.setEntry c (entry.withState .draining)) := .setEntry hentry rfl
    have hdrop := hdrain.trans (.revokeBinding _ entry.bindingId)
    rw [hk₁]
    exact ⟨hdrop.uses, hdrop.guards, hdrop.next⟩
  rcases hcases with hk | ⟨hzero, hk⟩
  · rw [hk]
    exact .inl h₁
  · have hentry₁ : k₁.capabilitiesById c = some (entry.withState .draining) := by
      rw [hk₁]
      simp [setEntry]
    refine .inr ⟨by rw [uses_of_entry hentry, hzero]; rfl, ?_⟩
    rw [hk]
    rw [uses_eraseEntry, h₁.uses, eraseEntry, hentry₁]
    exact ⟨rfl, h₁.guards, h₁.next⟩

def guardName (n : UInt64) : String := "lkg-" ++ toString n

lemma guardName_injective : Injective guardName := by
  intro m n h
  exact UInt64.toNat_inj.mp (repr_inj.mp ((String.append_right_inj _).mp h))

/-- An attempt to redeem fails and changes no count, or gives out a guard. -/
lemma admitRedemption_uses (hcons : k.Consistent) (credential : ParsedCredential) (clock : Clock)
    {k' : LifecycleKernel} (hk' : (k.admitRedemption credential clock).1 = k') :
    (∃ status, (k.admitRedemption credential clock).2 = .error status ∧ SameUses k k') ∨
    ∃ c n use, k.uses c = some n ∧ (k.admitRedemption credential clock).2 = .ok use ∧
      use.useGuard = ⟨guardName k.nextGuardId, c⟩ ∧
      k'.uses = update k.uses c (some ((n + 1) % 2 ^ 64)) ∧
      k'.useGuardToCapabilityId =
        update k.useGuardToCapabilityId (guardName k.nextGuardId) (some c) ∧
      k'.nextGuardId = k.nextGuardId + 1 := by
  subst hk'
  rcases admitRedemption_cases k credential clock with ⟨status, hk⟩ |
    ⟨c, entry, -, -, hentry, hcases⟩
  · rw [hk]
    refine .inl ⟨status, rfl, ?_⟩
    rcases resolve_cases k credential clock.resolved with ⟨c, entry, hres, -⟩ | ⟨_, hres⟩ |
      ⟨_, b, _, -, -, hres⟩ <;> rw [hres]
    · exact .refl k
    · exact .refl k
    · exact .setBinding k b _
  obtain ⟨hsame, hentry₁⟩ := SameUses.maybeExpireEntry hentry clock.checked
  rcases hcases with ⟨status, hk⟩ | ⟨use, hk, hid, huse⟩
  · rw [hk]
    exact .inl ⟨status, rfl, hsame⟩
  · have hc : (k.maybeExpireEntry c entry clock.checked).2.capability.capabilityId = c := by
      rw [huse] at hid
      exact hid.trans (hcons.capability c entry hentry)
    rw [hk]
    generalize k.maybeExpireEntry c entry clock.checked = checked at hsame hentry₁ hc huse
    refine .inr ⟨c, checked.2.activeUseCount.toNat, use, ?_, rfl, ?_, ?_, ?_, ?_⟩
    · rw [← hsame.uses]
      exact uses_of_entry hentry₁
    · rw [huse, grantUse, hc, hsame.next]
      rfl
    · rw [← hsame.uses]
      exact uses_setEntry _
    · change update checked.1.useGuardToCapabilityId _ (some checked.2.capability.capabilityId) = _
      rw [hc, hsame.guards, hsame.next]
      rfl
    · change checked.1.nextGuardId + 1 = _
      rw [hsame.next]

lemma releaseUseGuard_uses (hcons : k.Consistent) {useGuard : LifecycleUseGuard} {n : ℕ}
    (hguard : k.useGuardToCapabilityId useGuard.guardId = some c) (huses : k.uses c = some (n + 1)) :
    ((k.releaseUseGuard useGuard).1.uses = update k.uses c (some n) ∨
      (n = 0 ∧ (k.releaseUseGuard useGuard).1.uses = update k.uses c none)) ∧
    (k.releaseUseGuard useGuard).1.useGuardToCapabilityId =
      update k.useGuardToCapabilityId useGuard.guardId none ∧
    (k.releaseUseGuard useGuard).1.nextGuardId = k.nextGuardId := by
  obtain ⟨entry, hentry, hcount⟩ := map_eq_some_iff.mp huses
  have hpos : entry.activeUseCount ≠ 0 := by
    intro h
    rw [h] at hcount
    cases hcount
  have hless : (entry.activeUseCount - 1).toNat = n := by
    have hone : (1 : UInt64) ≤ entry.activeUseCount := by
      rw [le_iff_toNat_le, hcount]
      exact le_add_left 1 n
    rw [UInt64.toNat_sub_of_le _ _ hone, hcount]
    rfl
  rw [releaseUseGuard, hguard]
  dsimp only
  rw [dropUse, hentry]
  dsimp only
  rw [if_neg hpos]
  split_ifs with hlast
  · have hzero : n = 0 := by
      rw [← hless, hlast.1]
      rfl
    rw [hcons.capability c entry hentry]
    refine ⟨.inr ⟨hzero, ?_⟩, ?_, ?_⟩
    · change (eraseEntry _ c).uses = _
      rw [uses_eraseEntry, uses_setEntry, update_idem]
    · simp [eraseEntry, setEntry, dropAddress]
    · simp [eraseEntry, setEntry, dropAddress]
  · refine ⟨.inl ?_, rfl, rfl⟩
    rw [← hless]
    exact uses_setEntry _

end LifecycleKernel

/-! ## Traced runs -/

/-- A kernel with the trace of its guards. -/
structure Traced where
  kernel : LifecycleKernel
  /-- The guards that were given out and not released yet. -/
  held : List LifecycleUseGuard := []
  released : List LifecycleUseGuard := []
  admissions : ℕ := 0

namespace Traced

def step (operation : Operation) (t : Traced) : Option Traced :=
  let t' := { t with kernel := operation.apply t.kernel }
  match operation with
  | .admitRedemption credential clock =>
    match (t.kernel.admitRedemption credential clock).2 with
    | .ok use => some { t' with held := use.useGuard :: t.held, admissions := t.admissions + 1 }
    | .error _ => some t'
  | .releaseUseGuard useGuard =>
    some { t' with
      held := t.held.filter fun g => g.guardId ≠ useGuard.guardId
      released := (t.held.filter fun g => g.guardId = useGuard.guardId) ++ t.released }
  | _ => some t'

def start (issuerDaemonId : String) : Traced := { kernel := .start issuerDaemonId }

open LifecycleKernel

variable {t t' : Traced}

/-- The kernel and the trace agree. -/
structure Accounted (t : Traced) : Prop where
  consistent : t.kernel.Consistent
  counts : Counts capabilityId t.held t.kernel.uses
  guards : ∀ id c, t.kernel.useGuardToCapabilityId id = some c ↔ ⟨id, c⟩ ∈ t.held
  next : t.kernel.nextGuardId = UInt64.ofNat (t.admissions + 1)
  named : ∀ g ∈ t.held ++ t.released,
    ∃ n < t.admissions, g.guardId = guardName (UInt64.ofNat (n + 1))
  nodup : ((t.held ++ t.released).map guardId).Nodup
  length_le : t.held.length ≤ t.admissions

namespace Accounted

lemma start (issuer : String) : Accounted (Traced.start issuer) where
  consistent := .start issuer
  counts := .empty
  guards := by simp [Traced.start, LifecycleKernel.start]
  next := rfl
  named := nofun
  nodup := .nil
  length_le := le_rfl

lemma recount (h : Accounted t) {k : LifecycleKernel} (hcons : k.Consistent)
    (hcounts : Counts capabilityId t.held k.uses)
    (hguards : k.useGuardToCapabilityId = t.kernel.useGuardToCapabilityId)
    (hnext : k.nextGuardId = t.kernel.nextGuardId) : Accounted { t with kernel := k } where
  consistent := hcons
  counts := hcounts
  guards := by
    rw [hguards]
    exact h.guards
  next := hnext.trans h.next
  named := h.named
  nodup := h.nodup
  length_le := h.length_le

lemma same (h : Accounted t) {k : LifecycleKernel} (hcons : k.Consistent)
    (hsame : SameUses t.kernel k) : Accounted { t with kernel := k } :=
  h.recount hcons (hsame.uses ▸ h.counts) hsame.guards hsame.next

lemma fresh (h : Accounted t) (hfew : t.admissions + 1 < 2 ^ 64) {g : LifecycleUseGuard}
    (hg : g ∈ t.held ++ t.released) : g.guardId ≠ guardName t.kernel.nextGuardId := by
  obtain ⟨n, hn, hname⟩ := h.named g hg
  rw [hname, h.next]
  intro heq
  have htoNat := congrArg toNat (guardName_injective heq)
  rw [toNat_ofNat_of_lt' (lt_trans (succ_lt_succ hn) hfew), toNat_ofNat_of_lt' (hfew)] at htoNat
  omega

lemma admitRedemption (h : Accounted t) {credential : ParsedCredential} {clock : Clock}
    (hstep : Traced.step (.admitRedemption credential clock) t = some t')
    (hfew : t'.admissions < 2 ^ 64) : Accounted t' := by
  have hcons := h.consistent.apply (.admitRedemption credential clock)
  rw [Traced.step] at hstep
  rcases admitRedemption_uses h.consistent credential clock rfl with ⟨_, hres, hsame⟩ |
    ⟨c, n, use, huses, hres, hguard, huses', hguards', hnext'⟩
  · simp only [hres] at hstep
    cases hstep
    exact h.same hcons hsame
  simp only [hres] at hstep
  cases hstep
  replace hfew : t.admissions + 1 < 2 ^ 64 := hfew
  have hfresh : ∀ g ∈ t.held ++ t.released, g.guardId ≠ guardName t.kernel.nextGuardId :=
    fun g => h.fresh hfew
  constructor
  · exact hcons
  · -- the count has room: there are no more holders than admissions
    have hroom : n + 1 < 2 ^ 64 := by
      have hn := h.counts.count_eq c n huses
      have hle := countP_le_length (p := fun g : LifecycleUseGuard => g.capabilityId = c)
        (l := t.held)
      have hlen := h.length_le
      omega
    rw [mod_eq_of_lt hroom] at huses'
    change Counts _ _ (t.kernel.admitRedemption credential clock).1.uses
    rw [huses', hguard]
    exact h.counts.take huses
  · intro id c'
    change (t.kernel.admitRedemption credential clock).1.useGuardToCapabilityId id = some c' ↔ _
    rw [hguards', hguard, mem_cons]
    rcases eq_or_ne id (guardName t.kernel.nextGuardId) with rfl | hne
    · rw [update_self, some_inj]
      constructor
      · rintro rfl
        exact .inl rfl
      · rintro (heq | hmem)
        · exact ((LifecycleUseGuard.mk.injEq ..).mp heq).2.symm
        · exact absurd rfl (hfresh _ (mem_append_left _ hmem))
    · rw [update_of_ne hne, h.guards]
      constructor
      · exact .inr
      · rintro (heq | hmem)
        · exact absurd ((LifecycleUseGuard.mk.injEq ..).mp heq).1 hne
        · exact hmem
  · change (t.kernel.admitRedemption credential clock).1.nextGuardId = _
    rw [hnext', h.next, ← UInt64.ofNat_one, ← ofNat_add]
  · refine forall_mem_cons.mpr ⟨⟨t.admissions, lt_succ_self _, ?_⟩, fun g hold => ?_⟩
    · rw [hguard, h.next]
    · obtain ⟨n, hn, hname⟩ := h.named g hold
      exact ⟨n, lt_succ_of_lt hn, hname⟩
  · change ((use.useGuard :: (t.held ++ t.released)).map _).Nodup
    rw [map_cons, nodup_cons]
    refine ⟨fun hmem => ?_, h.nodup⟩
    obtain ⟨g, hg, hname⟩ := mem_map.mp hmem
    rw [hguard] at hname
    exact hfresh g hg hname
  · exact succ_le_succ h.length_le

lemma perm_released (t : Traced) (id : String) :
    ((t.held.filter fun g => g.guardId ≠ id) ++
      ((t.held.filter fun g => g.guardId = id) ++ t.released)).Perm (t.held ++ t.released) := by
  rw [← append_assoc]
  refine Perm.append_right _ (perm_append_comm.trans ?_)
  simpa using filter_append_perm (fun g : LifecycleUseGuard => decide (g.guardId = id)) t.held

lemma releaseUseGuard (h : Accounted t) {useGuard : LifecycleUseGuard}
    (hstep : Traced.step (.releaseUseGuard useGuard) t = some t') : Accounted t' := by
  have hcons := h.consistent.apply (.releaseUseGuard useGuard)
  cases hstep
  have hperm := perm_released t useGuard.guardId
  have hnamed : ∀ g ∈ (t.held.filter fun g => g.guardId ≠ useGuard.guardId) ++
      ((t.held.filter fun g => g.guardId = useGuard.guardId) ++ t.released),
      ∃ n < t.admissions, g.guardId = guardName (ofNat (n + 1)) :=
    fun g hg => h.named g (hperm.mem_iff.mp hg)
  have hnodup := (hperm.map guardId).nodup_iff.mpr h.nodup
  have hlen := (length_filter_le (fun g : LifecycleUseGuard => g.guardId ≠ useGuard.guardId)
    t.held).trans h.length_le
  cases hguard : t.kernel.useGuardToCapabilityId useGuard.guardId with
  | none =>
    -- no guard of this id is held
    have hkernel : (t.kernel.releaseUseGuard useGuard).1 = t.kernel := by
      rw [releaseUseGuard, hguard]
    have hfilter : (t.held.filter fun g => g.guardId ≠ useGuard.guardId) = t.held := by
      rw [filter_eq_self]
      intro g hg
      rw [decide_eq_true_eq]
      intro hid
      have hsome := (h.guards g.guardId g.capabilityId).mpr hg
      rw [hid, hguard] at hsome
      cases hsome
    refine ⟨hcons, ?_, ?_, ?_, hnamed, hnodup, hlen⟩
    all_goals dsimp only [Operation.apply]
    · rw [hkernel, hfilter]
      exact h.counts
    · rw [hkernel, hfilter]
      exact h.guards
    · rw [hkernel]
      exact h.next
  | some c =>
    have hheld : ⟨useGuard.guardId, c⟩ ∈ t.held := (h.guards _ _).mp hguard
    have hrest := perm_cons_filter_ne ((nodup_append.mp (map_append ▸ h.nodup)).1) hheld
    have hcounts := h.counts.of_perm hrest
    obtain ⟨m, hm⟩ := h.counts.recorded _ hheld
    obtain ⟨n, rfl⟩ : ∃ n, m = n + 1 :=
      exists_eq_add_one.mpr (h.counts.pos hheld hm)
    obtain ⟨huses, hguards', hnext'⟩ := releaseUseGuard_uses h.consistent hguard hm
    refine ⟨hcons, ?_, ?_, hnext'.trans h.next, hnamed, hnodup, hlen⟩
    · change Counts _ (t.held.filter _) (t.kernel.releaseUseGuard useGuard).1.uses
      rcases huses with huses | ⟨rfl, huses⟩ <;> rw [huses]
      · exact hcounts.give hm
      · exact hcounts.give_last hm
    · intro id c'
      change (t.kernel.releaseUseGuard useGuard).1.useGuardToCapabilityId id = some c' ↔
        ⟨id, c'⟩ ∈ t.held.filter _
      rw [hguards', mem_filter, ← h.guards]
      rcases eq_or_ne id useGuard.guardId with rfl | hne
      · simp
      · simp [hne]

/-- Every step keeps the kernel and the trace in agreement, as long as the counter of the guards
has not come round. -/
lemma step (h : Accounted t) {operation : Operation}
    (hstep : Traced.step operation t = some t') (hfew : t'.admissions < 2 ^ 64) :
    Accounted t' := by
  have hcons := h.consistent.apply operation
  cases operation with
  | admitRedemption credential clock => exact h.admitRedemption hstep hfew
  | releaseUseGuard useGuard => exact h.releaseUseGuard hstep
  | renewCapability request =>
    cases hstep
    exact h.same hcons (.renewCapability t.kernel request)
  | revokeBindingRecord b =>
    cases hstep
    exact h.same hcons (.revokeBindingRecord t.kernel b)
  | mintCapability request createdAt issuedAt =>
    cases hstep
    rcases mintCapability_uses t.kernel request createdAt issuedAt rfl with hsame |
      ⟨hnone, huses, hguards, hnext⟩
    · exact h.same hcons hsame
    · refine h.recount hcons ?_ hguards hnext
      rw [Operation.apply, huses]
      exact h.counts.enter hnone
  | releaseCapability c =>
    cases hstep
    rcases releaseCapability_uses t.kernel c with hsame | ⟨hzero, huses, hguards, hnext⟩
    · exact h.same hcons hsame
    · refine h.recount hcons ?_ hguards hnext
      rw [Operation.apply, huses]
      exact h.counts.leave hzero

end Accounted

lemma admissions_le_step {operation : Operation} (hstep : Traced.step operation t = some t') :
    t.admissions ≤ t'.admissions := by
  cases operation with
  | admitRedemption credential clock =>
    rw [Traced.step] at hstep
    cases hres : (t.kernel.admitRedemption credential clock).2 with
    | error status =>
      simp only [hres] at hstep
      cases hstep
      exact le_rfl
    | ok use =>
      simp only [hres] at hstep
      cases hstep
      exact le_succ _
  | _ =>
    cases hstep
    exact le_rfl

lemma accounted_of_reaches {issuer : String}
    (hrun : Reaches Traced.step (fun _ _ => True) (Traced.start issuer) t) :
    t.admissions < 2 ^ 64 → Accounted t := by
  refine hrun.invariant (P := fun t => t.admissions < 2 ^ 64 → Accounted t)
    (fun _ => .start issuer) ?_
  intro t₁ operation t₂ _ _ hstep ih hfew
  exact (ih ((admissions_le_step hstep).trans_lt hfew)).step hstep hfew

/-- **Use guards keep capabilities alive.**  With fewer than `2 ^ 64` admitted uses, the use count of a
capability is the number of its guards that are held, releasing a guard again does nothing, and every
guard that is held is one of a capability that the kernel still has. -/
theorem guards_keep_capabilities {issuer : String}
    (hrun : Reaches Traced.step (fun _ _ => True) (Traced.start issuer) t)
    (hfew : t.admissions < 2 ^ 64) :
    (∀ c entry, t.kernel.capabilitiesById c = some entry →
      entry.activeUseCount.toNat = t.held.countP fun g => g.capabilityId = c) ∧
    (∀ g ∈ t.released,
      t.kernel.releaseUseGuard g = (t.kernel, .error (.notFound "use_guard not found"))) ∧
    ∀ g ∈ t.held, ∃ entry, t.kernel.capabilitiesById g.capabilityId = some entry := by
  have h := accounted_of_reaches hrun hfew
  refine ⟨fun c entry hentry => ?_, fun g hg => ?_, fun g hg => ?_⟩
  · exact h.counts.count_eq c _ (uses_of_entry hentry)
  · have hnone : t.kernel.useGuardToCapabilityId g.guardId = none := by
      rw [eq_none_iff_forall_ne_some]
      intro c hc
      have hheld := (h.guards _ _).mp hc
      have hnodup := h.nodup
      rw [map_append, nodup_append] at hnodup
      exact hnodup.2.2 _ (mem_map_of_mem hheld) _ (mem_map_of_mem hg) rfl
    rw [LifecycleKernel.releaseUseGuard, hnone]
  · obtain ⟨n, hn⟩ := h.counts.recorded g hg
    obtain ⟨entry, hentry, -⟩ := map_eq_some_iff.mp hn
    exact ⟨entry, hentry⟩

/-! ## The counter comes round -/

/-- A capability without an end. -/
def lastingRequest : MintCapabilityRequest := { payloadRequest "c" with capabilityExpiresAt := ⊤ }

def inUse : LifecycleKernel :=
  (LifecycleKernel.start "daemon").perform
    [.mintCapability lastingRequest (instant 0) (instant 0),
      .admitRedemption payloadCredential (clockAt 1)]

/-- The same kernel at another value of its counter. -/
def inUseAt (n : UInt64) : LifecycleKernel := { inUse with nextGuardId := n }

def usedEntry (n : UInt64) : CapabilityEntry :=
  { newEntry "daemon" lastingRequest (instant 0) (instant 0) with
    subject := { subjectId := "s", createdAt := instant 0, lastObservedAt := instant 1 }
    activeUseCount := n }

lemma admit_inUseAt (n : UInt64) :
    ((inUseAt n).admitRedemption payloadCredential (clockAt 1)).1 =
      { inUseAt (n + 1) with
        capabilitiesById := update inUse.capabilitiesById "c" (some (usedEntry 2))
        useGuardToCapabilityId :=
          update inUse.useGuardToCapabilityId (guardName n) (some "c") } := rfl

lemma dropUse_used {k : LifecycleKernel} (h : k.capabilitiesById "c" = some (usedEntry 2)) :
    k.dropUse "c" = k.setEntry "c" (usedEntry 1) := by
  rw [dropUse, h]
  rfl

lemma release_inUseAt (n : UInt64) :
    (((inUseAt n).admitRedemption payloadCredential (clockAt 1)).1.releaseUseGuard
        ⟨guardName n, "c"⟩).1 =
      { inUseAt (n + 1) with
        useGuardToCapabilityId := update inUse.useGuardToCapabilityId (guardName n) none } := by
  have hentry : update inUse.capabilitiesById "c" (some (usedEntry 1)) = inUse.capabilitiesById :=
    update_eq_self "c" _
  rw [admit_inUseAt n, LifecycleKernel.releaseUseGuard]
  simp only [update_self]
  rw [dropUse_used (by simp)]
  simp only [LifecycleKernel.setEntry, update_idem, hentry]
  rfl

/-- A use that is admitted and released while another one is held: only the counter has moved. -/
lemma cycle_inUseAt {n : UInt64} (hn : n ≠ 1) (ht : t.kernel = inUseAt n)
    (hheld : t.held = [⟨guardName 1, "c"⟩]) :
    ∃ t', Reaches Traced.step (fun _ _ => True) t t' ∧ t'.kernel = inUseAt (n + 1) ∧
      t'.held = [⟨guardName 1, "c"⟩] := by
  have hne : guardName 1 ≠ guardName n := fun h => hn (guardName_injective h).symm
  have hfree : update inUse.useGuardToCapabilityId (guardName n) none =
      inUse.useGuardToCapabilityId := by
    have hnone : inUse.useGuardToCapabilityId (guardName n) = none :=
      update_of_ne hne.symm _ _
    rw [← hnone, update_eq_self]
  have hadmit : Traced.step (.admitRedemption payloadCredential (clockAt 1)) t =
      some { t with
        kernel := ((inUseAt n).admitRedemption payloadCredential (clockAt 1)).1
        held := [⟨guardName n, "c"⟩, ⟨guardName 1, "c"⟩]
        admissions := t.admissions + 1 } := by
    simp only [Traced.step, ht, hheld]
    rfl
  refine ⟨_, (Reaches.snoc .refl trivial
    hadmit).snoc (t := .releaseUseGuard ⟨guardName n, "c"⟩) trivial rfl, ?_, ?_⟩
  · change (((inUseAt n).admitRedemption payloadCredential (clockAt 1)).1.releaseUseGuard
      ⟨guardName n, "c"⟩).1 = _
    rw [release_inUseAt, hfree]
    rfl
  · simp [hne]

lemma reaches_inUseAt (m : ℕ) (hm : m < 2 ^ 64) :
    ∃ t, Reaches Traced.step (fun _ _ => True) (Traced.start "daemon") t ∧
      t.kernel = inUseAt (2 + ofNat m) ∧ t.held = [⟨guardName 1, "c"⟩] := by
  induction m with
  | zero =>
    exact ⟨_, (Reaches.snoc (t := .mintCapability lastingRequest (instant 0) (instant 0)) .refl
      trivial rfl).snoc (t := .admitRedemption payloadCredential (clockAt 1)) trivial rfl, rfl, rfl⟩
  | succ m ih =>
    obtain ⟨t, hreach, hkernel, hheld⟩ := ih (lt_of_succ_lt hm)
    have hn : 2 + ofNat m ≠ 1 := by
      intro h
      have htoNat := congrArg toNat h
      rw [UInt64.toNat_add, toNat_ofNat_of_lt' (lt_of_succ_lt hm)] at htoNat
      change (2 + m) % 2 ^ 64 = 1 at htoNat
      omega
    obtain ⟨t', hcycle, hkernel', hheld'⟩ := cycle_inUseAt hn hkernel hheld
    refine ⟨t', hreach.trans hcycle, ?_, hheld'⟩
    rw [hkernel', ofNat_add, add_assoc]
    rfl

/-- After `2 ^ 64` admissions the first guard id comes again.  If it is still held, two uses share it;
once both have released it the kernel has no guard left, but still counts a use. -/
theorem reused_guard_leaks_use :
    ∃ t entry, Reaches Traced.step (fun _ _ => True) (Traced.start "daemon") t ∧
      t.held = [] ∧ (∀ id, t.kernel.useGuardToCapabilityId id = none) ∧
      t.kernel.capabilitiesById "c" = some entry ∧ entry.activeUseCount = 1 := by
  obtain ⟨t, hreach, hkernel, hheld⟩ := reaches_inUseAt (2 ^ 64 - 1) (by decide)
  have hadmit : Traced.step (.admitRedemption payloadCredential (clockAt 1)) t =
      some { t with
        kernel := ((inUseAt 1).admitRedemption payloadCredential (clockAt 1)).1
        held := [⟨guardName 1, "c"⟩, ⟨guardName 1, "c"⟩]
        admissions := t.admissions + 1 } := by
    simp only [Traced.step, hkernel, hheld]
    rfl
  refine ⟨_, usedEntry 1, ((hreach.snoc
    trivial hadmit).snoc (t := .releaseUseGuard ⟨guardName 1, "c"⟩) trivial rfl).snoc
      (t := .releaseUseGuard ⟨guardName 1, "c"⟩) trivial rfl, by simp, ?_, ?_, rfl⟩
  · intro id
    change ((((inUseAt 1).admitRedemption payloadCredential (clockAt 1)).1.releaseUseGuard
      ⟨guardName 1, "c"⟩).1.releaseUseGuard ⟨guardName 1, "c"⟩).1.useGuardToCapabilityId id = none
    rw [release_inUseAt, LifecycleKernel.releaseUseGuard]
    simp only [update_self]
    rcases eq_or_ne id (guardName 1) with rfl | hne
    · exact update_self _ _ _
    · rw [update_of_ne hne]
      exact update_of_ne hne _ _
  · rfl

/-- A capability that is released while it is in use stays until its guard is released. -/
theorem guards_keep_draining_capability :
    ∃ entry, (inUse.releaseCapability "c").1.capabilitiesById "c" = some entry := by
  have hmint : Reaches Traced.step (fun _ _ => True) (Traced.start "daemon") _ :=
    Reaches.snoc (t := .mintCapability lastingRequest (instant 0) (instant 0)) .refl trivial rfl
  have hrun := (hmint.snoc (t := .admitRedemption payloadCredential (clockAt 1)) trivial rfl).snoc
    (t := .releaseCapability "c") trivial rfl
  exact (guards_keep_capabilities hrun (by decide)).2.2 ⟨"lkg-1", "c"⟩ (by decide)

end Traced

end TensorCast.Lifecycle
