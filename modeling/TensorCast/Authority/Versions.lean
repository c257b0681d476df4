import TensorCast.Authority.Atomicity
import TensorCast.Lib.Transition

/-!
# The version of a ledger

Every successful operation raises the version if it changes what can be observed.  A failed call never
raises it, and a refused lease even writes the old version back; so the version is a witness of change
exactly as far as failed calls restore the records.
-/

namespace TensorCast.Authority

open Core Lib ChunkRecord List
open Function (update)

def ChunkRecord.observed (record : ChunkRecord) :
    ChunkState × (DeviceKey → Option ChunkState) × Bool × (DeviceKey → Bool) :=
  (record.cpu, record.gpu, record.exportedCpu, record.exportedGpu)

namespace UnifiedMemoryAuthority

variable {uma uma' : UnifiedMemoryAuthority} {context : Context} {operation : Operation}
  {key : ReplicaKey} {alloc alloc' : ReplicaAllocation} {ok : Bool}

def observation (alloc : ReplicaAllocation) :
    List (ChunkState × (DeviceKey → Option ChunkState) × Bool × (DeviceKey → Bool)) :=
  alloc.chunkRecords.map observed

/-! ## Changes that cannot be observed -/

variable {records : List ChunkRecord}

lemma observation_of_sameFacts (h : SameFacts alloc.chunkRecords records) :
    records.map observed = observation alloc := by
  have hobserved : ∀ l : List ChunkRecord,
      l.map observed = (l.map facts).map observed := by
    intro l
    rw [map_map]
    rfl
  rw [observation, hobserved, h, ← hobserved]

lemma map_evictGpu_of_none {devKey : DeviceKey}
    (h : (records.any fun record => (record.gpu devKey).isSome) = false) :
    records.map (·.evictGpu devKey) = records := by
  refine map_congr_left (fun record hmem => ?_) |>.trans (map_id _)
  have hnone : (record.gpu devKey).isSome = false := by
    rw [any_eq_false] at h
    exact Bool.not_eq_true _ ▸ h record hmem
  rw [evictGpu, hnone]
  rfl

/-! ## One step -/

/-- A failed call from a state that it restores. -/
lemma LedgerChange.sameFacts (h : LedgerChange uma context operation key alloc false alloc')
    (hchanged : (operation.apply context uma).uma.allocations = uma.allocations.insert key alloc')
    (hfailed : (operation.apply context uma).status.isOk = false)
    (halloc : uma.allocation? key = some alloc) (hrestored : RecordsRestored uma context operation) :
    SameFacts alloc.chunkRecords alloc'.chunkRecords := by
  have hkeeps : FailureAtomic uma (operation.apply context uma) →
      SameFacts alloc.chunkRecords alloc'.chunkRecords :=
    fun hatomic => (keepsFacts_insert_iff halloc hchanged).mp (hatomic hfailed).1
  cases h with
  | commitCut => exact hkeeps ((failureAtomic_commit_iff ..).mpr hrestored)
  | unleaseCut => exact hkeeps ((failureAtomic_releaseStableLease_iff ..).mpr hrestored)
  | exportCut => exact hkeeps ((failureAtomic_setExported_iff ..).mpr hrestored)
  | @leaseCut _ _ _ done idx rest hchunks hdone hidx =>
    rw [RecordsRestored, forall_live_iff halloc, hchunks] at hrestored
    rcases hrestored with hhead | ⟨hlt, -⟩
    · obtain rfl := done_eq_nil_of_head hdone hhead
      exact sameFacts_refl _
    · exact absurd (hlt idx (by simp)) (not_lt.mpr hidx)
  | @leaseRefused _ _ chunks budget status _ hchunks hlt hbudget hover =>
    rw [RecordsRestored, forall_live_iff halloc, ← hchunks] at hrestored
    rcases hrestored with ⟨c, hhead, hc⟩ | ⟨-, hsettled⟩
    · exact absurd (hlt c (mem_of_mem_head? hhead)) (not_lt.mpr hc)
    · refine (sameFacts_rollbackLease_iff fun i record hi hpos => ?_).mpr
        (hsettled budget status hbudget hover)
      have := hsettled budget status hbudget hover i record hi hpos
      omega

/-- The next version, or the same one with nothing to be observed. -/
def Witnessed (alloc alloc' : ReplicaAllocation) : Prop :=
  alloc'.ledgerVersion = alloc.ledgerVersion + 1 ∨
    alloc'.ledgerVersion = alloc.ledgerVersion ∧ observation alloc' = observation alloc

lemma witnessed_withRecords {records pinned : List ChunkRecord} {mutated : Bool}
    (hmutated : mutated = false → records = alloc.chunkRecords)
    (hpinned : pinned.map observed = records.map observed) :
    Witnessed alloc (withRecords alloc pinned mutated) := by
  cases mutated with
  | true => exact .inl rfl
  | false =>
    refine .inr ⟨rfl, hpinned.trans ?_⟩
    rw [hmutated rfl]
    rfl

/-- A change is witnessed, unless a failed call has left something behind. -/
lemma LedgerChange.witnessed (h : LedgerChange uma context operation key alloc ok alloc')
    (hfailed : ok = false → SameFacts alloc.chunkRecords alloc'.chunkRecords) :
    Witnessed alloc alloc' := by
  -- pins are not observed
  have hpin : ∀ (chunks : List UInt32) (records : List ChunkRecord),
      (modifyChunks pin chunks records).map observed = records.map observed :=
    fun chunks records => map_modifyChunks fun _ => rfl
  cases h with
  | counters => exact .inr ⟨rfl, rfl⟩
  | @gpuReleased _ _ _ _ devKey =>
    cases hany : alloc.chunkRecords.any fun record => (record.gpu devKey).isSome with
    | true => exact .inl rfl
    | false =>
      refine .inr ⟨rfl, ?_⟩
      exact congrArg (map observed) (map_evictGpu_of_none hany)
  | committed | leased | unleased | marked => exact .inl rfl
  | commitCut | leaseCut | leaseRefused | unleaseCut | exportCut =>
    exact .inr ⟨rfl, observation_of_sameFacts (hfailed rfl)⟩
  | exportedGpu _ hrecords hmutated => exact witnessed_withRecords hmutated rfl
  | exportedCpu _ pins hrecords hmutated => exact witnessed_withRecords hmutated (hpin _ _)
  | granted => exact .inr ⟨rfl, hpin _ _⟩
  | unpinned =>
    refine .inr ⟨rfl, map_modifyChunks fun record => ?_⟩
    unfold unpin
    split_ifs
    · rfl
    · rfl

/-- The allocation is not released, its version does not wrap, and failed calls are made from states
that they restore. -/
def LifetimeStep (key : ReplicaKey) (uma : UnifiedMemoryAuthority) (event : Event) : Prop :=
  event.operation ≠ .release key ∧
    (∀ alloc, uma.allocation? key = some alloc → alloc.ledgerVersion.toNat + 1 < 2 ^ 64) ∧
    RecordsRestored uma event.context event.operation

lemma witnessed_step {event : Event} (halloc : uma.allocation? key = some alloc)
    (hstep : LifetimeStep key uma event) :
    ∃ alloc', (event.operation.apply event.context uma).uma.allocation? key = some alloc' ∧
      Witnessed alloc alloc' := by
  obtain ⟨operation, context⟩ := event
  obtain ⟨hrelease, -, hrestored⟩ := hstep
  have hsame : Witnessed alloc alloc := .inr ⟨rfl, rfl⟩
  have heffect := effect uma context operation
  unfold allocation?
  cases heffect with
  | kept hallocations =>
    rw [hallocations]
    exact ⟨alloc, halloc, hsame⟩
  | @allocated other _ _ _ hnone _ hallocations =>
    rw [hallocations]
    have hne : key ≠ other := by
      rintro rfl
      rw [halloc] at hnone
      cases hnone
    exact ⟨alloc, (AList.lookup_insert_ne hne).trans halloc, hsame⟩
  | @released other _ hop _ hallocations =>
    rw [hallocations]
    have hne : key ≠ other := by
      rintro rfl
      exact hrelease hop
    exact ⟨alloc, (AList.lookup_erase_ne hne).trans halloc, hsame⟩
  | @changed other alloc₁ alloc₂ halloc₁ hchange hallocations =>
    rw [hallocations]
    by_cases hkey : key = other
    · subst hkey
      cases halloc.symm.trans halloc₁
      refine ⟨alloc₂, AList.lookup_insert _, hchange.witnessed fun hfailed => ?_⟩
      exact (hfailed ▸ hchange).sameFacts hallocations hfailed halloc hrestored
    · exact ⟨alloc, (AList.lookup_insert_ne hkey).trans halloc, hsame⟩

/-- **The ledger version is a change witness.**  In a run in which the replica is not released, its
version does not wrap and failed calls restore their states, the version does not fall, and if it is
the same at the end, so is everything that is observed of the chunks. -/
theorem ledgerVersion_witnesses_changes (start : UnifiedMemoryAuthority) (key : ReplicaKey)
    (halloc : start.allocation? key = some alloc) (h : Reaches step (LifetimeStep key) start uma) :
    ∃ alloc', uma.allocation? key = some alloc' ∧ alloc.ledgerVersion ≤ alloc'.ledgerVersion ∧
      (alloc'.ledgerVersion = alloc.ledgerVersion → observation alloc' = observation alloc) := by
  refine h.invariant (P := fun uma => ∃ alloc', uma.allocation? key = some alloc' ∧
    alloc.ledgerVersion ≤ alloc'.ledgerVersion ∧
    (alloc'.ledgerVersion = alloc.ledgerVersion → observation alloc' = observation alloc)) ?_ ?_
  · exact ⟨alloc, halloc, UInt64.le_refl _, fun _ => rfl⟩
  · rintro uma event uma' - hstep happly ⟨alloc₁, halloc₁, hle, hsame⟩
    cases happly
    obtain ⟨alloc₂, halloc₂, hwitnessed⟩ := witnessed_step halloc₁ hstep
    refine ⟨alloc₂, halloc₂, ?_⟩
    rcases hwitnessed with hnext | ⟨hversion, hobserved⟩
    · -- the version is now above the one at the start for good
      have hfit := hstep.2.1 alloc₁ halloc₁
      have hsucc : alloc₂.ledgerVersion.toNat = alloc₁.ledgerVersion.toNat + 1 := by
        rw [hnext]
        exact Nat.mod_eq_of_lt hfit
      rw [UInt64.le_iff_toNat_le] at hle ⊢
      refine ⟨by omega, fun heq => ?_⟩
      rw [heq] at hsucc
      omega
    · rw [hversion, hobserved]
      exact ⟨hle, hsame⟩

/-- A replica of one chunk that was just allocated. -/
def allocatedOnce (budget : Option MemoryTierBudget) : UnifiedMemoryAuthority :=
  ((construct 4096 false budget).allocate (.mapsAt 65536) { artifactId := "a" } 4096).1

theorem ledgerVersion_witnesses_lease :
    ∃ alloc alloc',
      (allocatedOnce none).allocation? { artifactId := "a" } = some alloc ∧
      ((allocatedOnce none).acquireStableLease (.mapsAt 0) { artifactId := "a" } []).1.allocation?
        { artifactId := "a" } = some alloc' ∧
      alloc.ledgerVersion ≤ alloc'.ledgerVersion ∧
      (alloc'.ledgerVersion = alloc.ledgerVersion → observation alloc' = observation alloc) := by
  have hstep : LifetimeStep { artifactId := "a" } (allocatedOnce none)
      ⟨.acquireStableLease { artifactId := "a" } [], .mapsAt 0⟩ := by
    refine ⟨nofun, fun alloc halloc => ?_, fun alloc halloc => ?_⟩
    · cases halloc
      decide
    · cases halloc
      exact .inr ⟨forall_mem_singleton.mpr (by decide), fun budget status hbudget => by
        cases hbudget⟩
  obtain ⟨alloc, halloc⟩ : ∃ alloc, (allocatedOnce none).allocation? { artifactId := "a" } =
    some alloc := ⟨_, rfl⟩
  obtain ⟨alloc', halloc', hversion⟩ := ledgerVersion_witnesses_changes (allocatedOnce none)
    { artifactId := "a" } halloc (.snoc .refl hstep rfl)
  exact ⟨alloc, alloc', halloc, halloc', hversion⟩

/-- A refused lease turns a cold chunk hot in the same version. -/
theorem refused_lease_keeps_version :
    ∃ (alloc alloc' : ReplicaAllocation) (status : Status),
      Reaches step (fun _ _ => True) (construct 4096 false (some { stableTotalBytes := 1 }))
        (allocatedOnce (some { stableTotalBytes := 1 })) ∧
      (allocatedOnce (some { stableTotalBytes := 1 })).allocation? { artifactId := "a" } =
        some alloc ∧
      ((allocatedOnce (some { stableTotalBytes := 1 })).acquireStableLease (.mapsAt 0)
        { artifactId := "a" } []).2 = .error status ∧
      ((allocatedOnce (some { stableTotalBytes := 1 })).acquireStableLease (.mapsAt 0)
        { artifactId := "a" } []).1.allocation? { artifactId := "a" } = some alloc' ∧
      alloc'.ledgerVersion = alloc.ledgerVersion ∧
      alloc.chunkRecords.map (·.cpu) = [.cold] ∧ alloc'.chunkRecords.map (·.cpu) = [.hot] := by
  refine ⟨_, _, _, ?_, rfl, rfl, rfl, by decide, by decide, by decide⟩
  exact .snoc (t := ⟨.allocate { artifactId := "a" } 4096, .mapsAt 65536⟩) .refl trivial rfl

end UnifiedMemoryAuthority

end TensorCast.Authority
