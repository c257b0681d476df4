import TensorCast.Authority.Changes

/-!
# The facts of the ledger

What the records say of the chunks, apart from the number of their last change, and which changes
leave it as it was.  Leases that are taken and taken back restore a chunk that was hot or leased,
and turn any other one hot.
-/

namespace TensorCast.Authority

open Core Lib List Option Function UInt32
open Function (update)

/-! ## The facts of a record -/

namespace ChunkRecord

variable {record record' : ChunkRecord}

/-- What a record says of its chunk, without the number of the last change. -/
def facts (record : ChunkRecord) : ChunkRecord := { record with version := 0 }

lemma facts_eq_iff : record'.facts = record.facts ↔
    record'.cpu = record.cpu ∧ record'.gpu = record.gpu ∧
      record'.exportedCpu = record.exportedCpu ∧ record'.exportedGpu = record.exportedGpu ∧
      record'.pinRefcnt = record.pinRefcnt ∧ record'.stableLeaseCount = record.stableLeaseCount := by
  simp [facts]

/-- The facts that leases do not touch. -/
def SameBeside (record record' : ChunkRecord) : Prop :=
  record'.gpu = record.gpu ∧ record'.exportedCpu = record.exportedCpu ∧
    record'.exportedGpu = record.exportedGpu ∧ record'.pinRefcnt = record.pinRefcnt

lemma facts_eq_iff_of_sameBeside (h : SameBeside record record') :
    record'.facts = record.facts ↔
      record'.cpu = record.cpu ∧ record'.stableLeaseCount = record.stableLeaseCount := by
  obtain ⟨hgpu, hcpu, hexported, hpins⟩ := h
  rw [facts_eq_iff]
  constructor
  · rintro ⟨hstate, -, -, -, -, hcount⟩
    exact ⟨hstate, hcount⟩
  · rintro ⟨hstate, hcount⟩
    exact ⟨hstate, hgpu, hcpu, hexported, hpins, hcount⟩

lemma SameBeside.iterate {f : ChunkRecord → ChunkRecord} (hf : ∀ record, SameBeside record (f record))
    (record : ChunkRecord) (k : ℕ) : SameBeside record (f^[k] record) := by
  induction k with
  | zero => exact ⟨rfl, rfl, rfl, rfl⟩
  | succ k ih =>
    rw [iterate_succ_apply']
    obtain ⟨h₁, h₂, h₃, h₄⟩ := ih
    obtain ⟨h₁', h₂', h₃', h₄'⟩ := hf (f^[k] record)
    exact ⟨h₁'.trans h₁, h₂'.trans h₂, h₃'.trans h₃, h₄'.trans h₄⟩

lemma sameBeside_lease (record : ChunkRecord) : SameBeside record record.lease := ⟨rfl, rfl, rfl, rfl⟩

lemma sameBeside_unlease (record : ChunkRecord) : SameBeside record record.unlease :=
  ⟨rfl, rfl, rfl, rfl⟩

lemma sameBeside_rollbackLease (record : ChunkRecord) : SameBeside record record.rollbackLease := by
  unfold rollbackLease
  split_ifs
  · exact record.sameBeside_unlease
  · exact ⟨rfl, rfl, rfl, rfl⟩

/-! ## Leases taken back -/

lemma toNat_iterate_rollbackLease (record : ChunkRecord) (k : ℕ) :
    (rollbackLease^[k] record).stableLeaseCount.toNat = record.stableLeaseCount.toNat - k := by
  induction k with
  | zero => rfl
  | succ k ih =>
    rw [iterate_succ_apply', rollbackLease]
    split_ifs with hpos
    · rw [UnifiedMemoryAuthority.toNat_unlease hpos, ih, Nat.sub_sub]
    · have hzero : ¬ 0 < (rollbackLease^[k] record).stableLeaseCount.toNat :=
        fun h => hpos (lt_iff_toNat_lt.mpr h)
      omega

/-- The last lease that is taken back leaves the chunk hot. -/
lemma cpu_iterate_rollbackLease (h : record.cpu = .stable) (k : ℕ) :
    (rollbackLease^[k] record).cpu =
      if 0 < record.stableLeaseCount.toNat ∧ record.stableLeaseCount.toNat ≤ k then .hot
      else .stable := by
  induction k with
  | zero =>
    rw [if_neg (by omega)]
    exact h
  | succ k ih =>
    have hcount := record.toNat_iterate_rollbackLease k
    have hnext := record.toNat_iterate_rollbackLease (k + 1)
    rw [iterate_succ_apply'] at hnext ⊢
    by_cases hpos : 0 < (rollbackLease^[k] record).stableLeaseCount
    · have hlt : k < record.stableLeaseCount.toNat := by
        have := lt_iff_toNat_lt.mp hpos
        omega
      rw [rollbackLease, if_pos hpos] at hnext ⊢
      have hstable : (rollbackLease^[k] record).cpu = .stable := by
        rw [ih, if_neg (by omega)]
      have hlast : (rollbackLease^[k] record).stableLeaseCount - 1 = 0 ↔
          record.stableLeaseCount.toNat ≤ k + 1 := by
        rw [← UInt32.toNat_inj]
        change (unlease (rollbackLease^[k] record)).stableLeaseCount.toNat = 0 ↔ _
        omega
      rw [unlease]
      simp only [hlast, hstable, and_true]
      congr 1
      exact propext ⟨fun hle => ⟨by omega, hle⟩, fun hle => hle.2⟩
    · have hzero : record.stableLeaseCount.toNat ≤ k := by
        have : ¬ 0 < (rollbackLease^[k] record).stableLeaseCount.toNat :=
          fun h => hpos (lt_iff_toNat_lt.mpr h)
        omega
      rw [rollbackLease, if_neg hpos, ih]
      congr 1
      exact propext ⟨fun h => ⟨h.1, by omega⟩, fun h => ⟨h.1, hzero⟩⟩

/-- The chunk looks like one whose leases were taken back: stable while leased, or else hot. -/
def Settled (record : ChunkRecord) : Prop :=
  record.cpu = if record.stableLeaseCount = 0 then .hot else .stable

section

variable (record : ChunkRecord) {k : ℕ} (hpos : 0 < k)

include hpos

/-- Leases that are taken and taken back restore the record of a settled chunk only. -/
lemma facts_rollbackLease_lease_iff (hk : k < 2 ^ 32) :
    (rollbackLease^[k] (lease^[k] record)).facts = record.facts ↔
      record.stableLeaseCount.toNat + k < 2 ^ 32 ∧ record.Settled := by
  obtain ⟨h₁, h₂, h₃, h₄⟩ := SameBeside.iterate sameBeside_lease record k
  obtain ⟨h₁', h₂', h₃', h₄'⟩ := SameBeside.iterate sameBeside_rollbackLease (lease^[k] record) k
  rw [facts_eq_iff_of_sameBeside ⟨h₁'.trans h₁, h₂'.trans h₂, h₃'.trans h₃, h₄'.trans h₄⟩,
    cpu_iterate_rollbackLease (UnifiedMemoryAuthority.cpu_iterate_lease record hpos), ← UInt32.toNat_inj,
    toNat_iterate_rollbackLease, UnifiedMemoryAuthority.toNat_iterate_lease]
  by_cases hfit : record.stableLeaseCount.toNat + k < 2 ^ 32
  · rw [Nat.mod_eq_of_lt hfit]
    have hzero : (0 < record.stableLeaseCount.toNat + k ∧
        record.stableLeaseCount.toNat + k ≤ k) ↔ record.stableLeaseCount = 0 := by
      rw [← UInt32.toNat_inj, UInt32.toNat_zero]
      omega
    simp only [hzero, hfit, true_and]
    constructor
    · rintro ⟨hcpu, -⟩
      exact hcpu.symm
    · intro hcpu
      exact ⟨hcpu.symm, by omega⟩
  · -- the counter has wrapped around, so that the chunk ends up without leases
    constructor
    · omega
    · rintro ⟨hcontra, -⟩
      exact absurd hcontra hfit

lemma facts_lease_ne (hk : k < 2 ^ 32) : (lease^[k] record).facts ≠ record.facts := by
  intro h
  have hcount := congrArg toNat (facts_eq_iff.mp h).2.2.2.2.2
  rw [UnifiedMemoryAuthority.toNat_iterate_lease] at hcount
  omega

lemma facts_unlease_ne (hk : k ≤ record.stableLeaseCount.toNat) :
    (unlease^[k] record).facts ≠ record.facts := by
  intro h
  have hcount := congrArg toNat (facts_eq_iff.mp h).2.2.2.2.2
  rw [UnifiedMemoryAuthority.toNat_iterate_unlease record hk] at hcount
  omega

end

end ChunkRecord

/-! ## Lists of records -/

section Lists

variable {records records' : List ChunkRecord} {f : ChunkRecord → ChunkRecord}
  {chunks : List UInt32}

def SameFacts (records records' : List ChunkRecord) : Prop :=
  records'.map ChunkRecord.facts = records.map ChunkRecord.facts

lemma sameFacts_refl (records : List ChunkRecord) : SameFacts records records := rfl

lemma sameFacts_of_getElem? {g : ℕ → ChunkRecord → ChunkRecord}
    (h : ∀ i, records'[i]? = records[i]?.map (g i)) :
    SameFacts records records' ↔
      ∀ i record, records[i]? = some record → (g i record).facts = record.facts := by
  constructor
  · intro hsame i record hi
    have hget := congrArg (·[i]?) hsame
    simpa [h, hi] using hget
  · intro hg
    refine ext_getElem? fun i => ?_
    rw [getElem?_map, getElem?_map, h]
    cases hi : records[i]? with
    | none => rfl
    | some record => simp [hg i record hi]

lemma sameFacts_modifyChunks_iff :
    SameFacts records (modifyChunks f chunks records) ↔
      ∀ i record, records[i]? = some record → (f^[visits chunks i] record).facts = record.facts :=
  sameFacts_of_getElem? fun i => getElem?_modifyChunks i

lemma visits_le_one (h : chunks.Nodup) (i : ℕ) : visits chunks i ≤ 1 :=
  nodup_iff_count_le_one.mp (h.map fun _ _ => UInt32.toNat_inj.mp) i

lemma visits_sortUnique_le_one (indices : List UInt32) (i : ℕ) :
    visits (sortUnique indices) i ≤ 1 :=
  visits_le_one (nodup_dedup _) i

/-- More than `2 ^ 32` chunks have the same 32-bit index only in a replica of `2 ^ 64`. -/
lemma visits_allChunks_lt {n : ℕ} (hn : n < 2 ^ 63) (i : ℕ) : visits (allChunks n) i < 2 ^ 32 := by
  have hcount : visits (allChunks n) i ≤ n.count (· ≡ i [MOD 2 ^ 32]) := by
    rw [visits, allChunks, List.map_map, count, countP_map]
    refine countP_mono_left fun j _ hj => ?_
    have hij : j % 2 ^ 32 = i := by simpa using hj
    refine decide_eq_true ?_
    change j % 2 ^ 32 = i % 2 ^ 32
    omega
  rw [Nat.count_modEq_card n (by decide)] at hcount
  split_ifs at hcount
  · omega
  · omega

lemma visits_normalizeChunkIndices_lt {n : ℕ} (hn : n < 2 ^ 63) (indices : List UInt32) (i : ℕ) :
    visits (normalizeChunkIndices indices n) i < 2 ^ 32 := by
  unfold normalizeChunkIndices
  split_ifs
  · exact visits_allChunks_lt hn i
  · exact (visits_sortUnique_le_one indices i).trans_lt (by decide)

end Lists

namespace UnifiedMemoryAuthority

variable {uma uma' : UnifiedMemoryAuthority} {context : Context} {key : ReplicaKey}
  {alloc alloc' : ReplicaAllocation}

/-! ## The records of an authority -/

def KeepsFacts (uma uma' : UnifiedMemoryAuthority) : Prop :=
  ∀ key, (uma'.allocation? key).map (fun alloc => alloc.chunkRecords.map ChunkRecord.facts) =
    (uma.allocation? key).map fun alloc => alloc.chunkRecords.map ChunkRecord.facts

lemma keepsFacts_of_allocations (h : uma'.allocations = uma.allocations) : KeepsFacts uma uma' := by
  intro key
  rw [allocation?_congr h]

lemma keepsFacts_insert_iff (halloc : uma.allocation? key = some alloc)
    (h : uma'.allocations = uma.allocations.insert key alloc') :
    KeepsFacts uma uma' ↔ SameFacts alloc.chunkRecords alloc'.chunkRecords := by
  have hself : uma'.allocation? key = some alloc' := by
    rw [allocation?, h, AList.lookup_insert]
  constructor
  · intro hkeeps
    have hkey := hkeeps key
    rw [hself, halloc] at hkey
    exact some_inj.mp hkey
  · intro hsame other
    by_cases hother : other = key
    · subst hother
      rw [hself, halloc, map_some, map_some, hsame]
    · rw [allocation?, h, AList.lookup_insert_ne hother, allocation?]

lemma keepsFacts_modifyChunks_iff {f : ChunkRecord → ChunkRecord} (chunks : List UInt32)
    (halloc : uma.allocation? key = some alloc) :
    KeepsFacts uma (uma.setAllocation key
        { alloc with chunkRecords := modifyChunks f chunks alloc.chunkRecords }) ↔
      ∀ i record, alloc.chunkRecords[i]? = some record →
        (f^[visits chunks i] record).facts = record.facts :=
  (keepsFacts_insert_iff halloc rfl).trans sameFacts_modifyChunks_iff

end UnifiedMemoryAuthority

end TensorCast.Authority
