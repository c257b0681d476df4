import TensorCast.Authority.Atomicity
import TensorCast.Lib.Transition

/-!
# Conservation of the stable bytes

The budget counts the stable bytes in one number, the ledger counts leases chunk by chunk.  The two
agree as long as every list of chunks is leased or given back as a whole and no replica is released
with leases: neither a list that is cut short nor the release of a replica tells the budget.
-/

namespace TensorCast.Authority

open Core Lib ChunkRecord List Option Nat UInt32 Finset
open Function (update)

namespace UnifiedMemoryAuthority

variable {uma uma' : UnifiedMemoryAuthority} {context : Context} {operation : Operation}
  {key : ReplicaKey} {alloc alloc' : ReplicaAllocation} {ok : Bool}

/-! ## The bytes under leases -/

def chunkLength (chunkSizeBytes totalBytes : UInt64) (i : ℕ) : ℕ :=
  min chunkSizeBytes.toNat (totalBytes.toNat - i * chunkSizeBytes.toNat)

def leaseCount (records : List ChunkRecord) (i : ℕ) : ℕ :=
  records[i]?.elim 0 (·.stableLeaseCount.toNat)

def leasedBytes (chunkSizeBytes : UInt64) (alloc : ReplicaAllocation) : ℕ :=
  ∑ i ∈ Finset.range alloc.numChunks,
    leaseCount alloc.chunkRecords i * chunkLength chunkSizeBytes alloc.totalBytes i

/-- The bytes under leases of all live replicas. -/
def stableBytes (uma : UnifiedMemoryAuthority) : ℕ :=
  total (fun entry => leasedBytes uma.chunkSizeBytes entry.2) uma.allocations

/-- The chunks of a replica, at full length, do not overflow 64 bits. -/
def Bounded (chunkSizeBytes : UInt64) (alloc : ReplicaAllocation) : Prop :=
  alloc.numChunks * chunkSizeBytes.toNat < 2 ^ 64

variable {chunkSizeBytes : UInt64}

lemma toNat_chunkBytesForIndex {idx : UInt32}
    (h : Bounded chunkSizeBytes alloc) (hidx : idx.toNat < alloc.numChunks) :
    (chunkBytesForIndex alloc chunkSizeBytes idx).toNat =
      chunkLength chunkSizeBytes alloc.totalBytes idx.toNat := by
  have hoffset : (idx.toUInt64 * chunkSizeBytes).toNat = idx.toNat * chunkSizeBytes.toNat := by
    exact mod_eq_of_lt ((mul_le_mul_right _ hidx.le).trans_lt h)
  unfold chunkBytesForIndex chunkLength
  by_cases hzero : chunkSizeBytes = 0
  · simp [hzero]
  · rw [if_neg hzero]
    by_cases hend : alloc.totalBytes ≤ idx.toUInt64 * chunkSizeBytes
    · rw [if_pos hend]
      rw [UInt64.le_iff_toNat_le, hoffset] at hend
      rw [Nat.sub_eq_zero_of_le hend, Nat.min_zero]
      rfl
    · rw [if_neg hend]
      have hle : idx.toUInt64 * chunkSizeBytes ≤ alloc.totalBytes :=
        (UInt64.le_total _ _).resolve_left hend
      have hsub : (alloc.totalBytes - idx.toUInt64 * chunkSizeBytes).toNat =
          alloc.totalBytes.toNat - idx.toNat * chunkSizeBytes.toNat := by
        rw [UInt64.toNat_sub_of_le _ _ hle, hoffset]
      change (if _ ≤ _ then _ else _ : UInt64).toNat = _
      split_ifs with hmin
      · rw [UInt64.le_iff_toNat_le, hsub] at hmin
        rw [min_eq_left hmin]
      · rw [UInt64.le_iff_toNat_le] at hmin
        rw [hsub, Nat.min_eq_right (by omega)]

lemma chunkLength_le (chunkSizeBytes totalBytes : UInt64) (i : ℕ) :
    chunkLength chunkSizeBytes totalBytes i ≤ chunkSizeBytes.toNat := min_le_left _ _

variable {chunks : List UInt32}

/-- The bytes of a list of chunks that exist; the list is no longer than the replica. -/
lemma toNat_leaseBytes (h : Bounded uma.chunkSizeBytes alloc)
    (hlt : ∀ c ∈ chunks, c.toNat < alloc.numChunks) (hlength : chunks.length ≤ alloc.numChunks) :
    (uma.leaseBytes alloc chunks).toNat =
      ∑ i ∈ Finset.range alloc.numChunks,
        visits chunks i * chunkLength uma.chunkSizeBytes alloc.totalBytes i := by
  have hsum : ∀ l : List UInt32, (∀ c ∈ l, c.toNat < alloc.numChunks) →
      l.length * uma.chunkSizeBytes.toNat < 2 ^ 64 →
      (uma.leaseBytes alloc l).toNat =
        ((l.map toNat).map (chunkLength uma.chunkSizeBytes alloc.totalBytes)).sum ∧
      (uma.leaseBytes alloc l).toNat ≤ l.length * uma.chunkSizeBytes.toNat := by
    intro l
    induction l with
    | nil =>
      intro _ _
      exact ⟨rfl, zero_le _⟩
    | cons c l ih =>
      intro hl hfit
      rw [length_cons, succ_mul] at hfit ⊢
      obtain ⟨hrest, hle⟩ := ih (fun b hb => hl b (mem_cons_of_mem c hb)) (by omega)
      have hc := toNat_chunkBytesForIndex h (hl c mem_cons_self)
      have hcle := chunkLength_le uma.chunkSizeBytes alloc.totalBytes c.toNat
      have hcons : (uma.leaseBytes alloc (c :: l)).toNat =
          chunkLength uma.chunkSizeBytes alloc.totalBytes c.toNat +
            (uma.leaseBytes alloc l).toNat := by
        rw [leaseBytes, List.map_cons, List.sum_cons, UInt64.toNat_add, hc]
        exact mod_eq_of_lt (by rw [leaseBytes] at hle; omega)
      rw [hcons]
      exact ⟨by rw [hrest]; rfl, by omega⟩
  rw [(hsum chunks hlt ((mul_le_mul_right _ hlength).trans_lt h)).1]
  refine (sum_count_mul (fun i hi => ?_) _).symm
  obtain ⟨c, hc, rfl⟩ := mem_map.mp hi
  exact hlt c hc

variable {indices : List UInt32}

lemma length_normalizeChunkIndices_le {n : ℕ}
    (hlt : ∀ c ∈ normalizeChunkIndices indices n, c.toNat < n) :
    (normalizeChunkIndices indices n).length ≤ n := by
  unfold normalizeChunkIndices at hlt ⊢
  split_ifs at hlt ⊢
  · rw [allChunks, length_map, length_range]
  · have hnodup : ((sortUnique indices).map toNat).Nodup :=
      (nodup_dedup _).map fun _ _ => UInt32.toNat_inj.mp
    have hsub : (sortUnique indices).map toNat ⊆ range n := by
      intro i hi
      obtain ⟨c, hc, rfl⟩ := mem_map.mp hi
      exact List.mem_range.mpr (hlt c hc)
    simpa using (hnodup.subperm hsub).length_le

/-! ## How changes move leases -/

variable {records : List ChunkRecord} {i : ℕ}

lemma leaseCount_modifyChunks {f : ChunkRecord → ChunkRecord} :
    leaseCount (modifyChunks f chunks records) i =
      records[i]?.elim 0 fun record => (f^[visits chunks i] record).stableLeaseCount.toNat := by
  rw [leaseCount, getElem?_modifyChunks, elim_map]
  rfl

lemma leaseCount_modifyChunks_of_kept (f : ChunkRecord → ChunkRecord) (chunks : List UInt32)
    (records : List ChunkRecord)
    (hf : ∀ record, (f record).stableLeaseCount = record.stableLeaseCount) (i : ℕ) :
    leaseCount (modifyChunks f chunks records) i = leaseCount records i := by
  have hkept : (modifyChunks f chunks records).map (·.stableLeaseCount) = _ := map_modifyChunks hf
  simpa [leaseCount, Function.comp_def] using
    congrArg (·[i]?.elim 0 UInt32.toNat) hkept

lemma leaseCount_lease (hfit : LeasesFit chunks records) (hi : i < records.length) :
    leaseCount (modifyChunks lease chunks records) i = leaseCount records i + visits chunks i := by
  have hget := getElem?_eq_getElem hi
  rw [leaseCount_modifyChunks, leaseCount, hget, elim_some, elim_some,
    toNat_iterate_lease, mod_eq_of_lt (hfit i _ hget)]

lemma leaseCount_rollbackLease (hfit : LeasesFit chunks records) :
    leaseCount (modifyChunks rollbackLease chunks
      (modifyChunks lease chunks records)) i = leaseCount records i := by
  rw [leaseCount_modifyChunks, leaseCount, getElem?_modifyChunks]
  cases hi : records[i]? with
  | none => rfl
  | some record =>
    simp only [map_some, elim_some]
    rw [toNat_iterate_rollbackLease, toNat_iterate_lease, mod_eq_of_lt (hfit i record hi)]
    omega

lemma leaseCount_unlease (hheld : Accepts releaseLease unlease chunks records)
    (hi : i < records.length) :
    leaseCount (modifyChunks unlease chunks records) i + visits chunks i =
      leaseCount records i := by
  have hget := getElem?_eq_getElem hi
  have hle := accepts_releaseLease_iff.mp hheld i _ hget
  rw [leaseCount_modifyChunks, leaseCount, hget, elim_some, elim_some, toNat_iterate_unlease _ hle]
  omega

/-- The operations that take and give back leases. -/
def movesLeases : Operation → Bool
  | .acquireStableLease .. | .releaseStableLease .. => true
  | _ => false

lemma stableLeaseCount_exportTo {flag : ChunkRecord → Bool} {put : ChunkRecord → ChunkRecord}
    {on : Bool} (hput : ∀ record, (put record).stableLeaseCount = record.stableLeaseCount)
    (record : ChunkRecord) :
    (exportTo flag put on record).stableLeaseCount = record.stableLeaseCount := by
  unfold exportTo
  split_ifs
  · rfl
  · exact hput record

lemma LedgerChange.leaseCount_eq (h : LedgerChange uma context operation key alloc ok alloc')
    (hop : movesLeases operation = false) (i : ℕ) :
    leaseCount alloc'.chunkRecords i = leaseCount alloc.chunkRecords i := by
  have hcommit : ∀ {target : MemoryLocation} {deviceId : Option Int32}
      {f : ChunkRecord → ChunkRecord}, commitChange context target deviceId = some f →
      ∀ record, (f record).stableLeaseCount = record.stableLeaseCount := by
    intro target deviceId f hf record
    cases target with
    | gpu =>
      obtain ⟨-, -, rfl⟩ := map_eq_some_iff.mp hf
      rfl
    | cpu =>
      cases hf
      rfl
    | _ => cases hf
  cases h with
  | counters => rfl
  | gpuReleased =>
    rw [leaseCount, getElem?_map, elim_map]
    congr 1
    funext record
    simp only [Function.comp_apply, evictGpu]
    split_ifs
    · rfl
    · rfl
  | committed _ _ _ hf | commitCut _ _ _ hf =>
    exact leaseCount_modifyChunks_of_kept _ _ _ (hcommit hf) i
  | exportedGpu _ hrecords =>
    subst hrecords
    refine leaseCount_modifyChunks_of_kept _ _ _ (stableLeaseCount_exportTo ?_) i
    exact fun record => rfl
  | exportedCpu _ _ hrecords | exportCut _ hrecords =>
    subst hrecords
    refine (leaseCount_modifyChunks_of_kept pin _ _ (fun _ => rfl) i).trans ?_
    refine leaseCount_modifyChunks_of_kept _ _ _ (stableLeaseCount_exportTo ?_) i
    exact fun record => rfl
  | granted => exact leaseCount_modifyChunks_of_kept pin _ _ (fun _ => rfl) i
  | unpinned =>
    refine leaseCount_modifyChunks_of_kept _ _ _ (fun record => ?_) i
    unfold unpin
    split_ifs
    · rfl
    · rfl
  | marked =>
    exact leaseCount_modifyChunks_of_kept markPreemptible _ _ (fun _ => rfl) i
  | _ => cases hop

/-! ## The balance -/

lemma leasedBytes_congr (htotal : alloc'.totalBytes = alloc.totalBytes)
    (hnum : alloc'.numChunks = alloc.numChunks)
    (hcount : ∀ i, leaseCount alloc'.chunkRecords i = leaseCount alloc.chunkRecords i) :
    leasedBytes chunkSizeBytes alloc' = leasedBytes chunkSizeBytes alloc := by
  rw [leasedBytes, hnum, htotal]
  exact sum_congr rfl fun i _ => by rw [hcount]

lemma leasedBytes_of_unleased (h : ∀ record ∈ alloc.chunkRecords, record.stableLeaseCount = 0) :
    leasedBytes chunkSizeBytes alloc = 0 := by
  refine Finset.sum_eq_zero fun i _ => ?_
  have hzero : leaseCount alloc.chunkRecords i = 0 := by
    unfold leaseCount
    cases hi : alloc.chunkRecords[i]? with
    | none => rfl
    | some record => rw [elim_some, h record (mem_of_getElem? hi), UInt32.toNat_zero]
  rw [hzero, Nat.zero_mul]

/-- What holds in every state of a run. -/
structure Balanced (uma : UnifiedMemoryAuthority) : Prop where
  bounded : ∀ key alloc, uma.allocation? key = some alloc → Bounded uma.chunkSizeBytes alloc
  balance : ∃ totalBytes usedBytes, uma.account = some (totalBytes, usedBytes) ∧
    usedBytes.toNat = uma.stableBytes ∧ usedBytes ≤ totalBytes

lemma bounded_newAllocation (chunkSizeBytes bytes : UInt64) (region : CpuRegion) :
    Bounded chunkSizeBytes (newAllocation chunkSizeBytes bytes region) :=
  (numChunks_mul_le chunkSizeBytes bytes region).trans_lt (bytes + chunkSizeBytes - 1).toNat_lt

lemma bounded_apply (h : ∀ key alloc, uma.allocation? key = some alloc →
      Bounded uma.chunkSizeBytes alloc) :
    ∀ key alloc, (operation.apply context uma).uma.allocation? key = some alloc →
      Bounded (operation.apply context uma).uma.chunkSizeBytes alloc := by
  rw [(rest uma context operation).chunkSizeBytes]
  refine (effect uma context operation).forall_allocation h ?_ ?_
  · intro key bytes region _ _
    exact bounded_newAllocation _ _ _
  · intro key alloc alloc' _ hchange hbounded
    rw [Bounded, hchange.shape.2.2]
    exact hbounded

/-- A list of chunks is leased or given back as a whole or not at all, no lease counter wraps, and a
replica is released without leases. -/
def LeasesWhole (uma : UnifiedMemoryAuthority) (event : Event) : Prop :=
  match event.operation with
  | .acquireStableLease key indices =>
    ∀ alloc, uma.allocation? key = some alloc →
      (∃ c ∈ (normalizeChunkIndices indices alloc.numChunks).head?, alloc.numChunks ≤ c.toNat) ∨
        (∀ c ∈ normalizeChunkIndices indices alloc.numChunks, c.toNat < alloc.numChunks) ∧
          LeasesFit (normalizeChunkIndices indices alloc.numChunks) alloc.chunkRecords
  | .releaseStableLease key indices =>
    ∀ alloc, uma.allocation? key = some alloc →
      ReleaseRestores (normalizeChunkIndices indices alloc.numChunks) alloc
  | .release key =>
    ∀ alloc, uma.allocation? key = some alloc →
      ∀ record ∈ alloc.chunkRecords, record.stableLeaseCount = 0
  | _ => True

lemma stableBytes_apply (hop : movesLeases operation = false)
    (hrelease : ∀ key alloc, operation = .release key → uma.allocation? key = some alloc →
      ∀ record ∈ alloc.chunkRecords, record.stableLeaseCount = 0) :
    (operation.apply context uma).uma.stableBytes = uma.stableBytes := by
  rw [stableBytes, stableBytes, (rest uma context operation).chunkSizeBytes]
  cases effect uma context operation with
  | kept hallocations => rw [hallocations]
  | allocated _ hnone _ hallocations =>
    rw [hallocations, total_insert_of_none hnone, leasedBytes_of_unleased, zero_add]
    intro record hmem
    rw [eq_of_mem_replicate hmem]
  | released hop' halloc hallocations =>
    rw [hallocations, total_eq_add_erase halloc,
      leasedBytes_of_unleased (hrelease _ _ hop' halloc), zero_add]
  | changed halloc hchange hallocations =>
    obtain ⟨-, htotal, hnum⟩ := hchange.shape
    rw [hallocations]
    exact total_insert_of_eq halloc (leasedBytes_congr htotal hnum (hchange.leaseCount_eq hop))

/-- What an admitted lease does to the budget. -/
lemma tryAcquireStable_eq_ok {budget budget' : MemoryTierBudget} {bytes : UInt64}
    (h : budget.tryAcquireStable bytes = .ok budget')
    (hle : budget.stableUsedBytes ≤ budget.stableTotalBytes) :
    budget'.stableTotalBytes = budget.stableTotalBytes ∧
      budget'.stableUsedBytes.toNat = budget.stableUsedBytes.toNat + bytes.toNat ∧
      budget'.stableUsedBytes ≤ budget.stableTotalBytes := by
  unfold MemoryTierBudget.tryAcquireStable at h
  by_cases hzero : bytes = 0
  · rw [if_pos hzero] at h
    cases h
    exact ⟨rfl, by simp [hzero], hle⟩
  · split_ifs at h with hover
    cases h
    obtain ⟨-, hfree⟩ := not_or.mp hover
    rw [UInt64.lt_iff_toNat_lt, UInt64.toNat_sub_of_le _ _ hle] at hfree
    rw [UInt64.le_iff_toNat_le] at hle
    have hlt := budget.stableTotalBytes.toNat_lt
    have hsum := UInt64.toNat_add budget.stableUsedBytes bytes
    rw [mod_eq_of_lt (by omega)] at hsum
    refine ⟨rfl, hsum, ?_⟩
    rw [UInt64.le_iff_toNat_le, hsum]
    omega

variable {budget : MemoryTierBudget}

lemma releaseStable_of_le {bytes : UInt64} (h : bytes ≤ budget.stableUsedBytes) :
    (budget.releaseStable bytes).stableTotalBytes = budget.stableTotalBytes ∧
      (budget.releaseStable bytes).stableUsedBytes.toNat + bytes.toNat =
        budget.stableUsedBytes.toNat := by
  unfold MemoryTierBudget.releaseStable
  split_ifs with hzero hall
  · exact ⟨rfl, by simp [hzero]⟩
  · rw [UInt64.le_iff_toNat_le] at h hall
    refine ⟨rfl, ?_⟩
    change 0 + bytes.toNat = _
    omega
  · refine ⟨rfl, ?_⟩
    rw [UInt64.toNat_sub_of_le _ _ h]
    rw [UInt64.le_iff_toNat_le] at h
    omega

lemma account_of_budget (h : uma.memoryTierBudget = some budget) :
    uma.account = some (budget.stableTotalBytes, budget.stableUsedBytes) := by
  rw [account, h]
  rfl

lemma leasedBytes_add {indices chunks : List UInt32} (hbounded : Bounded uma.chunkSizeBytes alloc)
    (hchunks : chunks = normalizeChunkIndices indices alloc.numChunks)
    (hlt : ∀ c ∈ chunks, c.toNat < alloc.numChunks)
    (htotal : alloc'.totalBytes = alloc.totalBytes) (hnum : alloc'.numChunks = alloc.numChunks)
    (hcount : ∀ i < alloc.numChunks,
      leaseCount alloc'.chunkRecords i = leaseCount alloc.chunkRecords i + visits chunks i) :
    leasedBytes uma.chunkSizeBytes alloc' =
      leasedBytes uma.chunkSizeBytes alloc + (uma.leaseBytes alloc chunks).toNat := by
  have hlength : chunks.length ≤ alloc.numChunks := by
    subst hchunks
    exact length_normalizeChunkIndices_le hlt
  rw [toNat_leaseBytes hbounded hlt hlength, leasedBytes, leasedBytes, ← sum_add_distrib,
    hnum, htotal]
  refine sum_congr rfl fun i hi => ?_
  rw [hcount i (Finset.mem_range.mp hi), add_mul]

lemma stableBytes_insert (halloc : uma.allocation? key = some alloc)
    (hallocations : uma'.allocations = uma.allocations.insert key alloc')
    (hsize : uma'.chunkSizeBytes = uma.chunkSizeBytes) :
    uma'.stableBytes + leasedBytes uma.chunkSizeBytes alloc =
      uma.stableBytes + leasedBytes uma.chunkSizeBytes alloc' := by
  rw [stableBytes, stableBytes, hallocations, hsize, total_insert, total_eq_add_erase halloc]
  dsimp only
  omega

lemma balance_of_eq (h : Balanced uma) (hstable : uma'.stableBytes = uma.stableBytes)
    (haccount : uma'.account = uma.account) :
    ∃ totalBytes usedBytes, uma'.account = some (totalBytes, usedBytes) ∧
      usedBytes.toNat = uma'.stableBytes ∧ usedBytes ≤ totalBytes := by
  rw [hstable, haccount]
  exact h.balance

lemma balance_acquireStableLease (h : Balanced uma)
    (hwhole : ∀ alloc, uma.allocation? key = some alloc →
      (∃ c ∈ (normalizeChunkIndices indices alloc.numChunks).head?, alloc.numChunks ≤ c.toNat) ∨
        (∀ c ∈ normalizeChunkIndices indices alloc.numChunks, c.toNat < alloc.numChunks) ∧
          LeasesFit (normalizeChunkIndices indices alloc.numChunks) alloc.chunkRecords) :
    ∃ totalBytes usedBytes,
      (uma.acquireStableLease context key indices).1.account = some (totalBytes, usedBytes) ∧
      usedBytes.toNat = (uma.acquireStableLease context key indices).1.stableBytes ∧
      usedBytes ≤ totalBytes := by
  have hacquired := acquired uma context key indices
  generalize uma.acquireStableLease context key indices = result at hacquired
  cases hacquired with
  | refused => exact h.balance
  | @cut alloc done idx rest status halloc hchunks hdone hidx =>
    rw [forall_live_iff halloc, hchunks] at hwhole
    rcases hwhole with hhead | ⟨hlt, -⟩
    · obtain rfl := done_eq_nil_of_head hdone hhead
      exact balance_of_eq h (total_insert_of_eq halloc rfl) rfl
    · exact absurd (hlt idx (by simp)) (not_lt.mpr hidx)
  | @overBudget alloc budget status chunks halloc hchunks hlt hn hbudget hover =>
    have hsame := sameLedger_updatePreemptibleBudget (uma.setAllocation key
      { alloc with
        chunkRecords := modifyChunks rollbackLease chunks
          (modifyChunks lease chunks alloc.chunkRecords) }) context.os
    refine balance_of_eq h ?_ hsame.account
    rw [stableBytes, hsame.allocations, hsame.chunkSizeBytes]
    refine total_insert_of_eq halloc (leasedBytes_congr rfl ?_ fun i => ?_)
    · exact length_modifyChunks.trans length_modifyChunks
    · rw [forall_live_iff halloc, ← hchunks] at hwhole
      rcases hwhole with ⟨c, hhead, hc⟩ | ⟨-, hfit⟩
      · exact absurd (hlt c (mem_of_mem_head? hhead)) (not_lt.mpr hc)
      · exact leaseCount_rollbackLease hfit
  | @granted alloc chunks lease uma' halloc hchunks hlt hn hlease hallocations hsessions hnext hsize
      haccount =>
    obtain ⟨totalBytes, usedBytes, hold, _, hle⟩ := h.balance
    rcases haccount with ⟨hnone, -⟩ | ⟨budget, _, hbudget, hok, haccount⟩
    · rw [account, hnone] at hold
      cases hold
    · rw [account_of_budget hbudget] at hold
      obtain ⟨rfl, rfl⟩ := hold
      obtain ⟨htotal, _, hle'⟩ := tryAcquireStable_eq_ok hok hle
      rw [forall_live_iff halloc, ← hchunks] at hwhole
      rcases hwhole with ⟨c, hhead, hc⟩ | ⟨-, hfit⟩
      · exact absurd (hlt c (mem_of_mem_head? hhead)) (not_lt.mpr hc)
      · have hleased : leasedBytes uma.chunkSizeBytes
            { alloc with
              chunkRecords := modifyChunks ChunkRecord.lease chunks alloc.chunkRecords
              ledgerVersion := alloc.ledgerVersion + 1 } = _ :=
          leasedBytes_add (h.bounded key alloc halloc) hchunks hlt rfl length_modifyChunks
            fun i => leaseCount_lease hfit
        have hinsert := stableBytes_insert halloc hallocations hsize
        refine ⟨_, _, haccount, ?_, htotal ▸ hle'⟩
        dsimp only
        omega

lemma balance_releaseStableLease (h : Balanced uma)
    (hwhole : ∀ alloc, uma.allocation? key = some alloc →
      ReleaseRestores (normalizeChunkIndices indices alloc.numChunks) alloc) :
    ∃ totalBytes usedBytes,
      (uma.releaseStableLease key indices).1.account = some (totalBytes, usedBytes) ∧
      usedBytes.toNat = (uma.releaseStableLease key indices).1.stableBytes ∧
      usedBytes ≤ totalBytes := by
  have hunleased := unleased uma key indices
  generalize uma.releaseStableLease key indices = result at hunleased
  cases hunleased with
  | notFound => exact h.balance
  | empty => exact h.balance
  | @cut alloc done idx rest status halloc hchunks hdone hheld hidx =>
    rw [forall_live_iff halloc, hchunks] at hwhole
    obtain rfl := done_eq_nil_of_releaseRestores hdone hheld hidx hwhole
    exact balance_of_eq h (total_insert_of_eq halloc rfl) rfl
  | @done alloc chunks halloc hchunks hne hlt hheld =>
    obtain ⟨totalBytes, usedBytes, hold, hused, hle⟩ := h.balance
    obtain ⟨budget, hbudget, hpair⟩ := map_eq_some_iff.mp hold
    cases hpair
    let left : ReplicaAllocation := { alloc with
      chunkRecords := modifyChunks unlease chunks alloc.chunkRecords
      ledgerVersion := alloc.ledgerVersion + 1 }
    have hnum : left.numChunks = alloc.numChunks := length_modifyChunks
    have hbounded : Bounded uma.chunkSizeBytes left := by
      rw [Bounded, hnum]
      exact h.bounded key alloc halloc
    have hunlease : leasedBytes uma.chunkSizeBytes alloc =
        leasedBytes uma.chunkSizeBytes left + (uma.leaseBytes left chunks).toNat :=
      leasedBytes_add hbounded (hnum ▸ hchunks) (hnum ▸ hlt) rfl hnum.symm
        fun i hi => (leaseCount_unlease hheld (hi.trans_eq hnum)).symm
    change _ = _ + (uma.leaseBytes alloc chunks).toNat at hunlease
    have hinsert : (uma.setAllocation key left).stableBytes + _ = _ :=
      stableBytes_insert halloc rfl rfl
    have hbytes : uma.leaseBytes alloc chunks ≤ budget.stableUsedBytes := by
      rw [UInt64.le_iff_toNat_le, hused, stableBytes, total_eq_add_erase halloc, hunlease]
      omega
    obtain ⟨htotal, _⟩ := releaseStable_of_le hbytes
    refine ⟨budget.stableTotalBytes, (budget.releaseStable (uma.leaseBytes alloc chunks)).stableUsedBytes,
      ?_, ?_, ?_⟩
    · rw [hbudget, ← htotal]
      rfl
    · change _ = (uma.setAllocation key left).stableBytes
      omega
    · rw [UInt64.le_iff_toNat_le] at hle ⊢
      omega

lemma Balanced.step {event : Event} (h : Balanced uma) (hwhole : LeasesWhole uma event) :
    Balanced (event.operation.apply event.context uma).uma := by
  obtain ⟨operation, context⟩ := event
  refine ⟨bounded_apply h.bounded, ?_⟩
  by_cases hop : movesLeases operation = false
  · have hstable : (operation.apply context uma).uma.stableBytes = uma.stableBytes := by
      refine stableBytes_apply hop ?_
      rintro key alloc rfl halloc
      exact hwhole alloc halloc
    refine balance_of_eq h hstable ?_
    rcases (rest uma context operation).account with ⟨_, _, rfl⟩ | ⟨_, _, rfl⟩ | haccount
    · cases hop
    · cases hop
    · exact haccount
  · cases operation with
    | acquireStableLease key indices => exact balance_acquireStableLease h hwhole
    | releaseStableLease key indices => exact balance_releaseStableLease h hwhole
    | _ => exact absurd rfl hop

lemma balanced_construct (artifactChunkBytes : UInt64) (shared : Bool)
    (hfresh : budget.stableUsedBytes = 0) :
    Balanced (construct artifactChunkBytes shared (some budget)) := by
  constructor
  · intro key alloc halloc
    cases halloc
  · refine ⟨_, _, rfl, ?_, ?_⟩
    · rw [hfresh]
      rfl
    · rw [hfresh]
      exact UInt64.zero_le

/-- **Conservation of the stable bytes.**  In every run in which lists of chunks are leased or given
back as a whole, no lease counter wraps and no replica is released with leases, the used bytes of the
budget are the bytes under leases of all live replicas, and do not exceed the total. -/
theorem stableUsedBytes_eq_stableBytes (artifactChunkBytes : UInt64) (shared : Bool)
    (budget : MemoryTierBudget) (hfresh : budget.stableUsedBytes = 0)
    (h : Reaches step LeasesWhole (construct artifactChunkBytes shared (some budget)) uma) :
    ∃ budget', uma.memoryTierBudget = some budget' ∧
      budget'.stableUsedBytes.toNat = uma.stableBytes ∧
      budget'.stableUsedBytes ≤ budget'.stableTotalBytes := by
  have hbalanced : Balanced uma := by
    refine h.invariant (balanced_construct artifactChunkBytes shared hfresh) ?_
    rintro uma event uma' - hwhole hstep hbalanced
    cases hstep
    exact hbalanced.step hwhole
  obtain ⟨_, _, haccount, hused, hle⟩ := hbalanced.balance
  obtain ⟨budget', hbudget', hpair⟩ := map_eq_some_iff.mp haccount
  cases hpair
  exact ⟨budget', hbudget', hused, hle⟩

/-- A replica of one chunk under a lease. -/
def leasedOnce : UnifiedMemoryAuthority :=
  let uma := (construct 4096 false (some { stableTotalBytes := 8192 })).allocate (.mapsAt 65536)
    { artifactId := "a" } 4096
  (uma.1.acquireStableLease (.mapsAt 0) { artifactId := "a" } []).1

lemma reaches_leasedOnce :
    Reaches step LeasesWhole (construct 4096 false (some { stableTotalBytes := 8192 }))
      leasedOnce := by
  refine .snoc (t := ⟨.acquireStableLease { artifactId := "a" } [], .mapsAt 0⟩)
    (.snoc (t := ⟨.allocate { artifactId := "a" } 4096, .mapsAt 65536⟩) .refl trivial rfl) ?_ rfl
  intro alloc halloc
  cases halloc
  refine .inr ⟨forall_mem_singleton.mpr (by decide), fun i record hi => ?_⟩
  rw [eq_of_mem_replicate (mem_of_getElem? hi)]
  exact lt_of_le_of_lt (Nat.add_le_add_left count_le_length _) (by decide)

theorem stableUsedBytes_leasedOnce :
    Reaches step LeasesWhole (construct 4096 false (some { stableTotalBytes := 8192 }))
        leasedOnce ∧
      leasedOnce.stableBytes = 4096 ∧
      ∃ budget', leasedOnce.memoryTierBudget = some budget' ∧
        budget'.stableUsedBytes.toNat = leasedOnce.stableBytes ∧
        budget'.stableUsedBytes ≤ budget'.stableTotalBytes :=
  ⟨reaches_leasedOnce, by decide,
    stableUsedBytes_eq_stableBytes 4096 false { stableTotalBytes := 8192 } rfl reaches_leasedOnce⟩

/-- The bytes of a replica that is released under a lease stay used. -/
theorem released_replica_keeps_budget :
    ∃ (uma : UnifiedMemoryAuthority) (budget : MemoryTierBudget),
      Reaches step (fun _ _ => True) (construct 4096 false (some { stableTotalBytes := 8192 })) uma ∧
      uma.memoryTierBudget = some budget ∧ budget.stableUsedBytes = 4096 ∧ uma.stableBytes = 0 := by
  refine ⟨(leasedOnce.release { artifactId := "a" }).1, _, ?_, rfl, by decide, by decide⟩
  exact (reaches_leasedOnce.mono fun _ _ _ => trivial).snoc
    (t := ⟨.release { artifactId := "a" }, .mapsAt 0⟩) trivial rfl

end UnifiedMemoryAuthority

end TensorCast.Authority
