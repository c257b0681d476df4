import TensorCast.Authority.Chunks
import TensorCast.Authority.Operations

/-!
# What the operations do

Each operation is inverted once: the lemma about it lists what it can lead to, with the conditions
under which it does.  Changes to telemetry (faults, latencies, the count of preemptible bytes) are
gathered in one relation, `SameLedger`.
-/

namespace TensorCast.Authority

open Core Lib ChunkRecord List Option Function Nat UInt32 Except
open Function (update)

/-- The bytes that the budget counts: the totals, those under leases, and those marked
preemptible. -/
def MemoryTierBudget.bytes (budget : MemoryTierBudget) : UInt64 × UInt64 × UInt64 × UInt64 :=
  (budget.stableTotalBytes, budget.preemptibleTotalBytes, budget.stableUsedBytes,
    budget.preemptibleMarkedBytes)

namespace UnifiedMemoryAuthority

variable {uma uma' uma'' : UnifiedMemoryAuthority} {context : Context} {key other : ReplicaKey}
  {alloc alloc' : ReplicaAllocation}

/-! ## Looking up -/

@[simp] lemma allocation?_setAllocation_self :
    (uma.setAllocation key alloc).allocation? key = some alloc := AList.lookup_insert _

lemma allocation?_setAllocation_of_ne (h : other ≠ key) :
    (uma.setAllocation key alloc).allocation? other = uma.allocation? other :=
  AList.lookup_insert_ne h

lemma allocation?_congr (h : uma'.allocations = uma.allocations) (key : ReplicaKey) :
    uma'.allocation? key = uma.allocation? key := by
  rw [allocation?, h, allocation?]

lemma sessions_setSession {sessionId : UInt64} {session : Option SessionRecord} :
    (uma.setSession sessionId session).sessions = update uma.sessions sessionId session := rfl

lemma numChunks_mul_le (chunkSizeBytes bytes : UInt64) (region : CpuRegion) :
    (newAllocation chunkSizeBytes bytes region).numChunks * chunkSizeBytes.toNat ≤
      (bytes + chunkSizeBytes - 1).toNat := by
  rw [ReplicaAllocation.numChunks, newAllocation, length_replicate]
  exact div_mul_le_self _ _

/-! ## Telemetry -/

/-- The stable bytes of the budget: the total and the used ones. -/
def account (uma : UnifiedMemoryAuthority) : Option (UInt64 × UInt64) :=
  uma.memoryTierBudget.map fun budget => (budget.stableTotalBytes, budget.stableUsedBytes)

def budgetBytes (uma : UnifiedMemoryAuthority) : Option (UInt64 × UInt64 × UInt64 × UInt64) :=
  uma.memoryTierBudget.map MemoryTierBudget.bytes

lemma account_eq : uma.account = uma.budgetBytes.map fun bytes => (bytes.1, bytes.2.2.1) := by
  simp only [budgetBytes, Option.map_map]
  rfl

/-- Two states that differ in telemetry only. -/
structure SameLedger (uma uma' : UnifiedMemoryAuthority) : Prop where
  allocations : uma'.allocations = uma.allocations
  sessions : uma'.sessions = uma.sessions
  nextSessionId : uma'.nextSessionId = uma.nextSessionId
  chunkSizeBytes : uma'.chunkSizeBytes = uma.chunkSizeBytes
  account : uma'.account = uma.account

namespace SameLedger

@[refl] lemma refl (uma : UnifiedMemoryAuthority) : SameLedger uma uma := ⟨rfl, rfl, rfl, rfl, rfl⟩

lemma trans (h : SameLedger uma uma') (h' : SameLedger uma' uma'') : SameLedger uma uma'' where
  allocations := h'.allocations.trans h.allocations
  sessions := h'.sessions.trans h.sessions
  nextSessionId := h'.nextSessionId.trans h.nextSessionId
  chunkSizeBytes := h'.chunkSizeBytes.trans h.chunkSizeBytes
  account := h'.account.trans h.account

lemma allocation? (h : SameLedger uma uma') (key : ReplicaKey) :
    uma'.allocation? key = uma.allocation? key := allocation?_congr h.allocations key

end SameLedger

lemma sameLedger_updatePreemptibleBudget (uma : UnifiedMemoryAuthority) (os : Os) :
    SameLedger uma (uma.updatePreemptibleBudget os) := by
  unfold updatePreemptibleBudget
  cases h : uma.memoryTierBudget with
  | none => exact .refl uma
  | some budget => exact ⟨rfl, rfl, rfl, rfl, by simp [account, setBudget, h,
      MemoryTierBudget.setPreemptibleMarkedBytes]⟩

lemma sameLedger_recordPreemptibleFault (os : Os) (key : ReplicaKey) (idx : UInt32) :
    SameLedger uma (recordPreemptibleFault os key uma idx) where
  allocations := rfl
  sessions := rfl
  nextSessionId := rfl
  chunkSizeBytes := rfl
  account := by
    simp only [account, recordPreemptibleFault, Option.map_map]
    rfl

lemma bytes_recordRehydrateLatency (budget : MemoryTierBudget) (ns : UInt64) :
    (budget.recordRehydrateLatency ns).bytes = budget.bytes := by
  rcases eq_or_ne ns 0 with rfl | hns
  · rfl
  · rw [MemoryTierBudget.recordRehydrateLatency, if_neg hns]
    rfl

lemma budgetBytes_maybeRecordRehydrateLatency (uma : UnifiedMemoryAuthority) (os : Os)
    (key : ReplicaKey) (idx : UInt32) :
    (maybeRecordRehydrateLatency os key uma idx).budgetBytes = uma.budgetBytes := by
  unfold maybeRecordRehydrateLatency
  cases uma.pendingRehydrate key idx with
  | none => rfl
  | some start =>
    simp only [budgetBytes, Option.map_map]
    congr 1
    funext budget
    split_ifs
    · exact bytes_recordRehydrateLatency budget _
    · rfl

lemma sameLedger_maybeRecordRehydrateLatency (os : Os) (key : ReplicaKey) (idx : UInt32) :
    SameLedger uma (maybeRecordRehydrateLatency os key uma idx) := by
  have hbytes := budgetBytes_maybeRecordRehydrateLatency uma os key idx
  have haccount : (maybeRecordRehydrateLatency os key uma idx).account = uma.account := by
    rw [account_eq, hbytes, ← account_eq]
  unfold maybeRecordRehydrateLatency at haccount ⊢
  cases hpending : uma.pendingRehydrate key idx with
  | none => exact .refl uma
  | some start =>
    rw [hpending] at haccount
    exact ⟨rfl, rfl, rfl, rfl, haccount⟩

lemma sameLedger_recordFaults (uma : UnifiedMemoryAuthority) (os : Os) (key : ReplicaKey)
    (faulted : List UInt32) :
    SameLedger uma (uma.recordFaults os key faulted) := by
  have hfold : SameLedger uma (faulted.foldl (recordPreemptibleFault os key) uma) := by
    induction faulted generalizing uma with
    | nil => exact .refl uma
    | cons idx rest ih =>
      exact (sameLedger_recordPreemptibleFault os key idx).trans (ih _)
  dsimp only [recordFaults]
  split_ifs
  · exact hfold
  · exact hfold.trans (sameLedger_updatePreemptibleBudget _ os)

/-! ## Lists of chunks -/

variable {indices : List UInt32}

lemma mem_sortUnique {c : UInt32} : c ∈ sortUnique indices ↔ c ∈ indices := by
  rw [sortUnique, mem_dedup, mem_insertionSort]

lemma sortUnique_eq_nil : sortUnique indices = [] ↔ indices = [] := by
  simp only [eq_nil_iff_forall_not_mem, mem_sortUnique]

lemma pairwise_sortUnique (indices : List UInt32) : (sortUnique indices).Pairwise (· < ·) := by
  have hle : (sortUnique indices).Pairwise (· ≤ ·) :=
    (pairwise_insertionSort (· ≤ ·) indices).sublist (dedup_sublist _)
  exact hle.imp₂ (fun a b hle hne => UInt32.lt_of_le_of_ne hle hne) (nodup_dedup _)

lemma normalizeChunkIndices_ne_nil {n : ℕ} (hn : n ≠ 0) : normalizeChunkIndices indices n ≠ [] := by
  unfold normalizeChunkIndices
  split_ifs with h
  · intro hnil
    have hlen := congrArg length hnil
    rw [allChunks, length_map, length_range] at hlen
    exact hn hlen
  · rwa [Ne, sortUnique_eq_nil]

/-! ## Stable leases -/

variable {records : List ChunkRecord} {f : ChunkRecord → ChunkRecord}

lemma length_le_of_refuses {idx : UInt32} (h : Refuses (fun record => .ok (f record)) records idx) :
    records.length ≤ idx.toNat := by
  by_contra hlt
  obtain ⟨_, hs⟩ := h _ (getElem?_eq_getElem (Nat.lt_of_not_le hlt))
  cases hs

/-- What a request for a lease can lead to: an index out of range leaves the marks before it, and a
budget that refuses takes all marks back. -/
inductive Acquired (uma : UnifiedMemoryAuthority) (context : Context) (key : ReplicaKey)
    (indices : List UInt32) : UnifiedMemoryAuthority × StatusOr StableLease → Prop
  | refused (status : Status) (h : ∀ alloc, uma.allocation? key = some alloc → alloc.numChunks = 0) :
      Acquired uma context key indices (uma, .error status)
  | cut {alloc : ReplicaAllocation} {done : List UInt32} {idx : UInt32} {rest : List UInt32}
      (status : Status) (halloc : uma.allocation? key = some alloc)
      (hchunks : normalizeChunkIndices indices alloc.numChunks = done ++ idx :: rest)
      (hdone : ∀ c ∈ done, c.toNat < alloc.numChunks) (hidx : alloc.numChunks ≤ idx.toNat) :
      Acquired uma context key indices
        (uma.setAllocation key
          { alloc with chunkRecords := modifyChunks ChunkRecord.lease done alloc.chunkRecords },
          .error status)
  | overBudget {alloc : ReplicaAllocation} {budget : MemoryTierBudget} {status : Status}
      {chunks : List UInt32} (halloc : uma.allocation? key = some alloc)
      (hchunks : chunks = normalizeChunkIndices indices alloc.numChunks)
      (hlt : ∀ c ∈ chunks, c.toNat < alloc.numChunks) (hn : alloc.numChunks ≠ 0)
      (hbudget : uma.memoryTierBudget = some budget)
      (hover : budget.tryAcquireStable (uma.leaseBytes alloc chunks) = .error status) :
      Acquired uma context key indices
        ((uma.setAllocation key
          { alloc with
            chunkRecords := modifyChunks ChunkRecord.rollbackLease chunks
              (modifyChunks ChunkRecord.lease chunks alloc.chunkRecords)
            }).updatePreemptibleBudget context.os,
          .error status)
  | granted {alloc : ReplicaAllocation} {chunks : List UInt32} (lease : StableLease)
      (uma' : UnifiedMemoryAuthority) (halloc : uma.allocation? key = some alloc)
      (hchunks : chunks = normalizeChunkIndices indices alloc.numChunks)
      (hlt : ∀ c ∈ chunks, c.toNat < alloc.numChunks) (hn : alloc.numChunks ≠ 0)
      (hlease : lease.key = key ∧ lease.chunkIndices = chunks)
      (hallocations : uma'.allocations = uma.allocations.insert key
        { alloc with
          chunkRecords := modifyChunks ChunkRecord.lease chunks alloc.chunkRecords
          ledgerVersion := alloc.ledgerVersion + 1 })
      (hsessions : uma'.sessions = uma.sessions) (hnext : uma'.nextSessionId = uma.nextSessionId)
      (hsize : uma'.chunkSizeBytes = uma.chunkSizeBytes)
      (haccount : (uma.memoryTierBudget = none ∧ uma'.account = none) ∨
        ∃ budget budget', uma.memoryTierBudget = some budget ∧
          budget.tryAcquireStable (uma.leaseBytes alloc chunks) = .ok budget' ∧
          uma'.account = some (budget'.stableTotalBytes, budget'.stableUsedBytes)) :
      Acquired uma context key indices (uma', .ok lease)

lemma acquired (uma : UnifiedMemoryAuthority) (context : Context) (key : ReplicaKey)
    (indices : List UInt32) :
    Acquired uma context key indices (uma.acquireStableLease context key indices) := by
  unfold acquireStableLease
  cases halloc : uma.allocation? key with
  | none => exact .refused _ (by simp [halloc])
  | some alloc =>
    by_cases hn : alloc.numChunks = 0
    · simp only [hn]
      refine .refused _ fun alloc' h => ?_
      rw [halloc] at h
      rw [← some_inj.mp h, hn]
    · simp only [if_neg hn, if_neg (normalizeChunkIndices_ne_nil hn)]
      obtain ⟨chunks, hchunks⟩ : ∃ chunks, chunks = normalizeChunkIndices indices alloc.numChunks :=
        ⟨_, rfl⟩
      rw [← hchunks]
      rcases walk_visitRecord (.outOfRange "Chunk index out of range in stable lease")
        (fun record => .ok record.lease) (fun record record' h => (ok.inj h).symm)
        chunks alloc.chunkRecords with
        ⟨hw, hlt, -⟩ | ⟨_, _, _, status, hl, hw, hlt, -, hidx⟩
      · rw [leaseChunk, hw]
        dsimp only [admitLease]
        cases hbudget : uma.memoryTierBudget with
        | none =>
          exact .granted _ _ halloc hchunks hlt hn ⟨rfl, rfl⟩ rfl rfl rfl rfl
            (.inl ⟨hbudget, by simp [account, setAllocation, hbudget]⟩)
        | some budget =>
          dsimp only
          cases hover : budget.tryAcquireStable (uma.leaseBytes alloc chunks) with
          | error status => exact .overBudget halloc hchunks hlt hn hbudget hover
          | ok budget' =>
            have hsame := sameLedger_updatePreemptibleBudget
              ((uma.setAllocation key
                { alloc with
                  chunkRecords := modifyChunks lease chunks alloc.chunkRecords
                  ledgerVersion := alloc.ledgerVersion + 1 }).setBudget budget') context.os
            exact .granted _ _ halloc hchunks hlt hn ⟨rfl, rfl⟩ hsame.allocations hsame.sessions
              hsame.nextSessionId hsame.chunkSizeBytes
              (.inr ⟨budget, budget', hbudget, hover, hsame.account⟩)
      · rw [leaseChunk, hw]
        refine .cut status halloc (hchunks.symm.trans hl) hlt ?_
        have hrefused := length_le_of_refuses hidx
        rwa [length_modifyChunks] at hrefused

variable (record : ChunkRecord)

lemma toNat_iterate_lease (k : ℕ) :
    (lease^[k] record).stableLeaseCount.toNat = (record.stableLeaseCount.toNat + k) % 2 ^ 32 := by
  induction k with
  | zero => exact (mod_eq_of_lt record.stableLeaseCount.toNat_lt).symm
  | succ k ih =>
    rw [iterate_succ_apply', lease, UInt32.toNat_add, toNat_one]
    omega

/-- No lease counter of the chunks wraps around. -/
def LeasesFit (chunks : List UInt32) (records : List ChunkRecord) : Prop :=
  ∀ (i : ℕ) (record : ChunkRecord), records[i]? = some record →
    record.stableLeaseCount.toNat + visits chunks i < 2 ^ 32

lemma LeasesFit.of_append {done rest : List UInt32}
    (h : LeasesFit (done ++ rest) records) : LeasesFit done records := by
  intro i record hi
  have := h i record hi
  rw [visits_append] at this
  omega

lemma cpu_iterate_lease {k : ℕ} (hk : 0 < k) :
    (lease^[k] record).cpu = .stable := by
  obtain ⟨k, rfl⟩ := exists_eq_add_one.mpr hk
  rw [iterate_succ_apply']
  rfl

lemma toNat_unlease {record : ChunkRecord} (h : 0 < record.stableLeaseCount.toNat) :
    record.unlease.stableLeaseCount.toNat = record.stableLeaseCount.toNat - 1 :=
  UInt32.toNat_sub_of_le _ _ (le_iff_toNat_le.mpr h)

lemma toNat_iterate_unlease {k : ℕ}
    (hk : k ≤ record.stableLeaseCount.toNat) :
    (unlease^[k] record).stableLeaseCount.toNat = record.stableLeaseCount.toNat - k := by
  induction k with
  | zero => rfl
  | succ k ih =>
    have hprev := ih (le_of_succ_le hk)
    rw [iterate_succ_apply', toNat_unlease (by omega), hprev, Nat.sub_sub]

lemma releaseLease_eq_ok {record record' : ChunkRecord} (h : record.releaseLease = .ok record') :
    record' = record.unlease := by
  unfold releaseLease at h
  split_ifs at h
  exact (ok.inj h).symm

lemma releaseLease_ok_iff {record : ChunkRecord} :
    (∃ record', record.releaseLease = .ok record') ↔ 0 < record.stableLeaseCount.toNat := by
  unfold releaseLease
  split_ifs with h
  · simp [h]
  · have hne : record.stableLeaseCount.toNat ≠ 0 := fun h0 => h (UInt32.toNat_inj.mp h0)
    simp only [Except.ok.injEq, exists_eq', true_iff]
    omega

lemma accepts_releaseLease_iff {chunks : List UInt32} :
    Accepts releaseLease unlease chunks records ↔
      ∀ (i : ℕ) (record : ChunkRecord), records[i]? = some record →
        visits chunks i ≤ record.stableLeaseCount.toNat := by
  constructor
  · intro h i record hi
    by_contra hlt
    have hpos := releaseLease_ok_iff.mp (h i record hi _ (Nat.lt_of_not_le hlt))
    rw [toNat_iterate_unlease record le_rfl] at hpos
    omega
  · intro h i record hi k hk
    have hle := h i record hi
    rw [releaseLease_ok_iff, toNat_iterate_unlease record (by omega)]
    omega

/-- A chunk without a lease, or an index out of range, leaves what was given back before it. -/
inductive Unleased (uma : UnifiedMemoryAuthority) (key : ReplicaKey) (indices : List UInt32) :
    UnifiedMemoryAuthority × StatusOr Unit → Prop
  | notFound (halloc : uma.allocation? key = none) :
      Unleased uma key indices (uma, .error (notFound key))
  | empty {alloc : ReplicaAllocation} (halloc : uma.allocation? key = some alloc)
      (hn : alloc.numChunks = 0) (hindices : indices = []) : Unleased uma key indices (uma, .ok ())
  | cut {alloc : ReplicaAllocation} {done : List UInt32} {idx : UInt32} {rest : List UInt32}
      (status : Status) (halloc : uma.allocation? key = some alloc)
      (hchunks : normalizeChunkIndices indices alloc.numChunks = done ++ idx :: rest)
      (hdone : ∀ c ∈ done, c.toNat < alloc.numChunks)
      (hheld : Accepts releaseLease unlease done alloc.chunkRecords)
      (hidx : Refuses releaseLease (modifyChunks unlease done alloc.chunkRecords) idx) :
      Unleased uma key indices
        (uma.setAllocation key
          { alloc with chunkRecords := modifyChunks unlease done alloc.chunkRecords },
          .error status)
  | done {alloc : ReplicaAllocation} {chunks : List UInt32}
      (halloc : uma.allocation? key = some alloc)
      (hchunks : chunks = normalizeChunkIndices indices alloc.numChunks) (hne : chunks ≠ [])
      (hlt : ∀ c ∈ chunks, c.toNat < alloc.numChunks)
      (hheld : Accepts releaseLease unlease chunks alloc.chunkRecords) :
      Unleased uma key indices
        ({ uma.setAllocation key
              { alloc with
                chunkRecords := modifyChunks unlease chunks alloc.chunkRecords
                ledgerVersion := alloc.ledgerVersion + 1 } with
            memoryTierBudget := uma.memoryTierBudget.map fun budget =>
              budget.releaseStable (uma.leaseBytes alloc chunks) },
          .ok ())

lemma unleased (uma : UnifiedMemoryAuthority) (key : ReplicaKey) (indices : List UInt32) :
    Unleased uma key indices (uma.releaseStableLease key indices) := by
  unfold releaseStableLease
  cases halloc : uma.allocation? key with
  | none => exact .notFound halloc
  | some alloc =>
    by_cases hempty : indices = [] ∧ alloc.numChunks = 0
    · simp only [if_pos hempty]
      exact .empty halloc hempty.2 hempty.1
    · obtain ⟨chunks, hchunks⟩ : ∃ chunks, chunks = normalizeChunkIndices indices alloc.numChunks :=
        ⟨_, rfl⟩
      have hne : chunks ≠ [] := by
        rw [hchunks]
        by_cases hindices : indices = []
        · exact normalizeChunkIndices_ne_nil fun hn => hempty ⟨hindices, hn⟩
        · rw [normalizeChunkIndices, if_neg hindices, Ne, sortUnique_eq_nil]
          exact hindices
      simp only [if_neg hempty, ← hchunks, if_neg hne]
      rcases walk_visitRecord (.outOfRange "Chunk index out of range in stable lease release")
        releaseLease (fun record record' => releaseLease_eq_ok)
        chunks alloc.chunkRecords with
        ⟨hw, hlt, hacc⟩ | ⟨done, _, _, status, hl, hw, hlt, hacc, hidx⟩
      · rw [unleaseChunk, hw]
        exact .done halloc hchunks hne hlt hacc
      · rw [unleaseChunk, hw]
        exact .cut status halloc (hchunks.symm.trans hl) hlt hacc hidx

/-! ## Load sessions -/

def commitChange (context : Context) (target : MemoryLocation) (deviceId : Option Int32) :
    Option (ChunkRecord → ChunkRecord) :=
  match target with
  | .gpu => deviceId.map fun deviceId record => record.commitGpu (context.registry.gpuKey deviceId)
  | .cpu => some commitCpu
  | .none | .disk | .remote => none

/-- A walk that changes records of chunks and refuses none that exist. -/
def changeChunk (f : ChunkRecord → ChunkRecord) : UInt32 → List ChunkRecord →
    StatusOr (List ChunkRecord) :=
  visitRecord (.outOfRange "Chunk index out of range") fun record => .ok (f record)

lemma walk_commitGpuChunk (devKey : DeviceKey) (chunks : List UInt32) (alloc : ReplicaAllocation) :
    ∃ loadedChunkCounts,
      walk (commitGpuChunk devKey) chunks alloc =
        ({ alloc with
            chunkRecords := (walk (changeChunk (·.commitGpu devKey)) chunks alloc.chunkRecords).1
            loadedChunkCounts },
          (walk (changeChunk (·.commitGpu devKey)) chunks alloc.chunkRecords).2) := by
  obtain ⟨⟨counts, hfst⟩, hsnd⟩ := walk_sim (commitGpuChunk devKey)
    (changeChunk (·.commitGpu devKey)) (R := fun alloc' records =>
      ∃ loadedChunkCounts, alloc' = { alloc with chunkRecords := records, loadedChunkCounts })
    (by
      rintro idx alloc' records ⟨counts, rfl⟩
      cases hr : records[idx.toNat]? with
      | none =>
        exact .inl ⟨.outOfRange "Chunk index out of range", by simp [commitGpuChunk, hr],
          by simp [changeChunk, visitRecord, hr]⟩
      | some record =>
        exact .inr ⟨_, _, by simp only [commitGpuChunk, hr]; rfl, visitRecord_of_lt hr rfl, _, rfl⟩)
    chunks ⟨alloc.loadedChunkCounts, rfl⟩
  exact ⟨counts, Prod.ext hfst hsnd⟩

lemma walk_commitCpuChunk (os : Os) (key : ReplicaKey) (chunks : List UInt32)
    (uma : UnifiedMemoryAuthority) (alloc : ReplicaAllocation) :
    ∃ uma', SameLedger uma uma' ∧ uma'.budgetBytes = uma.budgetBytes ∧
      walk (commitCpuChunk os key) chunks (uma, alloc) =
        ((uma', { alloc with
            chunkRecords := (walk (changeChunk (·.commitCpu)) chunks alloc.chunkRecords).1 }),
          (walk (changeChunk (·.commitCpu)) chunks alloc.chunkRecords).2) := by
  have h := walk_sim (commitCpuChunk os key) (changeChunk (·.commitCpu)) (R := fun state records =>
      SameLedger uma state.1 ∧ state.1.budgetBytes = uma.budgetBytes ∧
        state.2 = { alloc with chunkRecords := records }) (by
      rintro idx ⟨uma₁, _⟩ records ⟨hsame, hbytes, rfl⟩
      cases hr : records[idx.toNat]? with
      | none =>
        exact .inl ⟨.outOfRange "Chunk index out of range", by simp [commitCpuChunk, hr],
          by simp [changeChunk, visitRecord, hr]⟩
      | some record =>
        refine .inr ⟨_, _, by simp only [commitCpuChunk, hr]; rfl, visitRecord_of_lt hr rfl, ?_, ?_,
          rfl⟩
        · exact hsame.trans (sameLedger_maybeRecordRehydrateLatency os key idx)
        · exact (budgetBytes_maybeRecordRehydrateLatency uma₁ os key idx).trans hbytes)
    chunks (s := (uma, alloc)) ⟨.refl uma, rfl, rfl⟩
  exact ⟨_, h.1.1, h.1.2.1, Prod.ext (Prod.ext rfl h.1.2.2) h.2⟩

/-- What a commit can lead to.  An index out of range leaves what was committed before it, and the
session. -/
inductive Committed (uma : UnifiedMemoryAuthority) (context : Context) (sessionId : UInt64)
    (target : MemoryLocation) (chunks : List UInt32) (deviceId : Option Int32) :
    UnifiedMemoryAuthority × StatusOr Unit → Prop
  | noSession (hsession : uma.sessions sessionId = none) :
      Committed uma context sessionId target chunks deviceId (uma, .ok ())
  | refused {session : SessionRecord} (status : Status)
      (hsession : uma.sessions sessionId = some session)
      (h : uma.allocation? session.key = none ∨
        target = .gpu ∧ deviceId.or session.deviceId = none) :
      Committed uma context sessionId target chunks deviceId (uma, .error status)
  | closed {session : SessionRecord} (hsession : uma.sessions sessionId = some session)
      (h : commitChange context target (deviceId.or session.deviceId) = none ∨
        committedChunks session chunks = []) :
      Committed uma context sessionId target chunks deviceId (uma.setSession sessionId none, .ok ())
  | cut {session : SessionRecord} {alloc : ReplicaAllocation} {f : ChunkRecord → ChunkRecord}
      {done : List UInt32} {idx : UInt32} {rest : List UInt32} {uma₁ : UnifiedMemoryAuthority}
      (loadedChunkCounts : DeviceKey → Option UInt64) (status : Status)
      (hsession : uma.sessions sessionId = some session)
      (halloc : uma.allocation? session.key = some alloc)
      (hf : commitChange context target (deviceId.or session.deviceId) = some f)
      (hchunks : committedChunks session chunks = done ++ idx :: rest)
      (hdone : ∀ c ∈ done, c.toNat < alloc.numChunks) (hidx : alloc.numChunks ≤ idx.toNat)
      (hsame : SameLedger uma uma₁) (hbytes : uma₁.budgetBytes = uma.budgetBytes) :
      Committed uma context sessionId target chunks deviceId
        (uma₁.setAllocation session.key
          { alloc with
            chunkRecords := modifyChunks f done alloc.chunkRecords
            loadedChunkCounts },
          .error status)
  | done {session : SessionRecord} {alloc : ReplicaAllocation} {f : ChunkRecord → ChunkRecord}
      {uma' : UnifiedMemoryAuthority} (loadedChunkCounts : DeviceKey → Option UInt64)
      (hsession : uma.sessions sessionId = some session)
      (halloc : uma.allocation? session.key = some alloc)
      (hf : commitChange context target (deviceId.or session.deviceId) = some f)
      (hlt : ∀ c ∈ committedChunks session chunks, c.toNat < alloc.numChunks)
      (hne : committedChunks session chunks ≠ [])
      (hsame : SameLedger
        ((uma.setAllocation session.key
          { alloc with
            chunkRecords := modifyChunks f (committedChunks session chunks) alloc.chunkRecords
            loadedChunkCounts
            ledgerVersion := alloc.ledgerVersion + 1 }).setSession sessionId none) uma') :
      Committed uma context sessionId target chunks deviceId (uma', .ok ())

lemma walk_changeChunk (f : ChunkRecord → ChunkRecord) (chunks : List UInt32)
    (records : List ChunkRecord) :
    (walk (changeChunk f) chunks records = (modifyChunks f chunks records, .ok ()) ∧
      ∀ c ∈ chunks, c.toNat < records.length) ∨
      ∃ done idx rest status, chunks = done ++ idx :: rest ∧
        walk (changeChunk f) chunks records = (modifyChunks f done records, .error status) ∧
        (∀ c ∈ done, c.toNat < records.length) ∧ records.length ≤ idx.toNat := by
  rcases walk_visitRecord (.outOfRange "Chunk index out of range") (fun record => .ok (f record))
    (fun record record' h => (ok.inj h).symm) chunks records with
    ⟨hw, hlt, -⟩ | ⟨done, idx, rest, status, hl, hw, hlt, -, hidx⟩
  · exact .inl ⟨hw, hlt⟩
  · have hle := length_le_of_refuses hidx
    rw [length_modifyChunks] at hle
    exact .inr ⟨done, idx, rest, status, hl, hw, hlt, hle⟩

lemma committed_of_walk {sessionId : UInt64} {target : MemoryLocation} {chunks : List UInt32}
    {deviceId : Option Int32} {session : SessionRecord}
    {uma₁ : UnifiedMemoryAuthority} (loadedChunkCounts : DeviceKey → Option UInt64)
    (hsession : uma.sessions sessionId = some session)
    (halloc : uma.allocation? session.key = some alloc)
    (hf : commitChange context target (deviceId.or session.deviceId) = some f)
    (hsame : SameLedger uma uma₁) (hbytes : uma₁.budgetBytes = uma.budgetBytes)
    (hnil : committedChunks session chunks = [] → uma₁ = uma) :
    Committed uma context sessionId target chunks deviceId
      (uma₁.finishCommit context.os sessionId session.key
        { alloc with
          chunkRecords :=
            (walk (changeChunk f) (committedChunks session chunks) alloc.chunkRecords).1
          loadedChunkCounts }
        (committedChunks session chunks ≠ [])
        (walk (changeChunk f) (committedChunks session chunks) alloc.chunkRecords).2) := by
  rcases walk_changeChunk f (committedChunks session chunks) alloc.chunkRecords with
    ⟨hw, hlt⟩ | ⟨done, _, _, status, hl, hw, hlt, hidx⟩
  · rw [hw]
    by_cases hne : committedChunks session chunks = []
    · simp only [hne, hnil hne]
      exact .closed hsession (.inr hne)
    · simp only [finishCommit, hne, ne_eq, not_false_eq_true, decide_true, if_true]
      refine .done loadedChunkCounts hsession halloc hf hlt hne ?_
      have hupdate := sameLedger_updatePreemptibleBudget (uma₁.setAllocation session.key
        { alloc with
          chunkRecords := modifyChunks f (committedChunks session chunks) alloc.chunkRecords
          loadedChunkCounts
          ledgerVersion := alloc.ledgerVersion + 1 }) context.os
      refine ⟨?_, ?_, hupdate.nextSessionId.trans hsame.nextSessionId,
        hupdate.chunkSizeBytes.trans hsame.chunkSizeBytes, hupdate.account.trans hsame.account⟩
      · refine hupdate.allocations.trans ?_
        rw [setAllocation, hsame.allocations]
        rfl
      · change update _ _ _ = update _ _ _
        rw [hupdate.sessions]
        exact congrArg (update · sessionId none) hsame.sessions
  · rw [hw]
    exact .cut loadedChunkCounts status hsession halloc hf hl hlt hidx hsame hbytes

lemma committed (uma : UnifiedMemoryAuthority) (context : Context) (sessionId : UInt64)
    (target : MemoryLocation) (chunks : List UInt32) (deviceId : Option Int32) :
    Committed uma context sessionId target chunks deviceId
      (uma.commit context sessionId target chunks deviceId) := by
  cases hsession : uma.sessions sessionId with
  | none => simpa only [commit, hsession] using .noSession hsession
  | some session =>
    cases halloc : uma.allocation? session.key with
    | none => simpa only [commit, hsession, halloc] using .refused _ hsession (.inl halloc)
    | some alloc =>
      simp only [commit, hsession, halloc]
      cases target with
      | gpu =>
        cases hdevice : deviceId.or session.deviceId with
        | none => exact .refused _ hsession (.inr ⟨rfl, hdevice⟩)
        | some device =>
          obtain ⟨counts, hw⟩ := walk_commitGpuChunk (context.registry.gpuKey device)
            (committedChunks session chunks) alloc
          simp only [hw]
          exact committed_of_walk counts hsession halloc (by rw [hdevice]; rfl) (.refl uma) rfl
            fun _ => rfl
      | cpu =>
        obtain ⟨_, hsame, hbytes, hw⟩ := walk_commitCpuChunk context.os session.key
          (committedChunks session chunks) uma alloc
        simp only [hw]
        refine committed_of_walk alloc.loadedChunkCounts hsession halloc rfl hsame hbytes ?_
        intro hnil
        rw [hnil] at hw
        exact (congrArg (·.1.1) hw).symm
      | none => exact .closed hsession (.inl rfl)
      | disk => exact .closed hsession (.inl rfl)
      | remote => exact .closed hsession (.inl rfl)

end UnifiedMemoryAuthority

end TensorCast.Authority
