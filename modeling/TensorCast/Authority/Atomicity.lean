import TensorCast.Authority.Facts

/-!
# What a failed call leaves behind

The calls on the ledger check the indices of a list one by one, while they change the records.  A
call that is refused in the middle keeps what it has changed, and a lease that the budget refuses is
not taken back label by label.  This module says exactly from which states a failed call leaves the
ledger and the bytes of the budget as they were.
-/

namespace TensorCast.Authority

open Core Lib ChunkRecord List
open Function (update)

namespace UnifiedMemoryAuthority

variable {uma uma' : UnifiedMemoryAuthority} {context : Context} {key : ReplicaKey}
  {alloc alloc' : ReplicaAllocation}

/-- If the call fails, the facts of all records and the bytes of the budget are as they were.  Its
fault counter and latency samples are telemetry. -/
def FailureAtomic (uma : UnifiedMemoryAuthority) (outcome : Outcome) : Prop :=
  outcome.status.isOk = false →
    KeepsFacts uma outcome.uma ∧ outcome.uma.budgetBytes = uma.budgetBytes

/-! ## The conditions -/

/-- Whether a commit finds the chunk as it would leave it. -/
def InPlace (context : Context) (target : MemoryLocation) (deviceId : Option Int32)
    (record : ChunkRecord) : Prop :=
  match target, deviceId with
  | .gpu, some device => record.gpu (context.registry.gpuKey device) = some .copiedGpu
  | .cpu, _ => record.cpu = if 0 < record.stableLeaseCount then .stable else .hot
  | _, _ => True

/-- All chunks exist, or those before the first one that does not are in place. -/
def CommitRestores (context : Context) (target : MemoryLocation) (deviceId : Option Int32)
    (chunks : List UInt32) (alloc : ReplicaAllocation) : Prop :=
  (∀ c ∈ chunks, c.toNat < alloc.numChunks) ∨
    ∀ c ∈ chunks.takeWhile (·.toNat < alloc.numChunks), ∀ record,
      alloc.chunkRecords[c.toNat]? = some record → InPlace context target deviceId record

/-- The first chunk does not exist, or all exist and, if the budget refuses them, are settled and do
not make a counter wrap. -/
def AcquireRestores (uma : UnifiedMemoryAuthority) (chunks : List UInt32)
    (alloc : ReplicaAllocation) : Prop :=
  (∃ c ∈ chunks.head?, alloc.numChunks ≤ c.toNat) ∨
    (∀ c ∈ chunks, c.toNat < alloc.numChunks) ∧
      ∀ budget status, uma.memoryTierBudget = some budget →
        budget.tryAcquireStable (uma.leaseBytes alloc chunks) = .error status →
        ∀ (i : ℕ) (record : ChunkRecord), alloc.chunkRecords[i]? = some record →
          0 < visits chunks i →
          record.stableLeaseCount.toNat + visits chunks i < 2 ^ 32 ∧ record.Settled

/-- The first chunk does not exist or has no lease, or all exist and have leases enough. -/
def ReleaseRestores (chunks : List UInt32) (alloc : ReplicaAllocation) : Prop :=
  (∃ c ∈ chunks.head?, alloc.numChunks ≤ c.toNat ∨
      ∃ record, alloc.chunkRecords[c.toNat]? = some record ∧ record.stableLeaseCount = 0) ∨
    (∀ c ∈ chunks, c.toNat < alloc.numChunks) ∧
      ∀ (i : ℕ) (record : ChunkRecord), alloc.chunkRecords[i]? = some record →
        visits chunks i ≤ record.stableLeaseCount.toNat

/-- Without CPU memory, all chunks are exported already; or else all exist, or none does. -/
def ExportRestores (chunks : List UInt32) (alloc : ReplicaAllocation) : Prop :=
  if alloc.cpuRegion.base = 0 then
    ∀ c ∈ chunks, ∀ record, alloc.chunkRecords[c.toNat]? = some record → record.exportedCpu = true
  else (∀ c ∈ chunks, c.toNat < alloc.numChunks) ∨ ∀ c ∈ chunks, alloc.numChunks ≤ c.toNat

/-- The states from which a failed call leaves the records as they were. -/
def RecordsRestored (uma : UnifiedMemoryAuthority) (context : Context) : Operation → Prop
  | .commit sessionId target chunks deviceId =>
    ∀ session alloc, uma.sessions sessionId = some session →
      uma.allocation? session.key = some alloc →
      CommitRestores context target (deviceId.or session.deviceId) (committedChunks session chunks)
        alloc
  | .acquireStableLease key indices =>
    ∀ alloc, uma.allocation? key = some alloc →
      AcquireRestores uma (normalizeChunkIndices indices alloc.numChunks) alloc
  | .releaseStableLease key indices =>
    ∀ alloc, uma.allocation? key = some alloc →
      ReleaseRestores (normalizeChunkIndices indices alloc.numChunks) alloc
  | .setExported key .cpu chunks true =>
    ∀ alloc, uma.allocation? key = some alloc → ExportRestores chunks alloc
  | _ => True

/-- A refused lease has the preemptible bytes counted again: the count must be that of the budget. -/
def RecountAgrees (uma : UnifiedMemoryAuthority) (context : Context) : Operation → Prop
  | .acquireStableLease key indices =>
    ∀ alloc budget status, uma.allocation? key = some alloc →
      uma.memoryTierBudget = some budget →
      (∀ c ∈ normalizeChunkIndices indices alloc.numChunks, c.toNat < alloc.numChunks) →
      budget.tryAcquireStable
        (uma.leaseBytes alloc (normalizeChunkIndices indices alloc.numChunks)) = .error status →
      uma.computePreemptibleBytes context.os.mincoreAtCount = budget.preemptibleMarkedBytes
  | _ => True

lemma forall_live_iff (halloc : uma.allocation? key = some alloc) {P : ReplicaAllocation → Prop} :
    (∀ alloc', uma.allocation? key = some alloc' → P alloc') ↔ P alloc := by
  simp [halloc]

/-! ## Commits -/

variable {f : ChunkRecord → ChunkRecord}

lemma facts_iterate_succ (hfacts : ∀ record, (f record).facts = (f record.facts).facts)
    (htwice : ∀ record, (f (f record)).facts = (f record).facts) (record : ChunkRecord) (k : ℕ) :
    (f^[k + 1] record).facts = (f record).facts := by
  induction k with
  | zero => rfl
  | succ k ih =>
    rw [Function.iterate_succ_apply', hfacts, ih, ← hfacts, htwice]

lemma facts_commitChange_iff {target : MemoryLocation} {deviceId : Option Int32}
    (hf : commitChange context target deviceId = some f)
    (record : ChunkRecord) {k : ℕ} (hk : 0 < k) :
    (f^[k] record).facts = record.facts ↔ InPlace context target deviceId record := by
  obtain ⟨k, rfl⟩ := Nat.exists_eq_add_one.mpr hk
  cases target with
  | gpu =>
    cases deviceId with
    | none => cases hf
    | some device =>
      cases hf
      rw [facts_iterate_succ (fun _ => rfl) (fun record => by
        simp [commitGpu, facts]), facts_eq_iff]
      simp only [commitGpu, Function.update_eq_self_iff, and_true, true_and]
      exact eq_comm
  | cpu =>
    cases hf
    rw [facts_iterate_succ (f := commitCpu) (fun _ => rfl) (fun _ => rfl), facts_eq_iff]
    simp only [commitCpu, and_true]
    exact eq_comm
  | none => cases hf
  | disk => cases hf
  | remote => cases hf

variable {n : ℕ} {done : List UInt32} {idx : UInt32}

lemma takeWhile_append_cons {rest : List UInt32}
    (hdone : ∀ c ∈ done, c.toNat < n) (hidx : n ≤ idx.toNat) :
    (done ++ idx :: rest).takeWhile (·.toNat < n) = done := by
  rw [takeWhile_append_of_pos fun c hc => decide_eq_true (hdone c hc),
    takeWhile_cons_of_neg (by simpa using hidx), append_nil]

lemma failureAtomic_commit_iff (sessionId : UInt64) (target : MemoryLocation)
    (chunks : List UInt32) (deviceId : Option Int32) :
    FailureAtomic uma ((Operation.commit sessionId target chunks deviceId).apply context uma) ↔
      RecordsRestored uma context (.commit sessionId target chunks deviceId) := by
  have h := committed uma context sessionId target chunks deviceId
  simp only [Operation.apply]
  generalize uma.commit context sessionId target chunks deviceId = result at h
  cases h with
  | noSession hsession =>
    refine iff_of_true (by rintro ⟨⟩) fun session alloc hsome _ => ?_
    rw [hsession] at hsome
    cases hsome
  | @refused session status hsession h =>
    refine iff_of_true (fun _ => ⟨keepsFacts_of_allocations rfl, rfl⟩) ?_
    intro session' alloc hsome halloc
    cases hsession.symm.trans hsome
    rcases h with hnone | ⟨rfl, hdevice⟩
    · rw [hnone] at halloc
      cases halloc
    · rw [hdevice]
      exact .inr fun c _ record _ => trivial
  | @closed session hsession h =>
    refine iff_of_true (by rintro ⟨⟩) fun session' alloc hsome halloc => ?_
    cases hsession.symm.trans hsome
    rcases h with hnone | hnil
    · refine .inr fun c _ record _ => ?_
      cases target with
      | gpu =>
        cases hdevice : deviceId.or session.deviceId with
        | none => trivial
        | some device =>
          rw [hdevice] at hnone
          cases hnone
      | cpu => cases hnone
      | none => trivial
      | disk => trivial
      | remote => trivial
    · exact .inl (by simp [hnil])
  | @cut session alloc f done idx rest uma₁ counts status hsession halloc hf hchunks hdone hidx hsame
      hbytes =>
    have hkeeps : KeepsFacts uma (uma₁.setAllocation session.key
        { alloc with
          chunkRecords := modifyChunks f done alloc.chunkRecords
          loadedChunkCounts := counts }) ↔
        ∀ c ∈ done, ∀ record, alloc.chunkRecords[c.toNat]? = some record →
          InPlace context target (deviceId.or session.deviceId) record := by
      rw [keepsFacts_insert_iff halloc (by rw [setAllocation, hsame.allocations]),
        sameFacts_modifyChunks_iff]
      constructor
      · intro hall c hc record hrecord
        exact (facts_commitChange_iff hf record (visits_pos hc)).mp (hall _ record hrecord)
      · intro hplace i record hrecord
        rcases eq_zero_or_pos (visits done i) with hzero | hpos
        · rw [hzero]
          rfl
        · obtain ⟨c, hc, rfl⟩ := exists_of_visits_pos hpos
          exact (facts_commitChange_iff hf record hpos).mpr (hplace c hc record hrecord)
    constructor
    · intro hatomic session' alloc' hsome halloc'
      cases hsession.symm.trans hsome
      cases halloc.symm.trans halloc'
      rw [CommitRestores, hchunks, takeWhile_append_cons hdone hidx]
      exact .inr (hkeeps.mp (hatomic rfl).1)
    · intro hrestored _
      refine ⟨hkeeps.mpr ?_, hbytes⟩
      have hcommit := hrestored session alloc hsession halloc
      rw [CommitRestores, hchunks, takeWhile_append_cons hdone hidx] at hcommit
      rcases hcommit with hall | hplace
      · exact absurd (hall idx (by simp)) (not_lt.mpr hidx)
      · exact hplace
  | @done session alloc f uma' counts hsession halloc hf hlt hne hsame =>
    refine iff_of_true (by rintro ⟨⟩) fun session' alloc' hsome halloc' => ?_
    cases hsession.symm.trans hsome
    cases halloc.symm.trans halloc'
    exact .inl hlt

/-! ## Leases -/

variable {records : List ChunkRecord} {budget : MemoryTierBudget} {done rest : List UInt32}

lemma preemptibleBytes_map_facts (uma : UnifiedMemoryAuthority) (alloc : ReplicaAllocation)
    (mincore : UInt64 → UInt64 → Option (List Bool)) :
    uma.preemptibleBytes mincore { alloc with chunkRecords := alloc.chunkRecords.map facts } =
      uma.preemptibleBytes mincore alloc := by
  have hresident (idx : UInt32) : uma.isPreemptibleResident mincore
      { alloc with chunkRecords := alloc.chunkRecords.map facts } idx =
        uma.isPreemptibleResident mincore alloc idx := by
    simp only [isPreemptibleResident, ReplicaAllocation.numChunks, length_map]
    rfl
  simp only [preemptibleBytes, zipIdx_map, map_map, hresident]
  rfl

lemma computePreemptibleBytes_setAllocation
    (halloc : uma.allocation? key = some alloc) (hsame : SameFacts alloc.chunkRecords records)
    (mincore : UInt64 → UInt64 → Option (List Bool)) :
    (uma.setAllocation key { alloc with chunkRecords := records }).computePreemptibleBytes mincore =
      uma.computePreemptibleBytes mincore := by
  have hkept : uma.preemptibleBytes mincore { alloc with chunkRecords := records } =
      uma.preemptibleBytes mincore alloc := by
    rw [← preemptibleBytes_map_facts, ← preemptibleBytes_map_facts uma alloc, ← hsame]
  exact total_insert_of_eq halloc hkept

lemma budgetBytes_updatePreemptibleBudget {os : Os} (hbudget : uma.memoryTierBudget = some budget) :
    (uma.updatePreemptibleBudget os).budgetBytes = uma.budgetBytes ↔
      uma.computePreemptibleBytes os.mincoreAtCount = budget.preemptibleMarkedBytes := by
  simp [updatePreemptibleBudget, budgetBytes, hbudget, setBudget, MemoryTierBudget.bytes,
    MemoryTierBudget.setPreemptibleMarkedBytes]

lemma head?_append_cons_of_ne_nil (h : done ≠ []) (idx : UInt32)
    (rest : List UInt32) : ∃ c ∈ done, (done ++ idx :: rest).head? = some c := by
  obtain ⟨c, -, rfl⟩ := exists_cons_of_ne_nil h
  exact ⟨c, mem_cons_self, rfl⟩

lemma done_eq_nil_of_head
    (hdone : ∀ c ∈ done, c.toNat < n) (h : ∃ c ∈ (done ++ idx :: rest).head?, n ≤ c.toNat) :
    done = [] := by
  by_contra hne
  obtain ⟨c, hhead, hc⟩ := h
  obtain ⟨c', hc', hhead'⟩ := head?_append_cons_of_ne_nil hne idx rest
  obtain rfl := Option.some_inj.mp (hhead'.symm.trans hhead)
  exact absurd (hdone c' hc') (not_lt.mpr hc)

lemma acquireRestores_of_empty {indices : List UInt32} (hn : alloc.numChunks = 0) :
    AcquireRestores uma (normalizeChunkIndices indices alloc.numChunks) alloc := by
  rw [AcquireRestores, normalizeChunkIndices, hn]
  split_ifs with hnil
  · refine .inr ⟨by simp [allChunks], fun budget status _ _ i record hi => ?_⟩
    have hlt : i < alloc.numChunks := (List.getElem?_eq_some_iff.mp hi).1
    omega
  · obtain ⟨c, _, hcons⟩ :=
      exists_cons_of_ne_nil fun h => hnil (sortUnique_eq_nil.mp h)
    rw [hcons]
    exact .inl ⟨c, rfl, Nat.zero_le _⟩

lemma lt_of_mem_allChunks {c : UInt32} (h : c ∈ allChunks n) : c.toNat < n := by
  obtain ⟨i, hi, rfl⟩ := mem_map.mp h
  exact (Nat.mod_le _ _).trans_lt (mem_range.mp hi)

lemma visits_done_le_one {indices done rest : List UInt32}
    (hchunks : normalizeChunkIndices indices n = done ++ idx :: rest) (hidx : n ≤ idx.toNat)
    (i : ℕ) : visits done i ≤ 1 := by
  have hmem : idx ∈ normalizeChunkIndices indices n := by simp [hchunks]
  unfold normalizeChunkIndices at hchunks hmem
  split_ifs at hchunks hmem with hnil
  · exact absurd (lt_of_mem_allChunks hmem) (not_lt.mpr hidx)
  · have hle := visits_sortUnique_le_one indices i
    rw [hchunks, visits_append] at hle
    omega

variable {chunks : List UInt32}

lemma sameFacts_rollbackLease_iff (hvisits : ∀ (i : ℕ) (record : ChunkRecord),
      records[i]? = some record → 0 < visits chunks i → visits chunks i < 2 ^ 32) :
    SameFacts records (modifyChunks rollbackLease chunks
        (modifyChunks lease chunks records)) ↔
      ∀ (i : ℕ) (record : ChunkRecord), records[i]? = some record → 0 < visits chunks i →
        record.stableLeaseCount.toNat + visits chunks i < 2 ^ 32 ∧ record.Settled := by
  rw [sameFacts_of_getElem? fun i => by
      rw [getElem?_modifyChunks, getElem?_modifyChunks, Option.map_map]]
  refine forall₃_congr fun i record hi => ?_
  rcases eq_zero_or_pos (visits chunks i) with hzero | hpos
  · simp [hzero]
  · rw [forall_prop_of_true hpos]
    exact record.facts_rollbackLease_lease_iff hpos (hvisits i record hi hpos)

lemma refused_restores_iff (os : Os) (halloc : uma.allocation? key = some alloc)
    (hbudget : uma.memoryTierBudget = some budget) (hvisits : ∀ i, visits chunks i < 2 ^ 32)
    (h : uma' = (uma.setAllocation key
      { alloc with
        chunkRecords := modifyChunks rollbackLease chunks
          (modifyChunks lease chunks alloc.chunkRecords) }).updatePreemptibleBudget os) :
    KeepsFacts uma uma' ∧ uma'.budgetBytes = uma.budgetBytes ↔
      (∀ (i : ℕ) (record : ChunkRecord), alloc.chunkRecords[i]? = some record →
        0 < visits chunks i →
        record.stableLeaseCount.toNat + visits chunks i < 2 ^ 32 ∧ record.Settled) ∧
      uma.computePreemptibleBytes os.mincoreAtCount = budget.preemptibleMarkedBytes := by
  have hiff := @sameFacts_rollbackLease_iff alloc.chunkRecords chunks fun i _ _ _ => hvisits i
  rw [h, keepsFacts_insert_iff halloc (sameLedger_updatePreemptibleBudget _ os).allocations, hiff]
  refine and_congr_right fun hsettled => ?_
  -- with the same labels the count is that of the state before
  rw [← computePreemptibleBytes_setAllocation halloc (hiff.mpr hsettled)]
  exact budgetBytes_updatePreemptibleBudget hbudget

lemma failureAtomic_acquireStableLease_iff (key : ReplicaKey) (indices : List UInt32)
    (hsize : ∀ key alloc, uma.allocation? key = some alloc → alloc.numChunks < 2 ^ 63) :
    FailureAtomic uma ((Operation.acquireStableLease key indices).apply context uma) ↔
      RecordsRestored uma context (.acquireStableLease key indices) ∧
        RecountAgrees uma context (.acquireStableLease key indices) := by
  have h := acquired uma context key indices
  simp only [Operation.apply, RecordsRestored, RecountAgrees]
  generalize uma.acquireStableLease context key indices = result at h
  cases h with
  | refused status hempty =>
    refine iff_of_true (fun _ => ⟨keepsFacts_of_allocations rfl, rfl⟩) ⟨?_, ?_⟩
    · intro alloc halloc
      exact acquireRestores_of_empty (hempty alloc halloc)
    · intro alloc budget status halloc _ hlt hover
      have hnil : normalizeChunkIndices indices alloc.numChunks = [] := by
        refine eq_nil_iff_forall_not_mem.mpr fun c hc => ?_
        have := hlt c hc
        rw [hempty alloc halloc] at this
        omega
      rw [hnil] at hover
      cases hover
  | @cut alloc done idx rest status halloc hchunks hdone hidx =>
    have hkeeps := keepsFacts_modifyChunks_iff (f := lease) done halloc
    simp only [halloc, Option.some.injEq, forall_eq', hchunks]
    constructor
    · intro hatomic
      have hfacts := hkeeps.mp (hatomic rfl).1
      have hnil : done = [] := by
        by_contra hne
        obtain ⟨c, hc, -⟩ := head?_append_cons_of_ne_nil hne idx rest
        have hget := getElem?_eq_getElem (hdone c hc)
        refine facts_lease_ne _ (visits_pos hc) ?_ (hfacts c.toNat _ hget)
        exact (visits_done_le_one hchunks hidx _).trans_lt (by decide)
      subst hnil
      refine ⟨.inl ⟨idx, rfl, hidx⟩, ?_⟩
      rintro _ budget status rfl _ hlt _
      exact absurd (hlt idx (by simp [hchunks])) (not_lt.mpr hidx)
    · rintro ⟨hhead | ⟨hlt, -⟩, -⟩ -
      · refine ⟨hkeeps.mpr fun i record hi => ?_, rfl⟩
        obtain rfl := done_eq_nil_of_head hdone hhead
        rfl
      · exact absurd (hlt idx (by simp)) (not_lt.mpr hidx)
  | @overBudget alloc budget status chunks halloc hchunks hlt hn hbudget hover =>
    have hvisits : ∀ i, visits chunks i < 2 ^ 32 := by
      intro i
      rw [hchunks]
      exact visits_normalizeChunkIndices_lt (hsize key alloc halloc) indices i
    have hrefused := refused_restores_iff context.os halloc hbudget hvisits rfl
    simp only [halloc, Option.some.injEq, forall_eq', ← hchunks]
    constructor
    · intro hatomic
      obtain ⟨hsettled, hrecount⟩ := hrefused.mp (hatomic rfl)
      refine ⟨.inr ⟨hlt, fun _ _ _ _ => hsettled⟩, ?_⟩
      rintro _ budget' status' rfl hbudget' _ _
      cases hbudget.symm.trans hbudget'
      exact hrecount
    · rintro ⟨⟨c, hhead, hc⟩ | ⟨-, hsettled⟩, hrecount⟩ -
      · exact absurd (hlt c (mem_of_mem_head? hhead)) (not_lt.mpr hc)
      · exact hrefused.mpr ⟨hsettled budget status hbudget hover,
          hrecount alloc budget status rfl hbudget (hchunks ▸ hlt) (hchunks ▸ hover)⟩
  | @granted alloc chunks lease uma' halloc hchunks hlt hn hlease hallocations hsessions hnext hsz
      haccount =>
    have hadmitted : ∀ budget status, uma.memoryTierBudget = some budget →
        budget.tryAcquireStable (uma.leaseBytes alloc chunks) ≠ .error status := by
      intro budget status hbudget hover
      rcases haccount with ⟨hnone, -⟩ | ⟨budget', _, hbudget', hok, -⟩
      · rw [hbudget] at hnone
        cases hnone
      · cases hbudget.symm.trans hbudget'
        rw [hover] at hok
        cases hok
    simp only [halloc, Option.some.injEq, forall_eq', ← hchunks]
    refine iff_of_true (by rintro ⟨⟩) ⟨.inr ⟨hlt, fun budget status hbudget hover => ?_⟩, ?_⟩
    · exact absurd hover (hadmitted budget status hbudget)
    · rintro _ budget status rfl hbudget _ hover
      exact absurd (hchunks ▸ hover) (hadmitted budget status hbudget)

/-- Why giving back leases ends early: the chunk does not exist, or its leases are all given back
by then. -/
lemma refuses_releaseLease (hheld : Accepts releaseLease unlease done records)
    (hidx : Refuses releaseLease (modifyChunks unlease done records) idx) :
    records.length ≤ idx.toNat ∨ ∃ record, records[idx.toNat]? = some record ∧
      record.stableLeaseCount.toNat = visits done idx.toNat := by
  cases hr : records[idx.toNat]? with
  | none => exact .inl (getElem?_eq_none_iff.mp hr)
  | some record =>
    refine .inr ⟨record, rfl, ?_⟩
    have hle := accepts_releaseLease_iff.mp hheld _ record hr
    obtain ⟨_, hstatus⟩ := hidx _ (by rw [getElem?_modifyChunks, hr]; rfl)
    have hzero : ¬ 0 < (unlease^[visits done idx.toNat] record).stableLeaseCount.toNat := by
      intro hpos
      obtain ⟨_, hok⟩ := releaseLease_ok_iff.mpr hpos
      rw [hok] at hstatus
      cases hstatus
    rw [toNat_iterate_unlease record hle] at hzero
    omega

/-- A list that is given back as a whole or not at all is refused at once if it is refused. -/
lemma done_eq_nil_of_releaseRestores
    (hdone : ∀ c ∈ done, c.toNat < alloc.numChunks)
    (hheld : Accepts releaseLease unlease done alloc.chunkRecords)
    (hidx : Refuses releaseLease (modifyChunks unlease done alloc.chunkRecords) idx)
    (h : ReleaseRestores (done ++ idx :: rest) alloc) : done = [] := by
  rcases h with ⟨c, hhead, hc | ⟨record, hr, hzero⟩⟩ | ⟨hlt, henough⟩
  · exact done_eq_nil_of_head hdone ⟨c, hhead, hc⟩
  · by_contra hne
    obtain ⟨_, hc', hhead'⟩ := head?_append_cons_of_ne_nil hne idx rest
    cases hhead'.symm.trans hhead
    have hle := accepts_releaseLease_iff.mp hheld _ record hr
    have hpos := visits_pos hc'
    rw [hzero, UInt32.toNat_zero] at hle
    omega
  · -- the refused chunk is named once more than it has leases
    rcases refuses_releaseLease hheld hidx with hle | ⟨record, hr, hcount⟩
    · exact absurd (hlt idx (by simp)) (not_lt.mpr hle)
    · have hle := henough _ record hr
      rw [visits_append, visits_cons, if_pos rfl] at hle
      omega

lemma failureAtomic_releaseStableLease_iff (key : ReplicaKey) (indices : List UInt32) :
    FailureAtomic uma ((Operation.releaseStableLease key indices).apply context uma) ↔
      RecordsRestored uma context (.releaseStableLease key indices) := by
  have h := unleased uma key indices
  simp only [Operation.apply, RecordsRestored]
  generalize uma.releaseStableLease key indices = result at h
  cases h with
  | notFound hnone =>
    refine iff_of_true (fun _ => ⟨keepsFacts_of_allocations rfl, rfl⟩) fun alloc halloc => ?_
    rw [hnone] at halloc
    cases halloc
  | @empty alloc halloc hn hindices =>
    refine iff_of_true (by rintro ⟨⟩) ((forall_live_iff halloc).mpr (.inr ?_))
    rw [hindices, hn]
    exact ⟨by simp [normalizeChunkIndices, allChunks], fun i record _ => Nat.zero_le _⟩
  | @cut alloc done idx rest status halloc hchunks hdone hheld hidx =>
    have hkeeps := keepsFacts_modifyChunks_iff (f := unlease) done halloc
    have hwhy := refuses_releaseLease hheld hidx
    rw [forall_live_iff halloc, hchunks]
    constructor
    · intro hatomic
      have hfacts := hkeeps.mp (hatomic rfl).1
      have hnil : done = [] := by
        by_contra hne
        obtain ⟨c, hc, -⟩ := head?_append_cons_of_ne_nil hne idx rest
        have hget := getElem?_eq_getElem (hdone c hc)
        refine facts_unlease_ne _ (visits_pos hc) ?_ (hfacts c.toNat _ hget)
        exact accepts_releaseLease_iff.mp hheld _ _ hget
      subst hnil
      refine .inl ⟨idx, rfl, hwhy.imp id ?_⟩
      rintro ⟨record, hr, hcount⟩
      exact ⟨record, hr, UInt32.toNat_inj.mp hcount⟩
    · intro hrestored _
      refine ⟨hkeeps.mpr fun i record hi => ?_, rfl⟩
      obtain rfl := done_eq_nil_of_releaseRestores hdone hheld hidx hrestored
      rfl
  | @done alloc chunks halloc hchunks hne hlt hheld =>
    refine iff_of_true (by rintro ⟨⟩) ((forall_live_iff halloc).mpr (.inr ?_))
    rw [← hchunks]
    exact ⟨hlt, accepts_releaseLease_iff.mp hheld⟩

/-! ## Exports and grants -/

def exportedTrue : ChunkRecord → ChunkRecord := exportTo (·.exportedCpu) (·.setExportedCpu true) true

lemma facts_exportedTrue (record : ChunkRecord) :
    (exportedTrue record).facts = { record.facts with exportedCpu := true } := by
  unfold exportedTrue exportTo
  split_ifs with h
  · rw [facts, ← h]
  · rfl

/-- An export that is refused changes a chunk unless it was exported before and is not pinned. -/
lemma facts_pin_exportedTrue_iff (record : ChunkRecord) {k m : ℕ} (hk : k ≤ 1) :
    (pin^[k] (exportedTrue^[m] record)).facts = record.facts ↔
      k = 0 ∧ (0 < m → record.exportedCpu = true) := by
  have hfacts : (exportedTrue^[m] record).facts =
      if 0 < m then { record.facts with exportedCpu := true } else record.facts := by
    cases m with
    | zero => rfl
    | succ m =>
      rw [facts_iterate_succ, facts_exportedTrue, if_pos m.succ_pos]
      · intro record
        rw [facts_exportedTrue, facts_exportedTrue]
        rfl
      · intro record
        rw [facts_exportedTrue, facts_exportedTrue]
  rcases Nat.le_one_iff_eq_zero_or_eq_one.mp hk with rfl | rfl
  · rw [Function.iterate_zero, id, hfacts]
    split_ifs with hm
    · constructor
      · intro h
        exact ⟨rfl, fun _ => (congrArg exportedCpu h).symm⟩
      · rintro ⟨-, h⟩
        simp [facts, h hm]
    · simp [hm]
  · refine iff_of_false (fun h => ?_) (by simp)
    have hpins : (exportedTrue^[m] record).pinRefcnt = record.pinRefcnt := by
      have := congrArg pinRefcnt hfacts
      split_ifs at this
      · exact this
      · exact this
    have hpin : (exportedTrue^[m] record).pinRefcnt + 1 = record.pinRefcnt :=
      (facts_eq_iff.mp h).2.2.2.2.1
    rw [hpins, ← UInt32.toNat_inj, UInt32.toNat_add, UInt32.toNat_one] at hpin
    omega

lemma mem_done_of_lt {chunks done rest : List UInt32} {idx c : UInt32}
    (hchunks : sortUnique chunks = done ++ rest) (hhead : idx ∈ rest.head?)
    (hidx : n ≤ idx.toNat) (hc : c ∈ chunks) (hlt : c.toNat < n) : c ∈ done := by
  have hmem := mem_sortUnique.mpr hc
  have hsorted := pairwise_sortUnique chunks
  obtain ⟨rest, rfl⟩ : ∃ tail, rest = idx :: tail := head?_eq_some_iff.mp hhead
  rw [hchunks] at hmem hsorted
  rcases mem_append.mp hmem with hdone | hrest
  · exact hdone
  · rcases mem_cons.mp hrest with rfl | htail
    · omega
    · have hlt' := (pairwise_cons.mp (pairwise_append.mp hsorted).2.1).1 c htail
      have := UInt32.lt_iff_toNat_lt.mp hlt'
      omega

lemma failureAtomic_setExported_iff (key : ReplicaKey) (location : MemoryLocation)
    (chunks : List UInt32) (on : Bool) :
    FailureAtomic uma ((Operation.setExported key location chunks on).apply context uma) ↔
      RecordsRestored uma context (.setExported key location chunks on) := by
  have h := exported uma context key location chunks on
  simp only [Operation.apply]
  generalize uma.setExported context key location chunks on = result at h
  cases h with
  | refused status hrefused =>
    refine iff_of_true (fun _ => ⟨keepsFacts_of_allocations rfl, rfl⟩) ?_
    rcases hrefused with hnone | ⟨hcpu, hgpu⟩
    · cases location <;> cases on <;> try trivial
      intro alloc halloc
      rw [hnone] at halloc
      cases halloc
    · cases location with
      | cpu => exact absurd rfl hcpu
      | _ => trivial
  | gpu registration halloc hlocation =>
    subst hlocation
    exact iff_of_true (by rintro ⟨⟩) trivial
  | cpuOff registration halloc hlocation hon =>
    subst hlocation hon
    exact iff_of_true (by rintro ⟨⟩) trivial
  | cpuOn alloc handle halloc hlocation hon hrecords hmutated hlt hbase =>
    subst hlocation hon
    refine iff_of_true (by rintro ⟨⟩) ((forall_live_iff halloc).mpr ?_)
    unfold ExportRestores
    split_ifs with hzero
    · intro c hc
      exact absurd hzero (hbase (ne_nil_of_mem hc))
    · exact .inl hlt
  | @cut alloc records done rest status halloc hlocation hon hrecords hchunks hdone hrest =>
    subst hlocation hon hrecords
    have hmem : ∀ c, c ∈ sortUnique (sortUnique chunks) ↔ c ∈ chunks :=
      fun c => mem_sortUnique.trans mem_sortUnique
    have hvisits : ∀ i, visits done i ≤ 1 := by
      intro i
      have hle := visits_sortUnique_le_one (sortUnique chunks) i
      rw [hchunks, visits_append] at hle
      omega
    have hkeeps : KeepsFacts uma (uma.setAllocation key
        { alloc with
          chunkRecords := modifyChunks pin done
            (modifyChunks exportedTrue (sortUnique chunks) alloc.chunkRecords) }) ↔
        ∀ (i : ℕ) (record : ChunkRecord), alloc.chunkRecords[i]? = some record →
          visits done i = 0 ∧ (0 < visits (sortUnique chunks) i → record.exportedCpu = true) := by
      rw [keepsFacts_insert_iff halloc rfl,
        sameFacts_of_getElem? fun i => by
            rw [getElem?_modifyChunks, getElem?_modifyChunks, Option.map_map]]
      exact forall₃_congr fun i record _ => facts_pin_exportedTrue_iff record (hvisits i)
    have hatomic : ∀ P : Prop, (false = false → P ∧ uma.budgetBytes = uma.budgetBytes) ↔ P := by
      simp
    refine (hatomic _).trans (hkeeps.trans ?_)
    rw [RecordsRestored, forall_live_iff halloc, ExportRestores]
    rcases hrest with ⟨hbase, rfl, -⟩ | ⟨hbase, idx, hhead, hidx⟩
    · rw [if_pos hbase]
      constructor
      · intro hall c hc record hr
        exact (hall _ record hr).2 (visits_pos (mem_sortUnique.mpr hc))
      · intro hexported i record hr
        refine ⟨rfl, fun hpos => ?_⟩
        obtain ⟨c, hc, rfl⟩ := exists_of_visits_pos hpos
        exact hexported c (mem_sortUnique.mp hc) record hr
    · rw [if_neg hbase]
      constructor
      · -- a chunk that exists has been pinned
        intro hall
        refine .inr fun c hc => not_lt.mp fun hlt => ?_
        have hpinned := mem_done_of_lt hchunks hhead hidx (mem_sortUnique.mpr hc) hlt
        have hzero := (hall _ _ (getElem?_eq_getElem hlt)).1
        exact absurd (visits_pos hpinned) (by omega)
      · rintro (hall | hnone)
        · have hidx' : idx ∈ chunks := by
            rw [← hmem, hchunks]
            exact mem_append_right _ (mem_of_mem_head? hhead)
          exact absurd (hall idx hidx') (not_lt.mpr hidx)
        · intro i record hr
          have hi : i < alloc.numChunks := (List.getElem?_eq_some_iff.mp hr).1
          refine ⟨visits_eq_zero fun c hc hci => ?_, fun hpos => ?_⟩
          · have hle := hnone c ((hmem c).mp (by simp [hchunks, hc]))
            omega
          · obtain ⟨c, hc, hci⟩ := exists_of_visits_pos hpos
            have hle := hnone c (mem_sortUnique.mp hc)
            omega

def isLedgerCall : Operation → Bool
  | .commit .. | .acquireStableLease .. | .releaseStableLease .. | .setExported ..
  | .grantDirectWrite .. => true
  | _ => false

/-- **When a failed call changes nothing.**  A vector has fewer than `2 ^ 63` elements. -/
theorem failureAtomic_iff (uma : UnifiedMemoryAuthority) (context : Context)
    (operation : Operation) (hcall : isLedgerCall operation = true)
    (hsize : ∀ key alloc, uma.allocation? key = some alloc → alloc.numChunks < 2 ^ 63) :
    FailureAtomic uma (operation.apply context uma) ↔
      RecordsRestored uma context operation ∧ RecountAgrees uma context operation := by
  cases operation with
  | commit sessionId target chunks deviceId =>
    exact (failureAtomic_commit_iff ..).trans (and_iff_left trivial).symm
  | acquireStableLease key indices => exact failureAtomic_acquireStableLease_iff key indices hsize
  | releaseStableLease key indices =>
    exact (failureAtomic_releaseStableLease_iff ..).trans (and_iff_left trivial).symm
  | setExported key location chunks on =>
    exact (failureAtomic_setExported_iff ..).trans (and_iff_left trivial).symm
  | grantDirectWrite key ranges =>
    refine iff_of_true ?_ ⟨trivial, trivial⟩
    simp only [Operation.apply]
    rcases granted uma key ranges with ⟨_, h⟩ | ⟨alloc, chunks, _, -, h⟩
    · rw [h]
      exact fun _ => ⟨keepsFacts_of_allocations rfl, rfl⟩
    · rw [h]
      rintro ⟨⟩
  | _ => cases hcall

/-- A replica of one chunk, with a budget that is too small for a lease. -/
def oneChunk (record : ChunkRecord) : UnifiedMemoryAuthority :=
  { chunkSizeBytes := 4096
    memoryTierBudget := some { stableTotalBytes := 1 }
    allocations := (∅ : AList fun _ : ReplicaKey => ReplicaAllocation).insert { artifactId := "a" }
      { cpuRegion := { base := 65536, bytes := 4096 }
        totalBytes := 4096
        chunkRecords := [record] } }

lemma allocation?_oneChunk {record : ChunkRecord} (h : (oneChunk record).allocation? key = some alloc) :
    alloc.chunkRecords = [record] := by
  rcases lookup_insert_cases h with ⟨-, rfl⟩ | ⟨-, h⟩
  · rfl
  · cases h

/-- A refused lease leaves a hot chunk as it was. -/
theorem failureAtomic_hot_chunk :
    ((Operation.acquireStableLease { artifactId := "a" } []).apply (.mapsAt 0)
      (oneChunk { cpu := .hot })).status.isOk = false ∧
    FailureAtomic (oneChunk { cpu := .hot })
      ((Operation.acquireStableLease { artifactId := "a" } []).apply (.mapsAt 0)
        (oneChunk { cpu := .hot })) := by
  refine ⟨by decide, (failureAtomic_iff _ _ _ rfl ?_).mpr ⟨?_, ?_⟩⟩
  · intro key alloc halloc
    rw [ReplicaAllocation.numChunks, allocation?_oneChunk halloc]
    decide
  · intro alloc halloc
    have hrecords := allocation?_oneChunk halloc
    have hone : alloc.numChunks = 1 := by rw [ReplicaAllocation.numChunks, hrecords]; rfl
    rw [AcquireRestores, hone, hrecords]
    refine .inr ⟨forall_mem_singleton.mpr (by decide), fun budget status _ _ i record hi _ => ?_⟩
    obtain rfl := mem_singleton.mp (mem_of_getElem? hi)
    exact ⟨lt_of_le_of_lt (Nat.add_le_add_left count_le_length _) (by decide), rfl⟩
  · intro alloc budget status _ hbudget _ _
    cases hbudget
    rfl

/-- A refused lease turns a cold chunk hot. -/
theorem refused_lease_warms_chunk :
    ∃ (outcome : Outcome) (alloc alloc' : ReplicaAllocation),
      outcome = (Operation.acquireStableLease { artifactId := "a" } []).apply (.mapsAt 0)
        (oneChunk {}) ∧
      outcome.status.isOk = false ∧
      (oneChunk {}).allocation? { artifactId := "a" } = some alloc ∧
      alloc.chunkRecords.map (·.cpu) = [.cold] ∧
      outcome.uma.allocation? { artifactId := "a" } = some alloc' ∧
      alloc'.chunkRecords.map (·.cpu) = [.hot] :=
  ⟨_, _, _, rfl, by decide, rfl, by decide, rfl, by decide⟩

end UnifiedMemoryAuthority

end TensorCast.Authority
