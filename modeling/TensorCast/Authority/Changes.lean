import TensorCast.Authority.Spec
import TensorCast.Lib.Values

/-!
# What an operation changes

The inversion of the exports, the grants and the policies, and then of every operation: the ledger
stays as it was, gains a replica, loses one, or one allocation changes in one of the ways that
`LedgerChange` lists.
-/

namespace TensorCast.Authority

open Core Lib ChunkRecord List
open Function (update)

namespace UnifiedMemoryAuthority

variable {uma uma' : UnifiedMemoryAuthority} {context : Context} {key other : ReplicaKey}
  {alloc alloc' : ReplicaAllocation}

/-! ## Exports -/

def exportTo (flag : ChunkRecord → Bool) (put : ChunkRecord → ChunkRecord) (on : Bool)
    (record : ChunkRecord) : ChunkRecord := if flag record = on then record else put record

variable {records : List ChunkRecord}

lemma modify_eq_self {i : ℕ} {f : ChunkRecord → ChunkRecord}
    (h : ∀ record, records[i]? = some record → f record = record) :
    records.modify i f = records := by
  refine ext_getElem? fun j => ?_
  rw [getElem?_modify]
  by_cases hij : i = j
  · subst hij
    cases hr : records[i]? with
    | none => rfl
    | some record => simp [h record hr]
  · simp [hij]

/-- The loop of an export: the records it gives, and that it notices a change. -/
lemma foldl_exportChunk (flag : ChunkRecord → Bool) (put : ChunkRecord → ChunkRecord) (on : Bool)
    (chunks : List UInt32) (records : List ChunkRecord) (mutated : Bool) :
    (chunks.foldl (exportChunk flag put on) (records, mutated)).1 =
        modifyChunks (exportTo flag put on) chunks records ∧
      ((chunks.foldl (exportChunk flag put on) (records, mutated)).2 = false →
        mutated = false ∧ modifyChunks (exportTo flag put on) chunks records = records) := by
  induction chunks generalizing records mutated with
  | nil => exact ⟨rfl, fun h => ⟨h, rfl⟩⟩
  | cons c chunks ih =>
    rw [foldl_cons, modifyChunks_cons]
    cases hr : records[c.toNat]? with
    | none =>
      rw [exportChunk, hr, modify_eq_self (by simp [hr])]
      exact ih records mutated
    | some record =>
      by_cases hflag : flag record = on
      · rw [exportChunk, hr, modify_eq_self (by simp [hr, exportTo, hflag])]
        simp only [if_pos hflag]
        exact ih records mutated
      · have hset : records.set c.toNat (put record) =
            records.modify c.toNat (exportTo flag put on) := by
          rw [modify_eq_set_getElem?, hr]
          simp [exportTo, hflag]
        rw [exportChunk, hr]
        simp only [if_neg hflag, hset]
        refine ⟨(ih _ true).1, fun h => ?_⟩
        cases ((ih _ true).2 h).1

/-! ## Pins -/

inductive Pinned (key : ReplicaKey) (alloc : ReplicaAllocation) (chunks : List UInt32) :
    ReplicaAllocation × StatusOr (Option PinHandle) → Prop
  | noRegion (status : Status) (hbase : alloc.cpuRegion.base = 0) (hne : chunks ≠ []) :
      Pinned key alloc chunks (alloc, .error status)
  | cut {done : List UInt32} {idx : UInt32} {rest : List UInt32} (status : Status)
      (hbase : alloc.cpuRegion.base ≠ 0) (hchunks : sortUnique chunks = done ++ idx :: rest)
      (hdone : ∀ c ∈ done, c.toNat < alloc.numChunks) (hidx : alloc.numChunks ≤ idx.toNat) :
      Pinned key alloc chunks
        ({ alloc with chunkRecords := modifyChunks pin done alloc.chunkRecords }, .error status)
  | done (handle : Option PinHandle) (hlt : ∀ c ∈ chunks, c.toNat < alloc.numChunks)
      (hhandle : ∀ h ∈ handle, h.key = key ∧ h.chunks = sortUnique chunks)
      (hsome : chunks ≠ [] → handle.isSome) (hbase : chunks ≠ [] → alloc.cpuRegion.base ≠ 0) :
      Pinned key alloc chunks
        ({ alloc with
            chunkRecords := modifyChunks pin (sortUnique chunks) alloc.chunkRecords },
          .ok handle)

lemma pinned (key : ReplicaKey) (alloc : ReplicaAllocation) (chunks : List UInt32) :
    Pinned key alloc chunks (pinChunks key alloc chunks) := by
  unfold pinChunks
  by_cases hnil : chunks = []
  · subst hnil
    exact .done none (by simp) (by simp) (by simp) (by simp)
  · rw [if_neg hnil]
    by_cases hbase : alloc.cpuRegion.base = 0
    · rw [if_pos hbase]
      exact .noRegion _ hbase hnil
    · rw [if_neg hbase]
      rcases walk_changeChunk pin (sortUnique chunks) alloc.chunkRecords with
        ⟨hw, hlt⟩ | ⟨done, _, _, status, hl, hw, hlt, hidx⟩ <;>
        simp only [show walk pinChunk (sortUnique chunks) alloc.chunkRecords = _ from hw]
      · exact .done _ (fun c hc => hlt c (mem_sortUnique.mpr hc)) (by simp) (by simp) fun _ => hbase
      · exact .cut status hbase hl hlt hidx

/-- What `set_exported` can lead to. -/
inductive Exported (uma : UnifiedMemoryAuthority) (context : Context) (key : ReplicaKey)
    (location : MemoryLocation) (chunks : List UInt32) (on : Bool) :
    UnifiedMemoryAuthority × StatusOr ExportRegistration → Prop
  | refused (status : Status)
      (h : uma.allocation? key = none ∨ location ≠ .cpu ∧ location ≠ .gpu) :
      Exported uma context key location chunks on (uma, .error status)
  | gpu {alloc : ReplicaAllocation} {devKey : DeviceKey} {records : List ChunkRecord}
      {mutated : Bool} (registration : ExportRegistration)
      (halloc : uma.allocation? key = some alloc) (hlocation : location = .gpu)
      (hrecords : records = modifyChunks
        (exportTo (·.exportedGpu devKey) (·.setExportedGpu devKey on) on) (sortUnique chunks)
        alloc.chunkRecords)
      (hmutated : mutated = false → records = alloc.chunkRecords)
      (hregistration : registration = ⟨coalesceRuns (sortUnique chunks), none⟩) :
      Exported uma context key location chunks on
        (uma.setAllocation key (withRecords alloc records mutated), .ok registration)
  | cpuOff {alloc : ReplicaAllocation} {records : List ChunkRecord} {mutated : Bool}
      (registration : ExportRegistration)
      (halloc : uma.allocation? key = some alloc) (hlocation : location = .cpu) (hon : on = false)
      (hrecords : records = modifyChunks (exportTo (·.exportedCpu) (·.setExportedCpu on) on)
        (sortUnique chunks) alloc.chunkRecords)
      (hmutated : mutated = false → records = alloc.chunkRecords)
      (hregistration : registration = ⟨coalesceRuns (sortUnique chunks), none⟩) :
      Exported uma context key location chunks on
        (uma.setAllocation key (withRecords alloc records mutated), .ok registration)
  | cpuOn (alloc : ReplicaAllocation) {records : List ChunkRecord} {mutated : Bool}
      (handle : Option PinHandle)
      (halloc : uma.allocation? key = some alloc) (hlocation : location = .cpu) (hon : on = true)
      (hrecords : records = modifyChunks (exportTo (·.exportedCpu) (·.setExportedCpu on) on)
        (sortUnique chunks) alloc.chunkRecords)
      (hmutated : mutated = false → records = alloc.chunkRecords)
      (hlt : ∀ c ∈ chunks, c.toNat < alloc.numChunks)
      (hbase : chunks ≠ [] → alloc.cpuRegion.base ≠ 0) :
      Exported uma context key location chunks on
        (uma.setAllocation key
          (withRecords alloc (modifyChunks pin (sortUnique (sortUnique chunks)) records) mutated),
          .ok ⟨coalesceRuns (sortUnique chunks), handle⟩)
  | cut (alloc : ReplicaAllocation) {records : List ChunkRecord} {done rest : List UInt32}
      (status : Status)
      (halloc : uma.allocation? key = some alloc) (hlocation : location = .cpu) (hon : on = true)
      (hrecords : records = modifyChunks (exportTo (·.exportedCpu) (·.setExportedCpu on) on)
        (sortUnique chunks) alloc.chunkRecords)
      (hchunks : sortUnique (sortUnique chunks) = done ++ rest)
      (hdone : ∀ c ∈ done, c.toNat < alloc.numChunks)
      (hrest : (alloc.cpuRegion.base = 0 ∧ done = [] ∧ chunks ≠ []) ∨
        (alloc.cpuRegion.base ≠ 0 ∧ ∃ idx ∈ rest.head?, alloc.numChunks ≤ idx.toNat)) :
      Exported uma context key location chunks on
        (uma.setAllocation key
          { alloc with chunkRecords := modifyChunks pin done records },
          .error status)

lemma exported (uma : UnifiedMemoryAuthority) (context : Context) (key : ReplicaKey)
    (location : MemoryLocation) (chunks : List UInt32) (on : Bool) :
    Exported uma context key location chunks on
      (uma.setExported context key location chunks on) := by
  cases halloc : uma.allocation? key with
  | none => simpa only [setExported, halloc] using .refused _ (.inl halloc)
  | some alloc =>
    simp only [setExported, halloc]
    cases location with
    | none => exact .refused _ (.inr ⟨nofun, nofun⟩)
    | disk => exact .refused _ (.inr ⟨nofun, nofun⟩)
    | remote => exact .refused _ (.inr ⟨nofun, nofun⟩)
    | gpu =>
      obtain ⟨hrecords, hmutated⟩ := foldl_exportChunk
        (·.exportedGpu (context.registry.gpuKey key.device.ordinal))
        (·.setExportedGpu (context.registry.gpuKey key.device.ordinal) on) on (sortUnique chunks)
        alloc.chunkRecords false
      refine .gpu _ halloc rfl hrecords (fun h => ?_) rfl
      exact hrecords.trans (hmutated h).2
    | cpu =>
      obtain ⟨hrecords, hmutated⟩ := foldl_exportChunk (·.exportedCpu) (·.setExportedCpu on) on
        (sortUnique chunks) alloc.chunkRecords false
      have hmutated' : (exportCpuChunks on (sortUnique chunks) alloc.chunkRecords).2 = false →
          (exportCpuChunks on (sortUnique chunks) alloc.chunkRecords).1 = alloc.chunkRecords :=
        fun h => hrecords.trans (hmutated h).2
      have hrecords' : (exportCpuChunks on (sortUnique chunks) alloc.chunkRecords).1 = _ := hrecords
      generalize exportCpuChunks on (sortUnique chunks) alloc.chunkRecords = result at *
      obtain ⟨records, _⟩ := result
      have hlength : records.length = alloc.numChunks := by
        rw [show records = _ from hrecords', length_modifyChunks]
        rfl
      cases on with
      | false => exact .cpuOff _ halloc rfl rfl hrecords' hmutated' rfl
      | true =>
        have hpin := pinned key { alloc with chunkRecords := records } (sortUnique chunks)
        generalize pinChunks key { alloc with chunkRecords := records } (sortUnique chunks) = pins
          at hpin
        cases hpin with
        | noRegion status hbase hne =>
          refine .cut alloc status halloc rfl rfl hrecords' (nil_append _).symm (by simp) ?_
          exact .inl ⟨hbase, rfl, fun h => hne (sortUnique_eq_nil.mpr h)⟩
        | @cut done idx rest status hbase hchunks hdone hidx =>
          refine .cut alloc status halloc rfl rfl hrecords' hchunks (fun c hc => ?_)
            (.inr ⟨hbase, idx, rfl, ?_⟩)
          · exact (hdone c hc).trans_eq hlength
          · exact hlength.symm.trans_le hidx
        | done handle hlt hhandle hsome hbase =>
          exact .cpuOn alloc handle halloc rfl rfl hrecords' hmutated'
            (fun c hc => (hlt c (mem_sortUnique.mpr hc)).trans_eq hlength)
            fun hne => hbase fun hnil => hne (sortUnique_eq_nil.mp hnil)

/-! ## Direct writes -/

variable {chunkSizeBytes : UInt64}

lemma lt_of_mem_rangeChunks {n : ℕ} {range : VaRange} {c : UInt32}
    (h : c ∈ rangeChunks chunkSizeBytes n range) : c.toNat < n := by
  obtain ⟨i, hi, rfl⟩ := mem_map.mp h
  have hlt := mem_range.mp (mem_filter.mp hi).1
  exact (Nat.mod_le _ _).trans_lt hlt

lemma lt_of_grantChunks {ranges : List VaRange} {chunks : List UInt32}
    (h : grantChunks chunkSizeBytes alloc ranges = .ok chunks) :
    ∀ c ∈ chunks, c.toNat < alloc.numChunks := by
  induction ranges generalizing chunks with
  | nil =>
    cases h
    simp
  | cons range rest ih =>
    rw [grantChunks] at h
    split_ifs at h
    · exact ih h
    · obtain ⟨_, htail, hok⟩ := bind_eq_ok.mp h
      cases hok
      exact forall_mem_append.mpr ⟨fun _ => lt_of_mem_rangeChunks, ih htail⟩

/-- A grant pins chunks or changes nothing: the chunks it pins all exist. -/
lemma granted (uma : UnifiedMemoryAuthority) (key : ReplicaKey) (ranges : List VaRange) :
    (∃ status, uma.grantDirectWrite key ranges = (uma, .error status)) ∨
      ∃ alloc chunks grant, uma.allocation? key = some alloc ∧
        uma.grantDirectWrite key ranges =
          (uma.setAllocation key
            { alloc with chunkRecords := modifyChunks pin chunks alloc.chunkRecords },
            .ok grant) := by
  cases halloc : uma.allocation? key with
  | none => exact .inl ⟨_, by simp only [grantDirectWrite, halloc]; rfl⟩
  | some alloc =>
    by_cases hbase : alloc.cpuRegion.base = 0
    · exact .inl ⟨_, by simp only [grantDirectWrite, halloc, if_pos hbase]; rfl⟩
    · cases hchunks : grantChunks uma.chunkSizeBytes alloc ranges with
      | error status =>
        exact .inl ⟨status, by simp only [grantDirectWrite, halloc, if_neg hbase, hchunks]⟩
      | ok chunks =>
        have hlt := lt_of_grantChunks hchunks
        have hpin := pinned key alloc (sortUnique chunks)
        cases hpins : pinChunks key alloc (sortUnique chunks) with
        | mk alloc' result =>
          rw [hpins] at hpin
          cases hpin with
          | noRegion status hzero => exact absurd hzero hbase
          | @cut done idx rest status _ hsort hdone hidx =>
            have hmem : idx ∈ sortUnique (sortUnique chunks) := by simp [hsort]
            have := hlt idx (mem_sortUnique.mp (mem_sortUnique.mp hmem))
            omega
          | done handle =>
            exact .inr ⟨alloc, _, _, rfl, by
              simp only [grantDirectWrite, halloc, if_neg hbase, hchunks, hpins]; rfl⟩

/-! ## Giving pages back -/

lemma eligible_of_mem {indices eligible : List UInt32}
    (h : eligibleChunks records indices = .ok eligible) :
    ∀ c ∈ eligible, ∃ record, records[c.toNat]? = some record ∧
      record.stableLeaseCount = 0 := by
  induction indices generalizing eligible with
  | nil =>
    cases h
    simp
  | cons idx rest ih =>
    rw [eligibleChunks] at h
    cases hr : records[idx.toNat]? with
    | none => simp [hr] at h
    | some record =>
      simp only [hr] at h
      obtain ⟨_, htail, hok⟩ := bind_eq_ok.mp h
      intro c hc
      rw [← Except.ok.inj hok] at hc
      split_ifs at hc with hkept
      · exact ih htail c hc
      · rcases mem_cons.mp hc with rfl | hc
        · refine ⟨record, hr, ?_⟩
          by_contra hne
          exact (not_or.mp hkept).1 (UInt32.pos_iff_ne_zero.mpr hne)
        · exact ih htail c hc

lemma marked (uma : UnifiedMemoryAuthority) (os : Os) (key : ReplicaKey)
    (alloc : ReplicaAllocation) (indices : List UInt32) :
    (uma.markChunksPreemptible os key alloc indices).1 = uma ∨
      ∃ eligible, eligibleChunks alloc.chunkRecords indices = .ok eligible ∧
        (uma.markChunksPreemptible os key alloc indices).1 =
          (uma.setAllocation key
            (withRecords alloc
              (modifyChunks markPreemptible eligible alloc.chunkRecords)
              true)).updatePreemptibleBudget os ∧
        (uma.markChunksPreemptible os key alloc indices).2.2 = .ok () := by
  unfold markChunksPreemptible
  cases heligible : eligibleChunks alloc.chunkRecords indices with
  | error status => exact .inl rfl
  | ok eligible =>
    dsimp only
    by_cases hnil : eligible = []
    · rw [if_pos hnil]
      exact .inl rfl
    · rw [if_neg hnil]
      rcases uma.cpuArena.markPreemptible os alloc eligible with ⟨-, _ | _⟩
      · exact .inl rfl
      · exact .inr ⟨eligible, rfl, rfl, rfl⟩

/-! ## Every operation -/

/-- The ways in which an operation changes a live allocation, and whether it then succeeds. -/
inductive LedgerChange (uma : UnifiedMemoryAuthority) (context : Context) :
    Operation → ReplicaKey → ReplicaAllocation → Bool → ReplicaAllocation → Prop
  | counters (operation : Operation) (key : ReplicaKey) (alloc : ReplicaAllocation)
      (gpuAllocations : DeviceKey → Option UInt64)
      (loadedChunkCounts : DeviceKey → Option UInt64) :
      LedgerChange uma context operation key alloc true
        { alloc with gpuAllocations, loadedChunkCounts }
  | gpuReleased {key : ReplicaKey} {deviceId : Int32} {dropAllocation : Bool}
      (alloc : ReplicaAllocation) {devKey : DeviceKey}
      (gpuAllocations : DeviceKey → Option UInt64)
      (loadedChunkCounts : DeviceKey → Option UInt64) :
      LedgerChange uma context (.releaseGpuDevice key deviceId dropAllocation) key alloc true
        { alloc with
          gpuAllocations
          loadedChunkCounts
          chunkRecords := alloc.chunkRecords.map (·.evictGpu devKey)
          ledgerVersion :=
            if alloc.chunkRecords.any fun record => (record.gpu devKey).isSome then
              alloc.ledgerVersion + 1
            else alloc.ledgerVersion }
  | committed {sessionId : UInt64} {target : MemoryLocation} {chunks : List UInt32}
      {deviceId : Option Int32} {session : SessionRecord} (alloc : ReplicaAllocation)
      {f : ChunkRecord → ChunkRecord} (loadedChunkCounts : DeviceKey → Option UInt64)
      (hsession : uma.sessions sessionId = some session)
      (hf : commitChange context target (deviceId.or session.deviceId) = some f)
      (hlt : ∀ c ∈ committedChunks session chunks, c.toNat < alloc.numChunks) :
      LedgerChange uma context (.commit sessionId target chunks deviceId) session.key alloc true
        { alloc with
          chunkRecords := modifyChunks f (committedChunks session chunks) alloc.chunkRecords
          loadedChunkCounts
          ledgerVersion := alloc.ledgerVersion + 1 }
  | commitCut {sessionId : UInt64} {target : MemoryLocation} {chunks : List UInt32}
      {deviceId : Option Int32} {session : SessionRecord} (alloc : ReplicaAllocation)
      {f : ChunkRecord → ChunkRecord} {done : List UInt32} {idx : UInt32} {rest : List UInt32}
      (loadedChunkCounts : DeviceKey → Option UInt64)
      (hsession : uma.sessions sessionId = some session)
      (hf : commitChange context target (deviceId.or session.deviceId) = some f)
      (hchunks : committedChunks session chunks = done ++ idx :: rest)
      (hdone : ∀ c ∈ done, c.toNat < alloc.numChunks) (hidx : alloc.numChunks ≤ idx.toNat) :
      LedgerChange uma context (.commit sessionId target chunks deviceId) session.key alloc false
        { alloc with
          chunkRecords := modifyChunks f done alloc.chunkRecords
          loadedChunkCounts }
  | leased {key : ReplicaKey} {indices chunks : List UInt32} (alloc : ReplicaAllocation)
      (hchunks : chunks = normalizeChunkIndices indices alloc.numChunks)
      (hlt : ∀ c ∈ chunks, c.toNat < alloc.numChunks) :
      LedgerChange uma context (.acquireStableLease key indices) key alloc true
        { alloc with
          chunkRecords := modifyChunks lease chunks alloc.chunkRecords
          ledgerVersion := alloc.ledgerVersion + 1 }
  | leaseCut {key : ReplicaKey} {indices : List UInt32} (alloc : ReplicaAllocation)
      {done : List UInt32} {idx : UInt32} {rest : List UInt32}
      (hchunks : normalizeChunkIndices indices alloc.numChunks = done ++ idx :: rest)
      (hdone : ∀ c ∈ done, c.toNat < alloc.numChunks) (hidx : alloc.numChunks ≤ idx.toNat) :
      LedgerChange uma context (.acquireStableLease key indices) key alloc false
        { alloc with chunkRecords := modifyChunks lease done alloc.chunkRecords }
  | leaseRefused {key : ReplicaKey} {indices chunks : List UInt32} {budget : MemoryTierBudget}
      {status : Status} (alloc : ReplicaAllocation)
      (hchunks : chunks = normalizeChunkIndices indices alloc.numChunks)
      (hlt : ∀ c ∈ chunks, c.toNat < alloc.numChunks)
      (hbudget : uma.memoryTierBudget = some budget)
      (hover : budget.tryAcquireStable (uma.leaseBytes alloc chunks) = .error status) :
      LedgerChange uma context (.acquireStableLease key indices) key alloc false
        { alloc with
          chunkRecords := modifyChunks rollbackLease chunks
            (modifyChunks lease chunks alloc.chunkRecords) }
  | unleased {key : ReplicaKey} {indices chunks : List UInt32} (alloc : ReplicaAllocation)
      (hchunks : chunks = normalizeChunkIndices indices alloc.numChunks)
      (hlt : ∀ c ∈ chunks, c.toNat < alloc.numChunks)
      (hheld : Accepts releaseLease unlease chunks alloc.chunkRecords) :
      LedgerChange uma context (.releaseStableLease key indices) key alloc true
        { alloc with
          chunkRecords := modifyChunks unlease chunks alloc.chunkRecords
          ledgerVersion := alloc.ledgerVersion + 1 }
  | unleaseCut {key : ReplicaKey} {indices : List UInt32} (alloc : ReplicaAllocation)
      {done : List UInt32} {idx : UInt32} {rest : List UInt32}
      (hchunks : normalizeChunkIndices indices alloc.numChunks = done ++ idx :: rest)
      (hdone : ∀ c ∈ done, c.toNat < alloc.numChunks)
      (hheld : Accepts releaseLease unlease done alloc.chunkRecords)
      (hidx : Refuses releaseLease (modifyChunks unlease done alloc.chunkRecords) idx) :
      LedgerChange uma context (.releaseStableLease key indices) key alloc false
        { alloc with chunkRecords := modifyChunks unlease done alloc.chunkRecords }
  | exportedGpu {key : ReplicaKey} {chunks : List UInt32} {on : Bool} {devKey : DeviceKey}
      {records : List ChunkRecord} {mutated : Bool} (alloc : ReplicaAllocation)
      (hrecords : records = modifyChunks
        (exportTo (·.exportedGpu devKey) (·.setExportedGpu devKey on) on) (sortUnique chunks)
        alloc.chunkRecords)
      (hmutated : mutated = false → records = alloc.chunkRecords) :
      LedgerChange uma context (.setExported key .gpu chunks on) key alloc true
        (withRecords alloc records mutated)
  | exportedCpu {key : ReplicaKey} {chunks : List UInt32} {on : Bool}
      {records : List ChunkRecord} {mutated : Bool} (alloc : ReplicaAllocation)
      (pins : List UInt32)
      (hrecords : records = modifyChunks (exportTo (·.exportedCpu) (·.setExportedCpu on) on)
        (sortUnique chunks) alloc.chunkRecords)
      (hmutated : mutated = false → records = alloc.chunkRecords) :
      LedgerChange uma context (.setExported key .cpu chunks on) key alloc true
        (withRecords alloc (modifyChunks pin pins records) mutated)
  | exportCut {key : ReplicaKey} {chunks : List UInt32} {records : List ChunkRecord}
      {done rest : List UInt32} (alloc : ReplicaAllocation)
      (hrecords : records = modifyChunks (exportTo (·.exportedCpu) (·.setExportedCpu true) true)
        (sortUnique chunks) alloc.chunkRecords)
      (hchunks : sortUnique (sortUnique chunks) = done ++ rest)
      (hdone : ∀ c ∈ done, c.toNat < alloc.numChunks)
      (hrest : (alloc.cpuRegion.base = 0 ∧ done = [] ∧ chunks ≠ []) ∨
        (alloc.cpuRegion.base ≠ 0 ∧ ∃ idx ∈ rest.head?, alloc.numChunks ≤ idx.toNat)) :
      LedgerChange uma context (.setExported key .cpu chunks true) key alloc false
        { alloc with chunkRecords := modifyChunks pin done records }
  | granted {key : ReplicaKey} {ranges : List VaRange} (alloc : ReplicaAllocation)
      (chunks : List UInt32) :
      LedgerChange uma context (.grantDirectWrite key ranges) key alloc true
        { alloc with chunkRecords := modifyChunks pin chunks alloc.chunkRecords }
  | unpinned {handle : PinHandle} (alloc : ReplicaAllocation) (chunks : List UInt32) :
      LedgerChange uma context (.dropPins handle) handle.key alloc true
        { alloc with chunkRecords := modifyChunks unpin chunks alloc.chunkRecords }
  | marked {operation : Operation} {key : ReplicaKey} (alloc : ReplicaAllocation)
      {indices eligible : List UInt32}
      (heligible : eligibleChunks alloc.chunkRecords indices = .ok eligible) :
      LedgerChange uma context operation key alloc true
        (withRecords alloc (modifyChunks markPreemptible eligible alloc.chunkRecords) true)

variable {operation : Operation} {ok : Bool}

/-- A change keeps the memory of the replica and the number of its chunks. -/
lemma LedgerChange.shape (h : LedgerChange uma context operation key alloc ok alloc') :
    alloc'.cpuRegion = alloc.cpuRegion ∧ alloc'.totalBytes = alloc.totalBytes ∧
      alloc'.numChunks = alloc.numChunks := by
  cases h with
  | counters => exact ⟨rfl, rfl, rfl⟩
  | gpuReleased => exact ⟨rfl, rfl, length_map _⟩
  | exportedGpu _ hrecords =>
    subst hrecords
    exact ⟨rfl, rfl, length_modifyChunks⟩
  | exportedCpu _ pins hrecords =>
    subst hrecords
    exact ⟨rfl, rfl, length_modifyChunks.trans length_modifyChunks⟩
  | exportCut _ hrecords =>
    subst hrecords
    exact ⟨rfl, rfl, length_modifyChunks.trans length_modifyChunks⟩
  | leaseRefused =>
    exact ⟨rfl, rfl, length_modifyChunks.trans length_modifyChunks⟩
  | _ => exact ⟨rfl, rfl, length_modifyChunks⟩

inductive Effect (uma : UnifiedMemoryAuthority) (context : Context) (operation : Operation)
    (uma' : UnifiedMemoryAuthority) (ok : Bool) : Prop
  | kept (hallocations : uma'.allocations = uma.allocations)
  | allocated {key : ReplicaKey} {bytes : UInt64} {cpuRegion : CpuRegion}
      (hop : operation = .allocate key bytes) (halloc : uma.allocation? key = none)
      (hregion : uma.cpuArena.allocateRegion context.os bytes = .ok cpuRegion)
      (hallocations : uma'.allocations =
        uma.allocations.insert key (newAllocation uma.chunkSizeBytes bytes cpuRegion))
  | released {key : ReplicaKey} {alloc : ReplicaAllocation} (hop : operation = .release key)
      (halloc : uma.allocation? key = some alloc)
      (hallocations : uma'.allocations = uma.allocations.erase key)
  | changed {key : ReplicaKey} {alloc alloc' : ReplicaAllocation}
      (halloc : uma.allocation? key = some alloc)
      (hchange : LedgerChange uma context operation key alloc ok alloc')
      (hallocations : uma'.allocations = uma.allocations.insert key alloc')

lemma Effect.forall_allocation
    {P : ReplicaKey → ReplicaAllocation → Prop} (h : Effect uma context operation uma' ok)
    (hold : ∀ key alloc, uma.allocation? key = some alloc → P key alloc)
    (hnew : ∀ key bytes region, operation = .allocate key bytes →
      uma.cpuArena.allocateRegion context.os bytes = .ok region →
      P key (newAllocation uma.chunkSizeBytes bytes region))
    (hchange : ∀ key alloc alloc', uma.allocation? key = some alloc →
      LedgerChange uma context operation key alloc ok alloc' → P key alloc → P key alloc') :
    ∀ key alloc, uma'.allocation? key = some alloc → P key alloc := by
  intro other alloc hother
  unfold allocation? at hother
  cases h with
  | kept hallocations =>
    rw [hallocations] at hother
    exact hold other alloc hother
  | allocated hop _ hregion hallocations =>
    rw [hallocations] at hother
    exact forall_lookup_insert (hnew _ _ _ hop hregion) hold other alloc hother
  | released _ _ hallocations =>
    rw [hallocations] at hother
    exact hold other alloc (lookup_erase_cases hother).2
  | changed halloc hchanged hallocations =>
    rw [hallocations] at hother
    exact forall_lookup_insert (hchange _ _ _ halloc hchanged (hold _ _ halloc)) hold other alloc
      hother

/-- What operations keep beside the allocations: all the chunk size, most also the sessions and the
stable bytes of the budget. -/
structure Rest (operation : Operation) (uma uma' : UnifiedMemoryAuthority) : Prop where
  chunkSizeBytes : uma'.chunkSizeBytes = uma.chunkSizeBytes
  sessions : (∃ key target deviceId chunkIndices,
      operation = .planLoad key target deviceId chunkIndices) ∨
    (∃ sessionId target chunks deviceId, operation = .commit sessionId target chunks deviceId) ∨
    (∃ sessionId, operation = .abort sessionId) ∨
    uma'.sessions = uma.sessions ∧ uma'.nextSessionId = uma.nextSessionId
  account : (∃ key indices, operation = .acquireStableLease key indices) ∨
    (∃ key indices, operation = .releaseStableLease key indices) ∨ uma'.account = uma.account

lemma SameLedger.rest (h : SameLedger uma uma') : Rest operation uma uma' :=
  ⟨h.chunkSizeBytes, .inr (.inr (.inr ⟨h.sessions, h.nextSessionId⟩)), .inr (.inr h.account)⟩

/-- What an operation does to the allocations, and what it leaves alone beside them. -/
structure Applied (uma : UnifiedMemoryAuthority) (context : Context) (operation : Operation)
    (uma' : UnifiedMemoryAuthority) (ok : Bool) : Prop where
  effect : Effect uma context operation uma' ok
  rest : Rest operation uma uma'

lemma SameLedger.applied (h : SameLedger uma uma') : Applied uma context operation uma' ok :=
  ⟨.kept h.allocations, h.rest⟩

lemma Applied.kept : Applied uma context operation uma ok :=
  (SameLedger.refl uma).applied

lemma Applied.changed (halloc : uma.allocation? key = some alloc)
    (hchange : LedgerChange uma context operation key alloc ok alloc')
    (hsame : SameLedger (uma.setAllocation key alloc') uma') :
    Applied uma context operation uma' ok :=
  ⟨.changed halloc hchange hsame.allocations, hsame.chunkSizeBytes,
    .inr (.inr (.inr ⟨hsame.sessions, hsame.nextSessionId⟩)), .inr (.inr hsame.account)⟩

section

variable (uma context key)

def Applies (operation : Operation) : Prop :=
  Applied uma context operation (operation.apply context uma).uma
    (operation.apply context uma).status.isOk

lemma applied_allocate (bytes : UInt64) : Applies uma context (.allocate key bytes) := by
  simp only [Applies, Operation.apply, allocate]
  cases halloc : uma.allocation? key with
  | some alloc => exact .kept
  | none =>
    cases hregion : uma.cpuArena.allocateRegion context.os bytes with
    | error status => exact .kept
    | ok cpuRegion =>
      exact ⟨.allocated rfl halloc hregion rfl, rfl, .inr (.inr (.inr ⟨rfl, rfl⟩)), .inr (.inr rfl)⟩

variable (deviceId : Int32)

lemma applied_getOrCreateGpuAllocation (allocated : StatusOr UInt64) :
    Applies uma context (.getOrCreateGpuAllocation key deviceId allocated) := by
  simp only [Applies, Operation.apply, getOrCreateGpuAllocation]
  cases halloc : uma.allocation? key with
  | none => exact .kept
  | some alloc =>
    dsimp only
    cases alloc.gpuAllocations (context.registry.gpuKey deviceId) with
    | some base => exact .kept
    | none =>
      cases allocated with
      | error status => exact .kept
      | ok base => exact .changed halloc (.counters _ _ _ _ _) (.refl _)

lemma applied_release : Applies uma context (.release key) := by
  simp only [Applies, Operation.apply, release]
  cases halloc : uma.allocation? key with
  | none => exact .kept
  | some alloc =>
    exact ⟨.released rfl halloc rfl, rfl, .inr (.inr (.inr ⟨rfl, rfl⟩)), .inr (.inr rfl)⟩

lemma applied_releaseGpuDevice (dropAllocation : Bool) :
    Applies uma context (.releaseGpuDevice key deviceId dropAllocation) := by
  simp only [Applies, Operation.apply, releaseGpuDevice]
  cases halloc : uma.allocation? key with
  | none => exact .kept
  | some alloc =>
    dsimp only
    by_cases hexported : 0 < (alloc.chunkRecords.filter
        (·.exportedGpu (context.registry.gpuKey deviceId))).length
    · rw [if_pos hexported]
      exact .kept
    · rw [if_neg hexported]
      exact .changed halloc (.gpuReleased alloc _ _) (.refl _)

lemma applied_isGpuLoadingComplete :
    Applies uma context (.isGpuLoadingComplete key deviceId) := by
  simp only [Applies, Operation.apply, isGpuLoadingComplete]
  cases halloc : uma.allocation? key with
  | none => exact .kept
  | some alloc =>
    dsimp only
    split_ifs
    · exact .kept
    · exact .changed halloc (.counters _ _ _ _ _) (.refl _)

section

variable (target : MemoryLocation) (deviceId : Option Int32)

lemma applied_getMissingChunks : Applies uma context (.getMissingChunks key target deviceId) := by
  simp only [Applies, Operation.apply, getMissingChunks]
  cases uma.allocation? key with
  | none => exact .kept
  | some alloc =>
    split_ifs
    · exact (sameLedger_recordFaults _ _ _ _).applied
    · exact .kept

/-- Planning changes the sessions and telemetry only. -/
lemma planLoad_cases (chunkIndices : Option (List UInt32)) :
    (∃ status, uma.planLoad context key target deviceId chunkIndices = (uma, .error status)) ∨
      ∃ uma₁ plan, SameLedger uma uma₁ ∧
        uma.planLoad context key target deviceId chunkIndices =
          ({ uma₁.setSession uma.nextSessionId
                (some { key, target, deviceId, chunks := plan.chunkIndices }) with
              nextSessionId := uma.nextSessionId + 1 }, .ok plan) := by
  cases halloc : uma.allocation? key with
  | none => exact .inl ⟨_, by simp only [planLoad, halloc]; rfl⟩
  | some alloc =>
    simp only [planLoad, halloc]
    obtain ⟨planned, hplanned⟩ : ∃ planned, planned = if chunkIndices.getD [] = [] then
      getMissingChunksLocked context alloc target deviceId else chunkIndices.getD [] := ⟨_, rfl⟩
    rw [← hplanned]
    by_cases hnone : planned = [] ∧ target ≠ .cpu
    · rw [if_pos hnone]
      exact .inl ⟨_, rfl⟩
    · rw [if_neg hnone]
      obtain ⟨chunks, hchunks⟩ : ∃ chunks, chunks = sortUnique
        (if planned = [] then allChunks alloc.numChunks else planned) := ⟨_, rfl⟩
      rw [← hchunks]
      by_cases hrequested : chunkIndices.getD [] = []
      · simp only [if_pos hrequested]
        exact .inr ⟨uma, ⟨_, _, chunks⟩, .refl uma, rfl⟩
      · simp only [if_neg hrequested]
        have hsame := sameLedger_recordFaults uma context.os key (chunks.filter fun idx =>
          (alloc.chunkRecords[idx.toNat]?).any fun record =>
            uma.isFaulted context.os alloc record idx)
        rw [hsame.nextSessionId]
        exact .inr ⟨_, ⟨_, _, chunks⟩, hsame, rfl⟩

lemma applied_planLoad (chunkIndices : Option (List UInt32)) :
    Applies uma context (.planLoad key target deviceId chunkIndices) := by
  simp only [Applies, Operation.apply]
  rcases planLoad_cases uma context key target deviceId chunkIndices with
    ⟨_, h⟩ | ⟨_, _, hsame, h⟩
  · rw [h]
    exact .kept
  · rw [h]
    exact ⟨.kept hsame.allocations, hsame.chunkSizeBytes, .inl ⟨_, _, _, _, rfl⟩,
      .inr (.inr hsame.account)⟩

end

lemma applied_commit (sessionId : UInt64)
    (target : MemoryLocation) (chunks : List UInt32) (deviceId : Option Int32) :
    Applies uma context (.commit sessionId target chunks deviceId) := by
  simp only [Applies, Operation.apply]
  have h := committed uma context sessionId target chunks deviceId
  generalize uma.commit context sessionId target chunks deviceId = result at h
  cases h with
  | noSession => exact .kept
  | refused => exact .kept
  | closed => exact ⟨.kept rfl, rfl, .inr (.inl ⟨_, _, _, _, rfl⟩), .inr (.inr rfl)⟩
  | cut counts status hsession halloc hf hchunks hdone hidx hsame hbytes =>
    refine .changed halloc (.commitCut _ counts hsession hf hchunks hdone hidx)
      ⟨?_, hsame.sessions, hsame.nextSessionId, hsame.chunkSizeBytes, hsame.account⟩
    rw [setAllocation, hsame.allocations]
    rfl
  | done counts hsession halloc hf hlt hne hsame =>
    exact ⟨.changed halloc (.committed _ counts hsession hf hlt) hsame.allocations,
      hsame.chunkSizeBytes, .inr (.inl ⟨_, _, _, _, rfl⟩), .inr (.inr hsame.account)⟩

lemma applied_acquireStableLease (indices : List UInt32) :
    Applies uma context (.acquireStableLease key indices) := by
  simp only [Applies, Operation.apply]
  have h := acquired uma context key indices
  generalize uma.acquireStableLease context key indices = result at h
  cases h with
  | refused => exact .kept
  | cut status halloc hchunks hdone hidx =>
    exact .changed halloc (.leaseCut _ hchunks hdone hidx) (.refl _)
  | overBudget halloc hchunks hlt hn hbudget hover =>
    exact .changed halloc (.leaseRefused _ hchunks hlt hbudget hover)
      (sameLedger_updatePreemptibleBudget _ _)
  | granted lease uma' halloc hchunks hlt hn hlease hallocations hsessions hnext hsize =>
    exact ⟨.changed halloc (.leased _ hchunks hlt) hallocations, hsize,
      .inr (.inr (.inr ⟨hsessions, hnext⟩)), .inl ⟨_, _, rfl⟩⟩

lemma applied_releaseStableLease (indices : List UInt32) :
    Applies uma context (.releaseStableLease key indices) := by
  simp only [Applies, Operation.apply]
  have h := unleased uma key indices
  generalize uma.releaseStableLease key indices = result at h
  cases h with
  | notFound => exact .kept
  | empty => exact .kept
  | cut status halloc hchunks hdone hheld hidx =>
    exact .changed halloc (.unleaseCut _ hchunks hdone hheld hidx) (.refl _)
  | done halloc hchunks hne hlt hheld =>
    exact ⟨.changed halloc (.unleased _ hchunks hlt hheld) rfl, rfl, .inr (.inr (.inr ⟨rfl, rfl⟩)),
      .inr (.inl ⟨_, _, rfl⟩)⟩

lemma applied_setExported (location : MemoryLocation) (chunks : List UInt32) (on : Bool) :
    Applies uma context (.setExported key location chunks on) := by
  simp only [Applies, Operation.apply]
  have h := exported uma context key location chunks on
  generalize uma.setExported context key location chunks on = result at h
  cases h with
  | refused => exact .kept
  | gpu registration halloc hlocation hrecords hmutated =>
    subst hlocation
    exact .changed halloc (.exportedGpu _ hrecords hmutated) (.refl _)
  | cpuOff registration halloc hlocation hon hrecords hmutated =>
    subst hlocation
    exact .changed halloc (.exportedCpu _ [] hrecords hmutated) (.refl _)
  | cpuOn alloc handle halloc hlocation hon hrecords hmutated hlt =>
    subst hlocation
    exact .changed halloc (.exportedCpu _ _ hrecords hmutated) (.refl _)
  | cut alloc status halloc hlocation hon hrecords hchunks hdone hrest =>
    subst hlocation hon
    exact .changed halloc (.exportCut _ hrecords hchunks hdone hrest) (.refl _)

lemma applied_mark (halloc : uma.allocation? key = some alloc) (indices : List UInt32) :
    Applied uma context operation (uma.markChunksPreemptible context.os key alloc indices).1
      (uma.markChunksPreemptible context.os key alloc indices).2.2.isOk := by
  rcases marked uma context.os key alloc indices with h | ⟨eligible, heligible, h, hok⟩
  · rw [h]
    exact .kept
  · rw [h, hok]
    exact .changed halloc (.marked _ heligible) (sameLedger_updatePreemptibleBudget _ _)

lemma applied_markCpuChunksPreemptible (ratio : Float32) :
    Applies uma context (.markCpuChunksPreemptible key ratio) := by
  simp only [Applies, Operation.apply, markCpuChunksPreemptible]
  split_ifs with hratio
  · exact .kept
  · cases halloc : uma.allocation? key with
    | none => exact .kept
    | some alloc =>
      dsimp only
      split_ifs
      · exact .kept
      · exact applied_mark uma context key halloc _

lemma applied_postGpuLoadPolicy (bytes : UInt64) (policy : PostGpuLoadPolicy) :
    Applies uma context (.postGpuLoadPolicy key bytes policy) := by
  simp only [Applies, Operation.apply, postGpuLoadPolicy]
  cases halloc : uma.allocation? key with
  | none => exact .kept
  | some alloc =>
    cases policy with
    | evictCpu => exact .kept
    | markPreemptible => exact applied_mark uma context key halloc _
    | keep => exact .kept

lemma applied (operation : Operation) : Applies uma context operation := by
  cases operation with
  | allocate => exact applied_allocate ..
  | getOrCreateGpuAllocation => exact applied_getOrCreateGpuAllocation ..
  | release => exact applied_release ..
  | releaseGpuDevice => exact applied_releaseGpuDevice ..
  | isGpuLoadingComplete => exact applied_isGpuLoadingComplete ..
  | getMissingChunks => exact applied_getMissingChunks ..
  | planLoad => exact applied_planLoad ..
  | commit => exact applied_commit ..
  | abort sessionId => exact ⟨.kept rfl, rfl, .inr (.inr (.inl ⟨_, rfl⟩)), .inr (.inr rfl)⟩
  | acquireStableLease => exact applied_acquireStableLease ..
  | releaseStableLease => exact applied_releaseStableLease ..
  | setExported => exact applied_setExported ..
  | grantDirectWrite key ranges =>
    simp only [Applies, Operation.apply]
    rcases granted uma key ranges with ⟨_, h⟩ | ⟨alloc, chunks, _, halloc, h⟩ <;>
      rw [h]
    · exact .kept
    · exact .changed halloc (.granted _ chunks) (.refl _)
  | dropPins handle =>
    simp only [Applies, Operation.apply, dropPins]
    cases halloc : uma.allocation? handle.key with
    | none => exact .kept
    | some alloc =>
      simp only [releasePins]
      split_ifs
      · exact .changed halloc (.unpinned _ []) (.refl _)
      · exact .changed halloc (.unpinned _ handle.chunks) (.refl _)
  | markCpuChunksPreemptible => exact applied_markCpuChunksPreemptible ..
  | postGpuLoadPolicy => exact applied_postGpuLoadPolicy ..

lemma effect (operation : Operation) :
    Effect uma context operation (operation.apply context uma).uma
      (operation.apply context uma).status.isOk := (applied uma context operation).effect

lemma rest (operation : Operation) : Rest operation uma (operation.apply context uma).uma :=
  (applied uma context operation).rest

end

end UnifiedMemoryAuthority

end TensorCast.Authority
