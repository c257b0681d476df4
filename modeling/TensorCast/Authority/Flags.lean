import TensorCast.Authority.Changes

/-!
# Which chunks are exported

The ledger has a flag for the export of a chunk from the host, and one for each device.  Only
`set_exported` writes them, and it writes those of one replica at one location.
-/

namespace TensorCast.Authority

open Core Lib ChunkRecord Option AList

def ChunkRecord.exportedAt (context : Context) (key : ReplicaKey) (location : MemoryLocation)
    (record : ChunkRecord) : Bool :=
  match location with
  | .cpu => record.exportedCpu
  | .gpu => record.exportedGpu (context.registry.gpuKey key.device.ordinal)
  | _ => false

def ChunkRecord.setExportedAt (context : Context) (key : ReplicaKey) (location : MemoryLocation)
    (on : Bool) (record : ChunkRecord) : ChunkRecord :=
  match location with
  | .cpu => record.setExportedCpu on
  | .gpu => record.setExportedGpu (context.registry.gpuKey key.device.ordinal) on
  | _ => record

namespace UnifiedMemoryAuthority

variable {uma uma' : UnifiedMemoryAuthority} {context : Context} {key other : ReplicaKey}
  {alloc alloc' : ReplicaAllocation} {location location' : MemoryLocation} {chunks indices : List UInt32}
  {on : Bool}

/-- The export flag of a chunk, if there is such a chunk. -/
def flag (uma : UnifiedMemoryAuthority) (context : Context) (location : MemoryLocation)
    (key : ReplicaKey) (i : ℕ) : Option Bool :=
  (uma.allocation? key).bind fun alloc =>
    alloc.chunkRecords[i]?.map (exportedAt context key location)

structure ExportOn (uma : UnifiedMemoryAuthority) (context : Context) (location : MemoryLocation)
    (key : ReplicaKey) (chunks : List UInt32) : Prop where
  live : (uma.allocation? key).isSome
  flag_ne : ∀ c ∈ chunks, uma.flag context location key c.toNat ≠ some false

/-! ## Flags under a change of one allocation -/

section

variable (hallocations : uma'.allocations = uma.allocations.insert key alloc')

include hallocations

lemma flag_of_insert (halloc : uma.allocation? key = some alloc) {g : Option Bool → Option Bool}
    {i : ℕ} (h : alloc'.chunkRecords[i]?.map (exportedAt context key location) =
      g (alloc.chunkRecords[i]?.map (exportedAt context key location))) :
    uma'.flag context location key i = g (uma.flag context location key i) := by
  rw [flag, flag, halloc, allocation?, hallocations, lookup_insert]
  exact h

lemma flag_of_ne (hne : other ≠ key) (i : ℕ) :
    uma'.flag context location other i = uma.flag context location other i := by
  rw [flag, flag, allocation?, hallocations, lookup_insert_ne hne, allocation?]

lemma live_of_insert (h : (uma.allocation? other).isSome) : (uma'.allocation? other).isSome := by
  rw [allocation?, hallocations]
  rcases eq_or_ne other key with rfl | hne
  · rw [lookup_insert]
    rfl
  · rwa [lookup_insert_ne hne]

end

lemma flag_modifyChunks {β : Type} {F : ChunkRecord → β} {f : ChunkRecord → ChunkRecord}
    (hf : ∀ record, F (f record) = F record) (records : List ChunkRecord) (i : ℕ) :
    (modifyChunks f chunks records)[i]?.map F = records[i]?.map F := by
  rw [← List.getElem?_map, map_modifyChunks hf, List.getElem?_map]

/-! ## Stable leases -/

section

variable (record : ChunkRecord)

@[simp] lemma exportedAt_lease :
    record.lease.exportedAt context key location = record.exportedAt context key location := by
  cases location <;> rfl

@[simp] lemma exportedAt_unlease :
    record.unlease.exportedAt context key location = record.exportedAt context key location := by
  cases location <;> rfl

@[simp] lemma exportedAt_rollbackLease :
    record.rollbackLease.exportedAt context key location =
      record.exportedAt context key location := by
  rw [rollbackLease]
  split_ifs
  · exact exportedAt_unlease record
  · rfl

@[simp] lemma exportedAt_pin :
    record.pin.exportedAt context key location = record.exportedAt context key location := by
  cases location <;> rfl

end

section

variable (h : ExportOn uma context location other chunks)

include h

lemma ExportOn.of_insert (halloc : uma.allocation? key = some alloc)
    (hallocations : uma'.allocations = uma.allocations.insert key alloc')
    (hflags : ∀ i : ℕ, alloc'.chunkRecords[i]?.map (exportedAt context key location) =
      alloc.chunkRecords[i]?.map (exportedAt context key location)) :
    ExportOn uma' context location other chunks := by
  refine ⟨live_of_insert hallocations h.live, fun c hc => ?_⟩
  rcases eq_or_ne other key with rfl | hne
  · rw [flag_of_insert (g := id) hallocations halloc (hflags c.toNat)]
    exact h.flag_ne c hc
  · rw [flag_of_ne hallocations hne]
    exact h.flag_ne c hc

lemma ExportOn.acquire (key : ReplicaKey) (indices : List UInt32) :
    ExportOn (uma.acquireStableLease context key indices).1 context location other chunks := by
  have hacquired := acquired uma context key indices
  generalize uma.acquireStableLease context key indices = result at hacquired
  cases hacquired with
  | refused => exact h
  | cut status halloc hchunks hdone hidx =>
    exact h.of_insert halloc rfl (flag_modifyChunks exportedAt_lease _)
  | overBudget halloc hchunks hlt hn hbudget hover =>
    refine h.of_insert halloc (sameLedger_updatePreemptibleBudget _ _).allocations fun i => ?_
    rw [flag_modifyChunks exportedAt_rollbackLease, flag_modifyChunks exportedAt_lease]
  | granted lease uma' halloc hchunks hlt hn hlease hallocations =>
    exact h.of_insert halloc hallocations (flag_modifyChunks exportedAt_lease _)

lemma ExportOn.release (key : ReplicaKey) (indices : List UInt32) :
    ExportOn (uma.releaseStableLease key indices).1 context location other chunks := by
  have hunleased := unleased uma key indices
  generalize uma.releaseStableLease key indices = result at hunleased
  cases hunleased with
  | notFound => exact h
  | empty => exact h
  | cut status halloc hchunks hdone hheld hidx =>
    exact h.of_insert halloc rfl (flag_modifyChunks exportedAt_unlease _)
  | done halloc hchunks hne hlt hheld =>
    exact h.of_insert halloc rfl (flag_modifyChunks exportedAt_unlease _)

end

/-! ## Exports -/

def exportRecord (context : Context) (key : ReplicaKey) (location : MemoryLocation) (on : Bool) :
    ChunkRecord → ChunkRecord :=
  exportTo (exportedAt context key location) (setExportedAt context key location on) on

lemma setExported_records (uma : UnifiedMemoryAuthority) (context : Context) (key : ReplicaKey)
    (location : MemoryLocation) (chunks : List UInt32) (on : Bool) :
    ((uma.setExported context key location chunks on).1 = uma ∧
      ∃ status, (uma.setExported context key location chunks on).2 = .error status) ∨
    ∃ alloc alloc' pinned, uma.allocation? key = some alloc ∧
      (location = .cpu ∨ location = .gpu) ∧
      (uma.setExported context key location chunks on).1.allocations =
        uma.allocations.insert key alloc' ∧
      alloc'.chunkRecords = modifyChunks pin pinned
        (modifyChunks (exportRecord context key location on) (sortUnique chunks)
          alloc.chunkRecords) := by
  rcases eq_or_ne location .gpu with rfl | hgpu
  · cases halloc : uma.allocation? key with
    | none =>
      refine .inl ?_
      simp only [setExported, halloc]
      exact ⟨trivial, _, rfl⟩
    | some alloc =>
      have hloop := foldl_exportChunk (exportedAt context key .gpu)
        (setExportedAt context key .gpu on) on (sortUnique chunks)
        alloc.chunkRecords false
      refine .inr ⟨alloc, withRecords alloc _ ?mutated, [], rfl, .inr rfl, ?_, hloop.1⟩
      case inl.some =>
        simp only [setExported, halloc]
        rfl
  · have hexported := exported uma context key location chunks on
    generalize uma.setExported context key location chunks on = result at hexported
    cases hexported with
    | refused status h => exact .inl ⟨rfl, status, rfl⟩
    | gpu registration halloc hlocation => exact absurd hlocation hgpu
    | cpuOff registration halloc hlocation hon hrecords =>
      subst hlocation
      exact .inr ⟨_, _, [], halloc, .inl rfl, rfl, hrecords⟩
    | cpuOn alloc handle halloc hlocation hon hrecords =>
      subst hlocation
      exact .inr ⟨alloc, _, _, halloc, .inl rfl, rfl, by rw [hrecords]; rfl⟩
    | cut alloc status halloc hlocation hon hrecords =>
      subst hlocation
      exact .inr ⟨alloc, _, _, halloc, .inl rfl, rfl, by rw [hrecords]; rfl⟩

lemma exportedAt_exportRecord (hlocation : location = .cpu ∨ location = .gpu)
    (record : ChunkRecord) :
    (exportRecord context key location on record).exportedAt context key location = on := by
  unfold exportRecord exportTo
  split_ifs with h
  · exact h
  · rcases hlocation with rfl | rfl
    · rfl
    · simp [setExportedAt, setExportedGpu, exportedAt]

lemma exportedAt_exportRecord_ne (hne : location' ≠ location) (record : ChunkRecord) :
    (exportRecord context key location on record).exportedAt context key location' =
      record.exportedAt context key location' := by
  unfold exportRecord exportTo
  split_ifs
  · rfl
  · cases location <;> cases location' <;> first | rfl | exact absurd rfl hne

lemma map_exportRecord (hlocation : location = .cpu ∨ location = .gpu) (records : List ChunkRecord)
    (i : ℕ) :
    (modifyChunks (exportRecord context key location on) chunks records)[i]?.map
        (exportedAt context key location) =
      records[i]?.map fun record =>
        if 0 < visits chunks i then on else record.exportedAt context key location := by
  rw [getElem?_modifyChunks, map_map]
  congr 1
  funext record
  cases hvisits : visits chunks i with
  | zero => rfl
  | succ n =>
    rw [Function.comp_apply, Function.iterate_succ_apply', exportedAt_exportRecord hlocation,
      if_pos n.succ_pos]

lemma ExportOn.setExported_of_ne (h : ExportOn uma context location' other chunks)
    (hne : location' ≠ location ∨ other ≠ key) (indices : List UInt32) (on : Bool) :
    ExportOn (uma.setExported context key location indices on).1 context location' other chunks := by
  rcases setExported_records uma context key location indices on with
    ⟨hsame, -⟩ | ⟨_, _, _, halloc, -, hallocations, hrecords⟩
  · rw [hsame]
    exact h
  · rcases eq_or_ne other key with rfl | hother
    · have hlocation := hne.resolve_right fun hkey => hkey rfl
      refine h.of_insert halloc hallocations fun i => ?_
      rw [hrecords, flag_modifyChunks exportedAt_pin,
        flag_modifyChunks (exportedAt_exportRecord_ne hlocation)]
    · refine ⟨live_of_insert hallocations h.live, fun c hc => ?_⟩
      rw [flag_of_ne hallocations hother]
      exact h.flag_ne c hc

/-- Turning exports on turns none off. -/
lemma ExportOn.setExported_on (h : ExportOn uma context location' other chunks) (key : ReplicaKey)
    (location : MemoryLocation) (indices : List UInt32) :
    ExportOn (uma.setExported context key location indices true).1 context location' other
      chunks := by
  by_cases hne : location' ≠ location ∨ other ≠ key
  · exact h.setExported_of_ne hne indices true
  · obtain ⟨rfl, rfl⟩ : location' = location ∧ other = key := by tauto
    rcases setExported_records uma context other location' indices true with
      ⟨hsame, -⟩ | ⟨alloc, _, _, halloc, hlocation, hallocations, hrecords⟩
    · rw [hsame]
      exact h
    · refine ⟨live_of_insert hallocations h.live, fun c hc => ?_⟩
      have hflag := h.flag_ne c hc
      rw [flag, halloc, bind_some] at hflag
      rw [flag, allocation?, hallocations, lookup_insert, bind_some, hrecords,
        flag_modifyChunks exportedAt_pin, map_exportRecord hlocation]
      cases hrecord : alloc.chunkRecords[c.toNat]? with
      | none => simp
      | some record =>
        rw [hrecord] at hflag
        split_ifs
        · simp
        · exact hflag

lemma exportOn_of_setExported {registration : ExportRegistration}
    (h : (uma.setExported context key location chunks true).2 = .ok registration) :
    ExportOn (uma.setExported context key location chunks true).1 context location key chunks := by
  rcases setExported_records uma context key location chunks true with
    ⟨-, _, hstatus⟩ | ⟨alloc, _, _, halloc, hlocation, hallocations, hrecords⟩
  · rw [hstatus] at h
    cases h
  · refine ⟨live_of_insert hallocations (by rw [halloc]; rfl), fun c hc => ?_⟩
    rw [flag, allocation?, hallocations, lookup_insert, bind_some, hrecords,
      flag_modifyChunks exportedAt_pin, map_exportRecord hlocation]
    have hvisits := visits_pos (mem_sortUnique.mpr hc)
    cases alloc.chunkRecords[c.toNat]? with
    | none => simp
    | some record => simp [hvisits]

lemma releaseGpuDevice_refused (h : ExportOn uma context .gpu key chunks) {c : UInt32}
    (hc : c ∈ chunks) (halloc : uma.allocation? key = some alloc)
    (hlt : c.toNat < alloc.numChunks) (dropAllocation : Bool) :
    ∃ status, (uma.releaseGpuDevice context key key.device.ordinal dropAllocation).2 =
      .error status := by
  have hflag := h.flag_ne c hc
  obtain ⟨record, hrecord⟩ : ∃ record, alloc.chunkRecords[c.toNat]? = some record :=
    ⟨_, List.getElem?_eq_getElem hlt⟩
  rw [flag, halloc, bind_some, hrecord] at hflag
  have hexported : record.exportedGpu (context.registry.gpuKey key.device.ordinal) = true := by
    simpa [exportedAt] using hflag
  have hpos : 0 < (alloc.chunkRecords.filter
      (·.exportedGpu (context.registry.gpuKey key.device.ordinal))).length :=
    List.length_pos_of_mem (List.mem_filter.mpr ⟨List.mem_of_getElem? hrecord, hexported⟩)
  simp only [releaseGpuDevice, halloc, if_pos hpos]
  exact ⟨_, rfl⟩

end UnifiedMemoryAuthority

end TensorCast.Authority
