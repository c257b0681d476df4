import TensorCast.Authority.Changes
import TensorCast.Lib.Transition

/-!
# Completeness of a GPU load

Whether a replica is completely loaded on a device is read off a counter when the counter says so,
and otherwise found by a scan.  Commits raise the counter, and it is reset when the memory of the
device is allocated or released.  It may lag behind the ledger, but it is never ahead of it.
-/

namespace TensorCast.Authority

open Lib
open Function (update)

def ChunkRecord.isLoadedOn (devKey : DeviceKey) (record : ChunkRecord) : Bool :=
  (record.gpu devKey).any ChunkState.isLoaded

/-- No counter of the replica is ahead of the ledger; one that is missing counts as zero. -/
structure Counted (alloc : ReplicaAllocation) : Prop where
  size : alloc.numChunks < 2 ^ 64
  count : ∀ devKey, ((alloc.loadedChunkCounts devKey).getD 0).toNat ≤
    alloc.chunkRecords.countP (·.isLoadedOn devKey)

/-- The operations that load replicas onto devices and release the devices. -/
def Operation.movesLoads : Operation → Bool
  | .allocate .. | .getOrCreateGpuAllocation .. | .planLoad .. | .commit .. | .releaseGpuDevice ..
  | .isGpuLoadingComplete .. => true
  | _ => false

open UnifiedMemoryAuthority

variable {uma uma' : UnifiedMemoryAuthority} {context : Context} {key : ReplicaKey}
  {alloc alloc' : ReplicaAllocation} {devKey : DeviceKey}

/-! ## One replica -/

lemma Counted.recount (h : Counted alloc) (gpuAllocations : DeviceKey → Option UInt64)
    {n : UInt64} (hn : n.toNat ≤ alloc.chunkRecords.countP (·.isLoadedOn devKey)) :
    Counted { alloc with
      gpuAllocations
      loadedChunkCounts := update alloc.loadedChunkCounts devKey (some n) } := by
  refine ⟨h.size, fun other => ?_⟩
  by_cases hother : other = devKey
  · subst hother
    simpa using hn
  · simpa [hother] using h.count other

lemma Counted.set (h : Counted alloc) {i : ℕ} {record record' : ChunkRecord}
    {counts : DeviceKey → Option UInt64} (hi : alloc.chunkRecords[i]? = some record)
    (hcounts : ∀ other, ((counts other).getD 0).toNat + (record.isLoadedOn other).toNat ≤
      ((alloc.loadedChunkCounts other).getD 0).toNat + (record'.isLoadedOn other).toNat) :
    Counted { alloc with
      chunkRecords := alloc.chunkRecords.set i record', loadedChunkCounts := counts } := by
  refine ⟨by simpa [ReplicaAllocation.numChunks] using h.size, fun other => ?_⟩
  obtain ⟨hlt, rfl⟩ := getElem?_eq_some_iff.mp hi
  have hcount := h.count other
  have := hcounts other
  rw [List.countP_set hlt]
  cases hr : alloc.chunkRecords[i].isLoadedOn other <;>
    cases hr' : record'.isLoadedOn other <;> simp_all <;> omega

lemma counted_commitGpuChunk {idx : UInt32} (h : Counted alloc)
    (hvisit : commitGpuChunk devKey idx alloc = .ok alloc') : Counted alloc' := by
  unfold commitGpuChunk at hvisit
  cases hr : alloc.chunkRecords[idx.toNat]? with
  | none => simp [hr] at hvisit
  | some record =>
    have hget : ((record.gpu devKey).getD .evicted).isLoaded = record.isLoadedOn devKey := by
      unfold ChunkRecord.isLoadedOn
      cases record.gpu devKey <;> rfl
    simp only [hr, hget, Except.ok.injEq] at hvisit
    subst hvisit
    refine h.set hr fun other => ?_
    by_cases hother : other = devKey
    · subst hother
      have hloaded : (record.commitGpu other).isLoadedOn other = true := by
        simp [ChunkRecord.isLoadedOn, ChunkRecord.commitGpu, ChunkState.isLoaded]
      cases hold : record.isLoadedOn other
      · simpa [hloaded] using Nat.mod_le _ _
      · simp [hloaded]
    · have hsame : (record.commitGpu devKey).isLoadedOn other = record.isLoadedOn other := by
        simp [ChunkRecord.isLoadedOn, ChunkRecord.commitGpu, hother]
      split_ifs <;> simp [hsame, hother]

lemma counted_commitCpuChunk {os : Os} {idx : UInt32}
    {state state' : UnifiedMemoryAuthority × ReplicaAllocation} (h : Counted state.2)
    (hvisit : commitCpuChunk os key idx state = .ok state') : Counted state'.2 := by
  unfold commitCpuChunk at hvisit
  cases hr : state.2.chunkRecords[idx.toNat]? with
  | none => simp [hr] at hvisit
  | some record =>
    simp only [hr, Except.ok.injEq] at hvisit
    subst hvisit
    exact h.set hr fun _ => le_rfl

lemma Counted.evict (h : Counted alloc) (devKey : DeviceKey)
    (gpuAllocations : DeviceKey → Option UInt64) (ledgerVersion : UInt64) :
    Counted { alloc with
      loadedChunkCounts := update alloc.loadedChunkCounts devKey (some 0)
      chunkRecords := alloc.chunkRecords.map (·.evictGpu devKey)
      gpuAllocations
      ledgerVersion } := by
  refine ⟨by simpa [ReplicaAllocation.numChunks] using h.size, fun other => ?_⟩
  by_cases hother : other = devKey
  · simp [hother]
  · have hsame : ∀ record : ChunkRecord,
        (record.evictGpu devKey).isLoadedOn other = record.isLoadedOn other := by
      intro record
      unfold ChunkRecord.evictGpu ChunkRecord.isLoadedOn
      split_ifs <;> simp [hother]
    simpa [Function.comp_def, hsame, hother] using h.count other

/-! ## One operation -/

namespace UnifiedMemoryAuthority

/-- No counter is ahead of the ledger. -/
def AllCounted (uma : UnifiedMemoryAuthority) : Prop :=
  ∀ key alloc, uma.allocation? key = some alloc → Counted alloc

lemma AllCounted.congr (h : AllCounted uma) (hsame : uma'.allocations = uma.allocations) :
    AllCounted uma' := by
  intro key alloc halloc
  rw [allocation?_congr hsame] at halloc
  exact h key alloc halloc

lemma AllCounted.set (h : AllCounted uma) (halloc : Counted alloc) :
    AllCounted (uma.setAllocation key alloc) :=
  forall_lookup_insert halloc h

lemma AllCounted.finishCommit (h : AllCounted uma) (halloc : Counted alloc) (os : Os)
    (sessionId : UInt64) (mutated : Bool) (result : Core.StatusOr Unit) :
    AllCounted (uma.finishCommit os sessionId key alloc mutated result).1 := by
  cases result with
  | error status => exact h.set halloc
  | ok =>
    cases mutated with
    | false => exact h
    | true =>
      have hnext : Counted { alloc with ledgerVersion := alloc.ledgerVersion + 1 } :=
        ⟨halloc.size, halloc.count⟩
      exact (h.set hnext).congr (sameLedger_updatePreemptibleBudget _ os).allocations

lemma AllCounted.commit (h : AllCounted uma) (sessionId : UInt64) (target : MemoryLocation)
    (chunks : List UInt32) (deviceId : Option Int32) :
    AllCounted (uma.commit context sessionId target chunks deviceId).1 := by
  unfold UnifiedMemoryAuthority.commit
  cases uma.sessions sessionId with
  | none => exact h
  | some session =>
    cases halloc : uma.allocation? session.key with
    | none => simpa [halloc] using h
    | some alloc =>
      simp only [halloc]
      cases target with
      | gpu =>
        cases deviceId.or session.deviceId with
        | none => exact h
        | some deviceId =>
          exact h.finishCommit (walk_invariant _ (h _ _ halloc)
            fun _ _ _ => counted_commitGpuChunk) _ _ _ _
      | cpu =>
        obtain ⟨_, hsame, -, hw⟩ := walk_commitCpuChunk context.os session.key
          (committedChunks session chunks) uma alloc
        have hcounted : Counted (walk (commitCpuChunk context.os session.key)
            (committedChunks session chunks) (uma, alloc)).1.2 :=
          walk_invariant (s := (uma, alloc)) _ (h _ _ halloc) fun _ _ _ => counted_commitCpuChunk
        rw [hw] at hcounted ⊢
        exact (h.congr hsame.allocations).finishCommit hcounted _ _ _ _
      | none | disk | remote => exact h

/-- One of the operations that load replicas onto devices and release the devices. -/
lemma AllCounted.apply (h : AllCounted uma) {operation : Operation}
    (hop : operation.movesLoads = true) : AllCounted (operation.apply context uma).uma := by
  cases operation with
  | allocate key bytes =>
    simp only [Operation.apply, allocate]
    split
    · exact h
    · split
      · exact h
      · refine h.set ⟨?_, fun _ => Nat.zero_le _⟩
        rw [newAllocation, ReplicaAllocation.numChunks, List.length_replicate]
        exact UInt64.toNat_lt _
  | planLoad key target deviceId chunkIndices =>
    rcases planLoad_cases uma context key target deviceId chunkIndices with
      ⟨_, hplan⟩ | ⟨_, _, hsame, hplan⟩
    · rwa [Operation.apply, hplan]
    · simp only [Operation.apply, hplan]
      exact h.congr hsame.allocations
  | commit sessionId target chunks deviceId => exact h.commit sessionId target chunks deviceId
  | getOrCreateGpuAllocation key deviceId allocated =>
    simp only [Operation.apply, getOrCreateGpuAllocation]
    cases halloc : uma.allocation? key with
    | none => exact h
    | some alloc =>
      dsimp only
      split
      · exact h
      · split
        · exact h
        · exact h.set ((h _ _ halloc).recount _ (Nat.zero_le _))
  | releaseGpuDevice key deviceId dropAllocation =>
    simp only [Operation.apply, releaseGpuDevice]
    cases halloc : uma.allocation? key with
    | none => exact h
    | some alloc =>
      dsimp only
      split_ifs
      · exact h
      all_goals exact h.set ((h _ _ halloc).evict _ _ _)
  | isGpuLoadingComplete key deviceId =>
    simp only [Operation.apply, isGpuLoadingComplete]
    cases halloc : uma.allocation? key with
    | none => exact h
    | some alloc =>
      dsimp only
      split_ifs
      · exact h
      · refine h.set ((h _ _ halloc).recount _ ?_)
        exact Nat.mod_le _ _
  | _ => cases hop

/-- **Completeness is exact.**  After any run of these operations, a live replica is reported to be
completely loaded on a device if and only if every chunk of it is. -/
theorem isGpuLoadingComplete_iff_loaded (artifactChunkBytes : UInt64)
    (cpuSharedMemoryEnabled : Bool) (memoryTierBudget : Option MemoryTierBudget)
    (h : Reaches step (fun _ event => event.operation.movesLoads = true)
      (construct artifactChunkBytes cpuSharedMemoryEnabled memoryTierBudget) uma)
    (context : Context) (key : ReplicaKey) (deviceId : Int32)
    (halloc : uma.allocation? key = some alloc) :
    (uma.isGpuLoadingComplete context key deviceId).2 = true ↔
      ∀ record ∈ alloc.chunkRecords, ∃ state ∈ record.gpu (context.registry.gpuKey deviceId),
        state = .hot ∨ state = .copiedGpu := by
  have hcounted : AllCounted uma := h.invariant (by rintro key alloc ⟨⟩) (by
    rintro uma event _ - hop ⟨⟩ hall
    exact hall.apply hop)
  obtain ⟨hsize, hcount⟩ := hcounted key alloc halloc
  have hall : alloc.chunkRecords.countP (·.isLoadedOn (context.registry.gpuKey deviceId)) =
      alloc.numChunks ↔ ∀ record ∈ alloc.chunkRecords,
        ∃ state ∈ record.gpu (context.registry.gpuKey deviceId),
          state = .hot ∨ state = .copiedGpu := by
    simp [ReplicaAllocation.numChunks, ChunkRecord.isLoadedOn,
      ChunkState.isLoaded, Option.any_eq_true]
  rw [← hall]
  simp only [isGpuLoadingComplete, halloc]
  split_ifs with hfull
  · have hle := hcount (context.registry.gpuKey deviceId)
    rw [hfull, Option.getD_some, UInt64.toNat_ofNat_of_lt' hsize] at hle
    exact iff_of_true rfl (List.countP_le_length.antisymm hle)
  · exact decide_eq_true_iff

/-- The chunks of a replica are committed on a device, one of them twice. -/
def committing : List Event :=
  [⟨.allocate { artifactId := "a" } 8192, .mapsAt 65536⟩,
    ⟨.planLoad { artifactId := "a" } .gpu (some 0) none, .mapsAt 0⟩,
    ⟨.commit 1 .gpu [0, 1, 0] none, .mapsAt 0⟩]

theorem isGpuLoadingComplete_iff_loaded_twice :
    ∃ uma alloc, run step (fun _ event => event.operation.movesLoads) committing
        (construct 4096 false none) = some uma ∧
      uma.allocation? { artifactId := "a" } = some alloc ∧ alloc.numChunks = 2 ∧
      ∀ record ∈ alloc.chunkRecords,
        ∃ state ∈ record.gpu ((Context.mapsAt 0).registry.gpuKey 0),
          state = .hot ∨ state = .copiedGpu := by
  refine ⟨_, _, rfl, rfl, rfl, ?_⟩
  have hrun : run step (fun _ event => event.operation.movesLoads) committing
      (construct 4096 false none) = some _ := rfl
  refine (isGpuLoadingComplete_iff_loaded 4096 false none (reaches_of_run hrun) (.mapsAt 0)
    { artifactId := "a" } 0 rfl).mp ?_
  rfl

end UnifiedMemoryAuthority

end TensorCast.Authority
