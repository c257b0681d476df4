import TensorCast.Authority.Ledger

/-!
# Loads, leases, exports

The operations on the chunks of a replica: load sessions that are planned and committed, stable
leases, exports and direct writes, which pin chunks, and the policies that give pages back.
-/

namespace TensorCast.Authority

open Core Lib
open Function (update)

namespace UnifiedMemoryAuthority

/-! ## Missing chunks -/

/-- Whether a chunk counts as missing for a load; for the CPU `resident` is asked. -/
def isMissing (context : Context) (target : MemoryLocation) (deviceId : Option Int32)
    (resident : Bool) (record : ChunkRecord) : Bool :=
  match target with
  | .gpu =>
    match deviceId with
    | none => false
    | some deviceId =>
      !(record.gpu (context.registry.gpuKey deviceId)).any ChunkState.isLoaded
  | .cpu => !resident
  | .none | .disk | .remote => false

def getMissingChunksLocked (context : Context) (alloc : ReplicaAllocation)
    (target : MemoryLocation) (deviceId : Option Int32) : List UInt32 :=
  (alloc.chunkRecords.zipIdx.filter fun (record, _) =>
    isMissing context target deviceId record.cpu.isCpuResident record).map
      fun (_, i) => UInt32.ofNat i

/-- The public query also asks the kernel whether preemptible chunks are still resident. -/
def getMissingChunks (uma : UnifiedMemoryAuthority) (context : Context) (key : ReplicaKey)
    (target : MemoryLocation) (deviceId : Option Int32) :
    UnifiedMemoryAuthority × List UInt32 :=
  match uma.allocation? key with
  | none => (uma, [])
  | some alloc =>
    let faulted (record : ChunkRecord) (i : ℕ) : Bool :=
      uma.isFaulted context.os alloc record (UInt32.ofNat i)
    let select (p : ChunkRecord → ℕ → Bool) : List UInt32 :=
      (alloc.chunkRecords.zipIdx.filter fun (record, i) => p record i).map
        fun (_, i) => UInt32.ofNat i
    let missing := select fun record i =>
      isMissing context target deviceId (record.cpu.isCpuResident && !faulted record i) record
    if target = .cpu then (uma.recordFaults context.os key (select faulted), missing)
    else (uma, missing)

/-! ## Load sessions -/

/-- The byte range of a run of chunks; `end_idx + 1` is a 32-bit sum. -/
def planRange (chunkSizeBytes totalBytes : UInt64) (run : UInt32 × UInt32) : UInt64 × UInt64 :=
  let off := run.1.toUInt64 * chunkSizeBytes
  let endOff := (run.2 + 1).toUInt64 * chunkSizeBytes
  (off, if totalBytes < endOff then totalBytes - off else endOff - off)

def planLoad (uma : UnifiedMemoryAuthority) (context : Context) (key : ReplicaKey)
    (target : MemoryLocation) (deviceId : Option Int32) (chunkIndices : Option (List UInt32)) :
    UnifiedMemoryAuthority × StatusOr TransferPlan :=
  match uma.allocation? key with
  | none => (uma, .error (notFound key))
  | some alloc =>
    let requested := chunkIndices.getD []
    let chunks :=
      if requested = [] then getMissingChunksLocked context alloc target deviceId else requested
    if chunks = [] ∧ target ≠ .cpu then
      (uma, .error (.failedPrecondition "No chunks to load for the requested plan"))
    else
      -- a CPU load with nothing missing plans the whole replica
      let chunks := sortUnique (if chunks = [] then allChunks alloc.numChunks else chunks)
      let faulted := chunks.filter fun idx =>
        (alloc.chunkRecords[idx.toNat]?).any fun record =>
          uma.isFaulted context.os alloc record idx
      let uma := if requested = [] then uma else uma.recordFaults context.os key faulted
      let sessionId := uma.nextSessionId
      ({ uma.setSession sessionId (some { key, target, deviceId, chunks }) with
          nextSessionId := sessionId + 1 },
        .ok
          { sessionId
            ranges := (coalesceRuns chunks).map (planRange uma.chunkSizeBytes alloc.totalBytes)
            chunkIndices := chunks })

def commitGpuChunk (devKey : DeviceKey) (idx : UInt32) (alloc : ReplicaAllocation) :
    StatusOr ReplicaAllocation :=
  match alloc.chunkRecords[idx.toNat]? with
  | none => .error (.outOfRange "Chunk index out of range")
  | some record =>
    .ok
      { alloc with
        chunkRecords := alloc.chunkRecords.set idx.toNat (record.commitGpu devKey)
        loadedChunkCounts :=
          if ((record.gpu devKey).getD .evicted).isLoaded then alloc.loadedChunkCounts
          else
            update alloc.loadedChunkCounts devKey
              (some ((alloc.loadedChunkCounts devKey).getD 0 + 1)) }

def commitCpuChunk (os : Os) (key : ReplicaKey) (idx : UInt32)
    (state : UnifiedMemoryAuthority × ReplicaAllocation) :
    StatusOr (UnifiedMemoryAuthority × ReplicaAllocation) :=
  match state.2.chunkRecords[idx.toNat]? with
  | none => .error (.outOfRange "Chunk index out of range")
  | some record =>
    .ok (maybeRecordRehydrateLatency os key state.1 idx,
      { state.2 with
        chunkRecords := state.2.chunkRecords.set idx.toNat record.commitCpu })

/-- The end of a commit.  A refused chunk leaves the session and the version as they are. -/
def finishCommit (uma : UnifiedMemoryAuthority) (os : Os) (sessionId : UInt64) (key : ReplicaKey)
    (alloc : ReplicaAllocation) (mutated : Bool) (result : StatusOr Unit) :
    UnifiedMemoryAuthority × StatusOr Unit :=
  match result with
  | .error status => (uma.setAllocation key alloc, .error status)
  | .ok () =>
    let uma :=
      if mutated then
        (uma.setAllocation key
          { alloc with ledgerVersion := alloc.ledgerVersion + 1 }).updatePreemptibleBudget os
      else uma
    (uma.setSession sessionId none, .ok ())

def committedChunks (session : SessionRecord) (chunks : List UInt32) : List UInt32 :=
  if chunks = [] then session.chunks else chunks

def commit (uma : UnifiedMemoryAuthority) (context : Context) (sessionId : UInt64)
    (target : MemoryLocation) (chunks : List UInt32) (deviceId : Option Int32) :
    UnifiedMemoryAuthority × StatusOr Unit :=
  match uma.sessions sessionId with
  | none => (uma, .ok ())
  | some session =>
    -- a target other than the session's is only logged
    let chunks := committedChunks session chunks
    match uma.allocation? session.key with
    | none => (uma, .error (notFound session.key))
    | some alloc =>
      match target with
      | .gpu =>
        match deviceId.or session.deviceId with
        | none => (uma, .error (.invalidArgument "UMA commit(GPU): device_id is required"))
        | some deviceId =>
          let (alloc, result) :=
            walk (commitGpuChunk (context.registry.gpuKey deviceId)) chunks alloc
          uma.finishCommit context.os sessionId session.key alloc (chunks ≠ []) result
      | .cpu =>
        let ((uma, alloc), result) :=
          walk (commitCpuChunk context.os session.key) chunks (uma, alloc)
        uma.finishCommit context.os sessionId session.key alloc (chunks ≠ []) result
      | .none | .disk | .remote => (uma.setSession sessionId none, .ok ())

def abort (uma : UnifiedMemoryAuthority) (sessionId : UInt64) :
    UnifiedMemoryAuthority × StatusOr Unit := (uma.setSession sessionId none, .ok ())

/-! ## Stable leases -/

def leaseChunk : UInt32 → List ChunkRecord → StatusOr (List ChunkRecord) :=
  visitRecord (.outOfRange "Chunk index out of range in stable lease")
    fun record => .ok record.lease

def unleaseChunk : UInt32 → List ChunkRecord → StatusOr (List ChunkRecord) :=
  visitRecord (.outOfRange "Chunk index out of range in stable lease release")
    ChunkRecord.releaseLease

def leaseBytes (uma : UnifiedMemoryAuthority) (alloc : ReplicaAllocation)
    (chunks : List UInt32) : UInt64 :=
  (chunks.map (chunkBytesForIndex alloc uma.chunkSizeBytes)).sum

/-- `acquire_stable_lease` after the chunks have been marked. -/
def admitLease (uma : UnifiedMemoryAuthority) (os : Os) (key : ReplicaKey)
    (alloc : ReplicaAllocation) (chunks : List UInt32) (records : List ChunkRecord) :
    UnifiedMemoryAuthority × StatusOr StableLease :=
  let bytes := uma.leaseBytes alloc chunks
  let leased :=
    { alloc with chunkRecords := records, ledgerVersion := alloc.ledgerVersion + 1 }
  let lease : StableLease :=
    { key, chunkIndices := chunks, bytes, ledgerVersion := leased.ledgerVersion }
  match uma.memoryTierBudget with
  | none => (uma.setAllocation key leased, .ok lease)
  | some budget =>
    match budget.tryAcquireStable bytes with
    | .error status =>
      let chunkRecords := modifyChunks ChunkRecord.rollbackLease chunks records
      ((uma.setAllocation key { alloc with chunkRecords }).updatePreemptibleBudget os,
        .error status)
    | .ok budget =>
      (((uma.setAllocation key leased).setBudget budget).updatePreemptibleBudget os, .ok lease)

def acquireStableLease (uma : UnifiedMemoryAuthority) (context : Context) (key : ReplicaKey)
    (chunkIndices : List UInt32) : UnifiedMemoryAuthority × StatusOr StableLease :=
  match uma.allocation? key with
  | none => (uma, .error (notFound key))
  | some alloc =>
    if alloc.numChunks = 0 then
      (uma, .error (.failedPrecondition "Stable lease requested for empty replica"))
    else
      let chunks := normalizeChunkIndices chunkIndices alloc.numChunks
      if chunks = [] then
        (uma, .error (.invalidArgument "No chunk indices provided for stable lease"))
      else
        match walk leaseChunk chunks alloc.chunkRecords with
        | (chunkRecords, .error status) =>
          (uma.setAllocation key { alloc with chunkRecords }, .error status)
        | (chunkRecords, .ok ()) => uma.admitLease context.os key alloc chunks chunkRecords

def releaseStableLease (uma : UnifiedMemoryAuthority) (key : ReplicaKey)
    (chunkIndices : List UInt32) : UnifiedMemoryAuthority × StatusOr Unit :=
  match uma.allocation? key with
  | none => (uma, .error (notFound key))
  | some alloc =>
    if chunkIndices = [] ∧ alloc.numChunks = 0 then (uma, .ok ())
    else
      let chunks := normalizeChunkIndices chunkIndices alloc.numChunks
      if chunks = [] then
        (uma, .error (.invalidArgument "No chunk indices provided for stable lease release"))
      else
        match walk unleaseChunk chunks alloc.chunkRecords with
        | (chunkRecords, .error status) =>
          (uma.setAllocation key { alloc with chunkRecords }, .error status)
        | (chunkRecords, .ok ()) =>
          let uma := uma.setAllocation key
            { alloc with chunkRecords, ledgerVersion := alloc.ledgerVersion + 1 }
          ({ uma with
              memoryTierBudget := uma.memoryTierBudget.map fun budget =>
                budget.releaseStable (uma.leaseBytes alloc chunks) },
            .ok ())

/-! ## Exports and direct writes -/

/-- One chunk of an export: the flag is written where it differs, and the loop remembers that. -/
def exportChunk (flag : ChunkRecord → Bool) (put : ChunkRecord → ChunkRecord) (on : Bool)
    (state : List ChunkRecord × Bool) (idx : UInt32) : List ChunkRecord × Bool :=
  match state.1[idx.toNat]? with
  | none => state
  | some record =>
    if flag record = on then state else (state.1.set idx.toNat (put record), true)

def exportCpuChunks (on : Bool) (chunks : List UInt32) (records : List ChunkRecord) :
    List ChunkRecord × Bool :=
  chunks.foldl (exportChunk (·.exportedCpu) (·.setExportedCpu on) on) (records, false)

def exportGpuChunks (devKey : DeviceKey) (on : Bool) (chunks : List UInt32)
    (records : List ChunkRecord) : List ChunkRecord × Bool :=
  chunks.foldl (exportChunk (·.exportedGpu devKey) (·.setExportedGpu devKey on) on) (records, false)

/-- The allocation with new records, in the next version if anything changed. -/
def withRecords (alloc : ReplicaAllocation) (records : List ChunkRecord) (mutated : Bool) :
    ReplicaAllocation :=
  { alloc with
    chunkRecords := records
    ledgerVersion := if mutated then alloc.ledgerVersion + 1 else alloc.ledgerVersion }

/-- If pinning is refused, the flags that were written stay and the version is not raised. -/
def setExported (uma : UnifiedMemoryAuthority) (context : Context) (key : ReplicaKey)
    (location : MemoryLocation) (chunks : List UInt32) (on : Bool) :
    UnifiedMemoryAuthority × StatusOr ExportRegistration :=
  match uma.allocation? key with
  | none => (uma, .error (notFound key))
  | some alloc =>
    let idx := sortUnique chunks
    let chunkRanges := coalesceRuns idx
    match location with
    | .cpu =>
      let (chunkRecords, mutated) := exportCpuChunks on idx alloc.chunkRecords
      if on then
        match pinChunks key { alloc with chunkRecords } idx with
        | (alloc, .error status) => (uma.setAllocation key alloc, .error status)
        | (alloc, .ok keepalive) =>
          (uma.setAllocation key (withRecords alloc alloc.chunkRecords mutated),
            .ok { chunkRanges, keepalive })
      else
        (uma.setAllocation key (withRecords alloc chunkRecords mutated),
          .ok { chunkRanges, keepalive := none })
    | .gpu =>
      let devKey := context.registry.gpuKey key.device.ordinal
      let (chunkRecords, mutated) := exportGpuChunks devKey on idx alloc.chunkRecords
      (uma.setAllocation key (withRecords alloc chunkRecords mutated),
        .ok { chunkRanges, keepalive := none })
    | .none | .disk | .remote => (uma, .error (.invalidArgument "set_exported: invalid location"))

/-- The chunks that a range of a direct write meets. -/
def rangeChunks (chunkSizeBytes : UInt64) (numChunks : ℕ) (range : VaRange) : List UInt32 :=
  let firstChunk := range.offset / chunkSizeBytes
  let lastChunk := (range.offset + range.length - 1) / chunkSizeBytes
  ((List.range numChunks).filter fun c => firstChunk.toNat ≤ c ∧ c ≤ lastChunk.toNat).map
    UInt32.ofNat

/-- The chunks of all ranges; an empty range is skipped. -/
def grantChunks (chunkSizeBytes : UInt64) (alloc : ReplicaAllocation) :
    List VaRange → StatusOr (List UInt32)
  | [] => .ok []
  | range :: rest =>
    if range.length = 0 then grantChunks chunkSizeBytes alloc rest
    else if alloc.totalBytes < range.offset + range.length then
      .error (.outOfRange "Direct write range exceeds replica bounds")
    else do
      let chunks ← grantChunks chunkSizeBytes alloc rest
      .ok (rangeChunks chunkSizeBytes alloc.numChunks range ++ chunks)

def grantDirectWrite (uma : UnifiedMemoryAuthority) (key : ReplicaKey) (ranges : List VaRange) :
    UnifiedMemoryAuthority × StatusOr DirectWriteGrant :=
  match uma.allocation? key with
  | none => (uma, .error (.failedPrecondition "UMA allocation not found for replica"))
  | some alloc =>
    if alloc.cpuRegion.base = 0 then
      (uma, .error (.failedPrecondition "CPU base not available for direct write"))
    else
      match grantChunks uma.chunkSizeBytes alloc ranges with
      | .error status => (uma, .error status)
      | .ok chunks =>
        match pinChunks key alloc (sortUnique chunks) with
        | (alloc, .error status) => (uma.setAllocation key alloc, .error status)
        | (alloc, .ok keepalive) =>
          (uma.setAllocation key alloc,
            .ok
              { windows := ranges.map fun range =>
                  { vaOffset := range.offset
                    localAddr := alloc.cpuRegion.base + range.offset
                    length := range.length }
                keepalive })

/-- The destructor of a pin handle; one of an allocation that is gone does nothing here. -/
def dropPins (uma : UnifiedMemoryAuthority) (handle : PinHandle) : UnifiedMemoryAuthority :=
  match uma.allocation? handle.key with
  | none => uma
  | some alloc => uma.setAllocation handle.key (releasePins alloc handle.chunks)

/-! ## Giving pages back -/

def eligibleChunks (records : List ChunkRecord) : List UInt32 → StatusOr (List UInt32)
  | [] => .ok []
  | idx :: rest =>
    match records[idx.toNat]? with
    | none => .error (.outOfRange "Chunk index out of range")
    | some record => do
      let eligible ← eligibleChunks records rest
      .ok (if 0 < record.stableLeaseCount ∨ record.cpu = .stable then eligible
        else idx :: eligible)

/-- The eligible chunks are relabelled, also those whose pages the arena has kept. -/
def markChunksPreemptible (uma : UnifiedMemoryAuthority) (os : Os) (key : ReplicaKey)
    (alloc : ReplicaAllocation) (indices : List UInt32) :
    UnifiedMemoryAuthority × List Madvise × StatusOr Unit :=
  match eligibleChunks alloc.chunkRecords indices with
  | .error status => (uma, [], .error status)
  | .ok eligible =>
    if eligible = [] then (uma, [], .ok ())
    else
      match uma.cpuArena.markPreemptible os alloc eligible with
      | (calls, .error status) => (uma, calls, .error status)
      | (calls, .ok ()) =>
        let relabelled := modifyChunks ChunkRecord.markPreemptible eligible alloc.chunkRecords
        ((uma.setAllocation key (withRecords alloc relabelled true)).updatePreemptibleBudget os,
          calls, .ok ())

def markCpuChunksPreemptible (uma : UnifiedMemoryAuthority) (context : Context)
    (key : ReplicaKey) (ratio : Float32) :
    UnifiedMemoryAuthority × List Madvise × StatusOr Unit :=
  if ratio < 0 ∨ 1 < ratio then
    (uma, [], .error (.invalidArgument "ratio must be between 0.0 and 1.0"))
  else
    match uma.allocation? key with
    | none => (uma, [], .error (notFound key))
    | some alloc =>
      let chunksToMark := (ratio * Float32.ofNat alloc.numChunks).floor.toUInt64.toNat
      if chunksToMark = 0 then (uma, [], .ok ())
      else uma.markChunksPreemptible context.os key alloc (allChunks chunksToMark)

def postGpuLoadPolicy (uma : UnifiedMemoryAuthority) (context : Context) (key : ReplicaKey)
    (bytes : UInt64) (policy : PostGpuLoadPolicy) :
    UnifiedMemoryAuthority × List Madvise × StatusOr Unit :=
  match uma.allocation? key with
  | none => (uma, [], .error (.failedPrecondition "UMA allocation not found for replica"))
  | some alloc =>
    match policy with
    | .evictCpu => (uma, (uma.cpuArena.evictTailBytes context.os alloc bytes).2, .ok ())
    | .markPreemptible =>
      uma.markChunksPreemptible context.os key alloc (allChunks alloc.numChunks)
    | .keep => (uma, [], .ok ())

end UnifiedMemoryAuthority

/-! ## Runs -/

inductive Operation
  | allocate (key : ReplicaKey) (bytes : UInt64)
  | getOrCreateGpuAllocation (key : ReplicaKey) (deviceId : Int32) (allocated : StatusOr UInt64)
  | release (key : ReplicaKey)
  | releaseGpuDevice (key : ReplicaKey) (deviceId : Int32) (dropAllocation : Bool)
  | isGpuLoadingComplete (key : ReplicaKey) (deviceId : Int32)
  | getMissingChunks (key : ReplicaKey) (target : MemoryLocation) (deviceId : Option Int32)
  | planLoad (key : ReplicaKey) (target : MemoryLocation) (deviceId : Option Int32)
      (chunkIndices : Option (List UInt32))
  | commit (sessionId : UInt64) (target : MemoryLocation) (committedChunks : List UInt32)
      (deviceId : Option Int32)
  | abort (sessionId : UInt64)
  | acquireStableLease (key : ReplicaKey) (chunkIndices : List UInt32)
  | releaseStableLease (key : ReplicaKey) (chunkIndices : List UInt32)
  | setExported (key : ReplicaKey) (location : MemoryLocation) (chunks : List UInt32) (on : Bool)
  | grantDirectWrite (key : ReplicaKey) (ranges : List VaRange)
  | dropPins (handle : PinHandle)
  | markCpuChunksPreemptible (key : ReplicaKey) (ratio : Float32)
  | postGpuLoadPolicy (key : ReplicaKey) (bytes : UInt64) (policy : PostGpuLoadPolicy)

/-- What an operation leads to: the new state, the `madvise` calls, and whether it succeeded. -/
structure Outcome where
  uma : UnifiedMemoryAuthority
  calls : List Madvise := []
  status : StatusOr Unit := .ok ()

/-- The outcome of an operation that makes no `madvise` calls. -/
def Outcome.of {α : Type} (result : UnifiedMemoryAuthority × StatusOr α) : Outcome :=
  { uma := result.1, status := result.2.map fun _ => () }

def Outcome.ofCalls (result : UnifiedMemoryAuthority × List Madvise × StatusOr Unit) : Outcome :=
  { uma := result.1, calls := result.2.1, status := result.2.2 }

open UnifiedMemoryAuthority in
def Operation.apply (operation : Operation) (context : Context) (uma : UnifiedMemoryAuthority) :
    Outcome :=
  match operation with
  | .allocate key bytes => .of (uma.allocate context key bytes)
  | .getOrCreateGpuAllocation key deviceId allocated =>
    .of (uma.getOrCreateGpuAllocation context key deviceId allocated)
  | .release key => .of (uma.release key)
  | .releaseGpuDevice key deviceId dropAllocation =>
    .of (uma.releaseGpuDevice context key deviceId dropAllocation)
  | .isGpuLoadingComplete key deviceId => { uma := (uma.isGpuLoadingComplete context key deviceId).1 }
  | .getMissingChunks key target deviceId =>
    { uma := (uma.getMissingChunks context key target deviceId).1 }
  | .planLoad key target deviceId chunkIndices =>
    .of (uma.planLoad context key target deviceId chunkIndices)
  | .commit sessionId target committedChunks deviceId =>
    .of (uma.commit context sessionId target committedChunks deviceId)
  | .abort sessionId => .of (uma.abort sessionId)
  | .acquireStableLease key chunkIndices => .of (uma.acquireStableLease context key chunkIndices)
  | .releaseStableLease key chunkIndices => .of (uma.releaseStableLease key chunkIndices)
  | .setExported key location chunks on => .of (uma.setExported context key location chunks on)
  | .grantDirectWrite key ranges => .of (uma.grantDirectWrite key ranges)
  | .dropPins handle => { uma := uma.dropPins handle }
  | .markCpuChunksPreemptible key ratio => .ofCalls (uma.markCpuChunksPreemptible context key ratio)
  | .postGpuLoadPolicy key bytes policy =>
    .ofCalls (uma.postGpuLoadPolicy context key bytes policy)

/-- An operation, with what it finds around it. -/
structure Event where
  operation : Operation
  context : Context

/-- One step of a run; no operation blocks. -/
def step (event : Event) (uma : UnifiedMemoryAuthority) : Option UnifiedMemoryAuthority :=
  some (event.operation.apply event.context uma).uma

end TensorCast.Authority
