import TensorCast.Authority.Arena

/-!
# The memory authority

The operations of the authority that read or change its ledger.  Each runs under one lock, so a
run is a sequence of operations.  An operation returns the new state in every case: those that
fail in the middle of a list of chunks leave behind what they have done.
-/

namespace TensorCast.Authority

open Core Lib
open Function (update)

structure UnifiedMemoryAuthority where
  chunkSizeBytes : UInt64
  cpuSharedMemoryEnabled : Bool := true
  allocations : AList (fun _ : ReplicaKey => ReplicaAllocation) := ∅
  memoryTierBudget : Option MemoryTierBudget := none
  sessions : UInt64 → Option SessionRecord := fun _ => none
  nextSessionId : UInt64 := 1
  pendingRehydrate : ReplicaKey → UInt32 → Option ℤ := fun _ _ => none

/-- What an operation finds around it. -/
structure Context where
  os : Os
  registry : DeviceRegistry := {}

/-- A machine on which the next region is mapped at an address. -/
def Context.mapsAt (base : UInt64) : Context :=
  { os := { reserve := fun _ bytes => .ok { base, bytes } } }

namespace UnifiedMemoryAuthority

def artifactChunkDefault : UInt64 := 268435456

def construct (artifactChunkBytes : UInt64) (cpuSharedMemoryEnabled : Bool)
    (memoryTierBudget : Option MemoryTierBudget) : UnifiedMemoryAuthority :=
  { chunkSizeBytes := if artifactChunkBytes = 0 then artifactChunkDefault else artifactChunkBytes
    cpuSharedMemoryEnabled
    memoryTierBudget }

def cpuArena (uma : UnifiedMemoryAuthority) : CpuArena :=
  { chunkBytes := uma.chunkSizeBytes, cpuSharedMemoryEnabled := uma.cpuSharedMemoryEnabled }

/-! ## Looking up and writing -/

def allocation? (uma : UnifiedMemoryAuthority) (key : ReplicaKey) : Option ReplicaAllocation :=
  uma.allocations.lookup key

def notFound (key : ReplicaKey) : Status :=
  .notFound ("Replica " ++ key.artifactId ++ " not found in unified memory")

/-- Writes an allocation back. -/
def setAllocation (uma : UnifiedMemoryAuthority) (key : ReplicaKey) (alloc : ReplicaAllocation) :
    UnifiedMemoryAuthority := { uma with allocations := uma.allocations.insert key alloc }

def setBudget (uma : UnifiedMemoryAuthority) (budget : MemoryTierBudget) :
    UnifiedMemoryAuthority := { uma with memoryTierBudget := some budget }

def setSession (uma : UnifiedMemoryAuthority) (sessionId : UInt64)
    (session : Option SessionRecord) : UnifiedMemoryAuthority :=
  { uma with sessions := update uma.sessions sessionId session }

def setRehydrate (uma : UnifiedMemoryAuthority) (key : ReplicaKey) (idx : UInt32)
    (start : Option ℤ) : UnifiedMemoryAuthority :=
  { uma with
    pendingRehydrate :=
      update uma.pendingRehydrate key (update (uma.pendingRehydrate key) idx start) }

/-! ## Preemptible bytes -/

def isPreemptibleResident (uma : UnifiedMemoryAuthority)
    (mincore : UInt64 → UInt64 → Option (List Bool)) (alloc : ReplicaAllocation)
    (idx : UInt32) : Bool :=
  let offset := idx.toUInt64 * uma.chunkSizeBytes
  if alloc.cpuRegion.base = 0 ∨ alloc.numChunks ≤ idx.toNat ∨ alloc.cpuRegion.bytes ≤ offset then
    false
  else
    match mincore (alloc.cpuRegion.base + offset)
      (min uma.chunkSizeBytes (alloc.cpuRegion.bytes - offset)) with
    | none => true
    | some pages => pages.all id

def preemptibleBytes (uma : UnifiedMemoryAuthority)
    (mincore : UInt64 → UInt64 → Option (List Bool)) (alloc : ReplicaAllocation) : UInt64 :=
  (alloc.chunkRecords.zipIdx.map fun (record, i) =>
    if record.cpu = .preemptible ∧
        uma.isPreemptibleResident mincore alloc (UInt32.ofNat i) = true then
      chunkBytesForIndex alloc uma.chunkSizeBytes (UInt32.ofNat i)
    else 0).sum

def computePreemptibleBytes (uma : UnifiedMemoryAuthority)
    (mincore : UInt64 → UInt64 → Option (List Bool)) : UInt64 :=
  (uma.allocations.entries.map fun entry => uma.preemptibleBytes mincore entry.2).sum

def updatePreemptibleBudget (uma : UnifiedMemoryAuthority) (os : Os) : UnifiedMemoryAuthority :=
  match uma.memoryTierBudget with
  | none => uma
  | some budget =>
    uma.setBudget (budget.setPreemptibleMarkedBytes (uma.computePreemptibleBytes os.mincoreAtCount))

/-- The reclaimed chunk waits to be loaded again. -/
def recordPreemptibleFault (os : Os) (key : ReplicaKey) (uma : UnifiedMemoryAuthority)
    (idx : UInt32) : UnifiedMemoryAuthority :=
  { uma.setRehydrate key idx (some (os.now idx)) with
    memoryTierBudget := uma.memoryTierBudget.map MemoryTierBudget.recordFault }

/-- The chunk that waited to be loaded again is there. -/
def maybeRecordRehydrateLatency (os : Os) (key : ReplicaKey) (uma : UnifiedMemoryAuthority)
    (idx : UInt32) : UnifiedMemoryAuthority :=
  match uma.pendingRehydrate key idx with
  | none => uma
  | some start =>
    let ns := os.now idx - start
    { uma.setRehydrate key idx none with
      memoryTierBudget := uma.memoryTierBudget.map fun budget =>
        if 0 < ns then budget.recordRehydrateLatency (UInt64.ofInt ns) else budget }

/-- Whether a chunk is marked preemptible and the kernel has reclaimed pages of it. -/
def isFaulted (uma : UnifiedMemoryAuthority) (os : Os) (alloc : ReplicaAllocation)
    (record : ChunkRecord) (idx : UInt32) : Bool :=
  record.cpu = .preemptible && !uma.isPreemptibleResident os.mincore alloc idx

def recordFaults (uma : UnifiedMemoryAuthority) (os : Os) (key : ReplicaKey)
    (faulted : List UInt32) : UnifiedMemoryAuthority :=
  let uma := faulted.foldl (recordPreemptibleFault os key) uma
  if faulted = [] then uma else uma.updatePreemptibleBudget os

/-! ## Allocating and releasing -/

def newAllocation (chunkSizeBytes bytes : UInt64) (cpuRegion : CpuRegion) : ReplicaAllocation :=
  { cpuRegion
    totalBytes := bytes
    chunkRecords :=
      List.replicate ((bytes + chunkSizeBytes - 1) / chunkSizeBytes).toNat {} }

def allocate (uma : UnifiedMemoryAuthority) (context : Context) (key : ReplicaKey)
    (bytes : UInt64) : UnifiedMemoryAuthority × StatusOr Unit :=
  match uma.allocation? key with
  | some _ =>
    (uma, .error (.alreadyExists
      ("Replica " ++ key.artifactId ++ " already has unified allocation")))
  | none =>
    match uma.cpuArena.allocateRegion context.os bytes with
    | .error status => (uma, .error status)
    | .ok cpuRegion =>
      (uma.setAllocation key (newAllocation uma.chunkSizeBytes bytes cpuRegion), .ok ())

def getOrCreateGpuAllocation (uma : UnifiedMemoryAuthority) (context : Context)
    (key : ReplicaKey) (deviceId : Int32) (allocated : StatusOr UInt64) :
    UnifiedMemoryAuthority × StatusOr UInt64 :=
  match uma.allocation? key with
  | none => (uma, .error (notFound key))
  | some alloc =>
    let devKey := context.registry.gpuKey deviceId
    match alloc.gpuAllocations devKey with
    | some base => (uma, .ok base)
    | none =>
      match allocated with
      | .error status => (uma, .error status)
      | .ok base =>
        (uma.setAllocation key
          { alloc with
            gpuAllocations := update alloc.gpuAllocations devKey (some base)
            loadedChunkCounts := update alloc.loadedChunkCounts devKey (some 0) },
          .ok base)

def release (uma : UnifiedMemoryAuthority) (key : ReplicaKey) :
    UnifiedMemoryAuthority × StatusOr Unit :=
  match uma.allocation? key with
  | none => (uma, .error (notFound key))
  | some _ =>
    ({ uma with
        pendingRehydrate := update uma.pendingRehydrate key fun _ => none
        allocations := uma.allocations.erase key },
      .ok ())

def releaseGpuDevice (uma : UnifiedMemoryAuthority) (context : Context) (key : ReplicaKey)
    (deviceId : Int32) (dropAllocation : Bool) : UnifiedMemoryAuthority × StatusOr Unit :=
  match uma.allocation? key with
  | none => (uma, .error (notFound key))
  | some alloc =>
    let devKey := context.registry.gpuKey deviceId
    let exportedChunks := (alloc.chunkRecords.filter (·.exportedGpu devKey)).length
    if 0 < exportedChunks then
      (uma, .error (.failedPrecondition ("Replica " ++ key.artifactId ++ " GPU device " ++
        toString deviceId ++ " has " ++ toString exportedChunks ++
        " exported chunks; release blocked")))
    else
      let mutated := alloc.chunkRecords.any fun record => (record.gpu devKey).isSome
      (uma.setAllocation key
        { alloc with
          loadedChunkCounts := update alloc.loadedChunkCounts devKey (some 0)
          chunkRecords := alloc.chunkRecords.map (·.evictGpu devKey)
          gpuAllocations :=
            if dropAllocation then update alloc.gpuAllocations devKey none
            else alloc.gpuAllocations
          ledgerVersion := if mutated then alloc.ledgerVersion + 1 else alloc.ledgerVersion },
        .ok ())

/-- Completeness of a GPU load, from the counter or else by a scan that also sets it. -/
def isGpuLoadingComplete (uma : UnifiedMemoryAuthority) (context : Context) (key : ReplicaKey)
    (deviceId : Int32) : UnifiedMemoryAuthority × Bool :=
  match uma.allocation? key with
  | none => (uma, false)
  | some alloc =>
    let devKey := context.registry.gpuKey deviceId
    if alloc.loadedChunkCounts devKey = some (UInt64.ofNat alloc.numChunks) then (uma, true)
    else
      let loaded := alloc.chunkRecords.countP fun record =>
        (record.gpu devKey).any ChunkState.isLoaded
      (uma.setAllocation key
        { alloc with
          loadedChunkCounts :=
            update alloc.loadedChunkCounts devKey (some (UInt64.ofNat loaded)) },
        loaded = alloc.numChunks)

end UnifiedMemoryAuthority

end TensorCast.Authority
