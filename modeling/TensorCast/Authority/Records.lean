import TensorCast.Core.Status

/-!
# The records of the memory authority

The authority keeps, for every replica, one CPU region that is cut into chunks of one size, and a
ledger with a record for each chunk: where it is resident, whether it is exported, how often it is
pinned and how many stable leases it has.  A budget counts the bytes under stable leases.
-/

namespace TensorCast.Authority

open Core
open Function (update)

/-! ## Devices and replicas -/

inductive DeviceType
  | cpu
  | gpu
  | remote
  | disk
  | none
deriving DecidableEq, Repr

structure DeviceKey where
  type : DeviceType := .cpu
  ordinal : Int32 := -1
  uuid : String := ""
deriving DecidableEq

/-- The UUIDs that were registered for GPU ordinals. -/
structure DeviceRegistry where
  ordinalToUuid : Int32 → Option String := fun _ => none

def DeviceRegistry.gpuKey (registry : DeviceRegistry) (ordinal : Int32) : DeviceKey :=
  { type := .gpu, ordinal, uuid := (registry.ordinalToUuid ordinal).getD "" }

inductive MemoryLocation
  | none
  | disk
  | gpu
  | cpu
  | remote
deriving DecidableEq, Repr

structure ReplicaKey where
  artifactId : String
  viewId : Option String := none
  device : DeviceKey := {}
  replica : UInt32 := 0
deriving DecidableEq

/-! ## Chunks -/

inductive ChunkState
  | hot
  | stable
  | lockedTx
  | copiedGpu
  | cold
  | evicted
  | preemptible
deriving DecidableEq, Repr

def ChunkState.isLoaded (state : ChunkState) : Bool :=
  state = .hot || state = .copiedGpu

def ChunkState.isCpuResident : ChunkState → Bool
  | .hot | .stable | .lockedTx | .cold | .preemptible => true
  | .copiedGpu | .evicted => false

/-- The ledger's record of a chunk.  A missing entry of `exported_gpu` counts as false wherever
the flag is read. -/
structure ChunkRecord where
  cpu : ChunkState := .cold
  gpu : DeviceKey → Option ChunkState := fun _ => none
  exportedCpu : Bool := false
  exportedGpu : DeviceKey → Bool := fun _ => false
  pinRefcnt : UInt32 := 0
  stableLeaseCount : UInt32 := 0
  version : UInt64 := 0

/-! ## What happens to a chunk -/

namespace ChunkRecord

variable (record : ChunkRecord)

def commitGpu (devKey : DeviceKey) : ChunkRecord :=
  { record with
    gpu := update record.gpu devKey (some .copiedGpu)
    version := record.version + 1 }

def commitCpu : ChunkRecord :=
  { record with
    cpu := if 0 < record.stableLeaseCount then .stable else .hot
    version := record.version + 1 }

def evictGpu (devKey : DeviceKey) : ChunkRecord :=
  if (record.gpu devKey).isSome then
    { record with
      gpu := update record.gpu devKey (some .evicted)
      version := record.version + 1 }
  else record

def markPreemptible : ChunkRecord :=
  { record with cpu := .preemptible, version := record.version + 1 }

def lease : ChunkRecord :=
  { record with
    stableLeaseCount := record.stableLeaseCount + 1
    cpu := .stable
    version := record.version + 1 }

/-- One lease less; the last one leaves the chunk hot. -/
def unlease : ChunkRecord :=
  { record with
    stableLeaseCount := record.stableLeaseCount - 1
    cpu := if record.stableLeaseCount - 1 = 0 ∧ record.cpu = .stable then .hot else record.cpu
    version := record.version + 1 }

/-- One lease less, if one is held. -/
def releaseLease : StatusOr ChunkRecord :=
  if record.stableLeaseCount = 0 then
    .error (.failedPrecondition "Stable lease not held for specified chunk")
  else .ok record.unlease

/-- How a lease that was not admitted is taken back. -/
def rollbackLease : ChunkRecord := if 0 < record.stableLeaseCount then record.unlease else record

def pin : ChunkRecord := { record with pinRefcnt := record.pinRefcnt + 1 }

def unpin : ChunkRecord :=
  if 0 < record.pinRefcnt then { record with pinRefcnt := record.pinRefcnt - 1 } else record

def setExportedCpu (on : Bool) : ChunkRecord :=
  { record with exportedCpu := on, version := record.version + 1 }

def setExportedGpu (devKey : DeviceKey) (on : Bool) : ChunkRecord :=
  { record with
    exportedGpu := update record.exportedGpu devKey on
    version := record.version + 1 }

/-- A chunk whose pages the arena leaves alone. -/
def isKept : Bool :=
  0 < record.pinRefcnt || 0 < record.stableLeaseCount || record.cpu = .stable ||
    record.cpu = .lockedTx || record.cpu = .evicted

end ChunkRecord

/-! ## Allocations -/

/-- The CPU memory of a replica; the base 0 is the null pointer. -/
structure CpuRegion where
  base : UInt64 := 0
  bytes : UInt64 := 0
  memfd : Int32 := -1
deriving DecidableEq

structure ReplicaAllocation where
  cpuRegion : CpuRegion := {}
  gpuAllocations : DeviceKey → Option UInt64 := fun _ => none
  chunkRecords : List ChunkRecord := []
  totalBytes : UInt64 := 0
  loadedChunkCounts : DeviceKey → Option UInt64 := fun _ => none
  ledgerVersion : UInt64 := 0

/-- The source keeps `num_chunks` next to the records; both are set once, to the same number. -/
def ReplicaAllocation.numChunks (alloc : ReplicaAllocation) : ℕ := alloc.chunkRecords.length

def chunkBytesForIndex (alloc : ReplicaAllocation) (chunkSizeBytes : UInt64) (idx : UInt32) :
    UInt64 :=
  if chunkSizeBytes = 0 then 0
  else
    let offset := idx.toUInt64 * chunkSizeBytes
    if alloc.totalBytes ≤ offset then 0 else min chunkSizeBytes (alloc.totalBytes - offset)

/-! ## Lists of chunks -/

/-- `std::iota` over 32-bit indices. -/
def allChunks (numChunks : ℕ) : List UInt32 := (List.range numChunks).map UInt32.ofNat

def sortUnique (indices : List UInt32) : List UInt32 := (indices.insertionSort (· ≤ ·)).dedup

def normalizeChunkIndices (indices : List UInt32) (numChunks : ℕ) : List UInt32 :=
  if indices = [] then allChunks numChunks else sortUnique indices

/-- The run that is open, closed by the first index that does not continue it. -/
def extendRun (runStart prev : UInt32) : List UInt32 → List (UInt32 × UInt32)
  | [] => [(runStart, prev)]
  | idx :: rest =>
    if idx = prev + 1 then extendRun runStart idx rest
    else (runStart, prev) :: extendRun idx idx rest

def coalesceRuns : List UInt32 → List (UInt32 × UInt32)
  | [] => []
  | first :: rest => extendRun first first rest

/-! ## Sessions, leases, grants -/

structure SessionRecord where
  key : ReplicaKey
  target : MemoryLocation
  deviceId : Option Int32
  chunks : List UInt32
deriving DecidableEq

structure TransferPlan where
  sessionId : UInt64
  ranges : List (UInt64 × UInt64)
  chunkIndices : List UInt32
deriving DecidableEq

structure StableLease where
  key : ReplicaKey
  chunkIndices : List UInt32
  bytes : UInt64
  ledgerVersion : UInt64
deriving DecidableEq

/-- What keeps chunks pinned: when it is dropped, each of the chunks loses a pin. -/
structure PinHandle where
  key : ReplicaKey
  chunks : List UInt32
deriving DecidableEq

/-- What `set_exported` returns: the runs of chunks, and the pins of a CPU export. -/
structure UnifiedMemoryAuthority.ExportRegistration where
  chunkRanges : List (UInt32 × UInt32)
  keepalive : Option PinHandle
deriving DecidableEq

structure VaRange where
  offset : UInt64
  length : UInt64
deriving DecidableEq

structure DirectWriteGrant.Window where
  vaOffset : UInt64
  localAddr : UInt64
  length : UInt64
deriving DecidableEq

structure DirectWriteGrant where
  windows : List DirectWriteGrant.Window
  keepalive : Option PinHandle
deriving DecidableEq

inductive PostGpuLoadPolicy
  | evictCpu
  | markPreemptible
  | keep
deriving DecidableEq, Repr

/-! ## The budget -/

structure MemoryTierBudget where
  stableTotalBytes : UInt64
  preemptibleTotalBytes : UInt64 := 0
  stableUsedBytes : UInt64 := 0
  preemptibleMarkedBytes : UInt64 := 0
  faultCount : UInt64 := 0
  rehydrateSamplesNs : List UInt64 := []
deriving DecidableEq

namespace MemoryTierBudget

def maxRehydrateSamples : ℕ := 256

def tryAcquireStable (budget : MemoryTierBudget) (bytes : UInt64) : StatusOr MemoryTierBudget :=
  if bytes = 0 then .ok budget
  else if budget.stableTotalBytes < bytes ∨
      budget.stableTotalBytes - budget.stableUsedBytes < bytes then
    .error (.resourceExhausted ("Insufficient stable bytes: requested=" ++ toString bytes ++
      " used=" ++ toString budget.stableUsedBytes ++
      " total=" ++ toString budget.stableTotalBytes))
  else .ok { budget with stableUsedBytes := budget.stableUsedBytes + bytes }

def releaseStable (budget : MemoryTierBudget) (bytes : UInt64) : MemoryTierBudget :=
  if bytes = 0 then budget
  else if budget.stableUsedBytes ≤ bytes then { budget with stableUsedBytes := 0 }
  else { budget with stableUsedBytes := budget.stableUsedBytes - bytes }

def setPreemptibleMarkedBytes (budget : MemoryTierBudget) (bytes : UInt64) : MemoryTierBudget :=
  { budget with preemptibleMarkedBytes := bytes }

def recordFault (budget : MemoryTierBudget) : MemoryTierBudget :=
  { budget with faultCount := budget.faultCount + 1 }

/-- Keeps the latest samples. -/
def recordRehydrateLatency (budget : MemoryTierBudget) (latencyNs : UInt64) : MemoryTierBudget :=
  if latencyNs = 0 then budget
  else
    let samples :=
      if maxRehydrateSamples ≤ budget.rehydrateSamplesNs.length then budget.rehydrateSamplesNs.tail
      else budget.rehydrateSamplesNs
    { budget with rehydrateSamplesNs := samples ++ [latencyNs] }

end MemoryTierBudget

end TensorCast.Authority
