import TensorCast.Authority.Records
import TensorCast.Lib.Walk

/-!
# The CPU arena

The arena maps the CPU memory of the replicas and tells the kernel which pages it may reclaim.  The
calls of `madvise` are kept as data; what the operating system answers is a parameter of each
operation.  The `mlock` calls change nothing that any operation reads and are left out.
-/

namespace TensorCast.Authority

open Core Lib

/-! ## The operating system -/

inductive MadvFlag
  | free
  | dontneed
  | pageout
deriving DecidableEq, Repr

structure Madvise where
  addr : UInt64
  length : UInt64
  flag : MadvFlag
deriving DecidableEq

/-- What the operating system answers during one operation. -/
structure Os where
  /-- The region that `mmap` reserves, shared through a memfd or private. -/
  reserve : Bool → UInt64 → StatusOr CpuRegion
  /-- The residency of the pages of an address range, unless `mincore` fails. -/
  mincore : UInt64 → UInt64 → Option (List Bool) := fun _ _ => none
  /-- The same when the preemptible bytes are counted, at the end of the operation. -/
  mincoreAtCount : UInt64 → UInt64 → Option (List Bool) := fun _ _ => none
  /-- Whether a call of `madvise` fails with `EINVAL`. -/
  madviseInvalid : Madvise → Bool := fun _ => false
  madvFreeAvailable : Bool := true
  madvPageoutAvailable : Bool := true
  /-- The steady clock when a chunk is looked at. -/
  now : UInt32 → ℤ := fun _ => 0

/-! ## Visiting chunks -/

/-- Changes the record of one chunk, unless the chunk does not exist or the change is refused. -/
def visitRecord (outOfRange : Status) (visit : ChunkRecord → StatusOr ChunkRecord) (idx : UInt32)
    (records : List ChunkRecord) : StatusOr (List ChunkRecord) :=
  match records[idx.toNat]? with
  | none => .error outOfRange
  | some record => (visit record).map (records.set idx.toNat ·)

def modifyChunks (f : ChunkRecord → ChunkRecord) (chunks : List UInt32)
    (records : List ChunkRecord) : List ChunkRecord :=
  chunks.foldl (fun records idx => records.modify idx.toNat f) records

/-! ## Regions -/

structure CpuArena where
  chunkBytes : UInt64
  cpuSharedMemoryEnabled : Bool := true
deriving DecidableEq

namespace CpuArena

variable (arena : CpuArena)

def allocateRegion (os : Os) (bytes : UInt64) : StatusOr CpuRegion :=
  if bytes = 0 then .ok {} else os.reserve arena.cpuSharedMemoryEnabled bytes

def chunkAddr (alloc : ReplicaAllocation) (idx : UInt64) : UInt64 :=
  alloc.cpuRegion.base + idx * arena.chunkBytes

/-! ## Giving pages back -/

def evictFlag (os : Os) : MadvFlag := if os.madvPageoutAvailable then .pageout else .dontneed

/-- The calls for one chunk that becomes preemptible. -/
def markCalls (os : Os) (alloc : ReplicaAllocation) (idx : UInt32) : List Madvise :=
  let call flag : Madvise := ⟨arena.chunkAddr alloc idx.toUInt64, arena.chunkBytes, flag⟩
  if 0 ≤ alloc.cpuRegion.memfd then [call (evictFlag os)]
  else if os.madvFreeAvailable then
    if os.madviseInvalid (call .free) then [call .free, call .dontneed] else [call .free]
  else [call .dontneed]

def markChunk (os : Os) (alloc : ReplicaAllocation) (idx : UInt32) (calls : List Madvise) :
    StatusOr (List Madvise) :=
  match alloc.chunkRecords[idx.toNat]? with
  | none => .error (.outOfRange "Chunk index out of range")
  | some record => if record.isKept then .ok calls else .ok (calls ++ arena.markCalls os alloc idx)

def markPreemptible (os : Os) (alloc : ReplicaAllocation) (idx : List UInt32) :
    List Madvise × StatusOr Unit :=
  if alloc.cpuRegion.base = 0 then
    ([], .error (.failedPrecondition "CPU region not allocated"))
  else walk (arena.markChunk os alloc) idx []

/-- The loop of `evict_tail_bytes` over the first `n` chunks, from the last one down. -/
def evictTail (os : Os) (alloc : ReplicaAllocation) (bytes : UInt64) :
    ℕ → UInt64 → List Madvise → UInt64 × List Madvise
  | 0, freed, calls => (freed, calls)
  | n + 1, freed, calls =>
    if bytes ≤ freed then (freed, calls)
    else
      match alloc.chunkRecords[n]? with
      | none => (freed, calls)
      | some record =>
        if record.isKept then evictTail os alloc bytes n freed calls
        else
          evictTail os alloc bytes n (freed + arena.chunkBytes)
            (calls ++ [⟨arena.chunkAddr alloc (UInt64.ofNat n), arena.chunkBytes, evictFlag os⟩])

def evictTailBytes (os : Os) (alloc : ReplicaAllocation) (bytes : UInt64) :
    UInt64 × List Madvise :=
  if alloc.cpuRegion.base = 0 ∨ bytes = 0 then (0, [])
  else arena.evictTail os alloc bytes alloc.numChunks 0 []

end CpuArena

/-! ## Pins -/

def pinChunk : UInt32 → List ChunkRecord → StatusOr (List ChunkRecord) :=
  visitRecord (.outOfRange "Chunk index out of range") fun record => .ok record.pin

/-- Pins chunks.  The pins of an index list that is refused in the middle stay. -/
def pinChunks (key : ReplicaKey) (alloc : ReplicaAllocation) (chunkIndices : List UInt32) :
    ReplicaAllocation × StatusOr (Option PinHandle) :=
  if chunkIndices = [] then (alloc, .ok none)
  else if alloc.cpuRegion.base = 0 then
    (alloc, .error (.failedPrecondition "CPU region not allocated"))
  else
    let chunks := sortUnique chunkIndices
    let (chunkRecords, result) := walk pinChunk chunks alloc.chunkRecords
    ({ alloc with chunkRecords }, result.map fun () => some { key, chunks })

/-- What dropping a pin handle does. -/
def releasePins (alloc : ReplicaAllocation) (chunkIndices : List UInt32) : ReplicaAllocation :=
  if alloc.cpuRegion.base = 0 then alloc
  else { alloc with chunkRecords := modifyChunks ChunkRecord.unpin chunkIndices alloc.chunkRecords }

end TensorCast.Authority
