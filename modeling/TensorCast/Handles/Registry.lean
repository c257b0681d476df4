import TensorCast.Authority.Operations
import TensorCast.Sessions.Operations

/-!
# The registry of handle leases

A process that is given a handle on the memory of a replica, a CUDA IPC handle or a memfd, holds a
lease on it.  The leases on one replica and one kind of memory share an export state: the first lease
turns the export on, and when the last one has gone it is turned off again.  The functions are the
sections under the mutex.  An export state outlives its entry in the table while somebody refers to
it; so the states are in a heap, and the table has their numbers.
-/

namespace TensorCast.Handles

open Core Lifecycle Lib Function AList
open Function (update)
open Authority (ReplicaKey StableLease PinHandle MemoryLocation allChunks)
open Binding (Duration)

/-! ## Records -/

/-- The memory that a handle gives access to: the memfd of the host or the memory of a GPU. -/
inductive Side
  | cpu
  | gpu
deriving DecidableEq, Repr

def Side.location : Side → MemoryLocation
  | .cpu => .cpu
  | .gpu => .gpu

structure CpuMemfdDescriptor where
  fd : Int32 := -1
  sizeBytes : UInt64 := 0
  offsetBytes : UInt64 := 0
deriving DecidableEq

/-- The number of an export state in the heap. -/
abbrev StateId := ℕ

abbrev Token := String

/-- `CpuExportState` and `GpuExportState`; the latter has no memfd, stable lease and keepalive. -/
structure ExportState where
  ready : Bool := false
  status : StatusOr Unit := .ok ()
  refcount : ℕ := 0
  memfd : CpuMemfdDescriptor := {}
  chunks : List UInt32 := []
  stableLease : Option StableLease := none
  exportKeepalive : Option PinHandle := none

/-- A reference to an export state, and where the state is or was in the tables. -/
structure ExportRef where
  side : Side
  key : ReplicaKey
  state : StateId
deriving DecidableEq

/-- The id of the lease is 0 until the lifecycle manager has given it one. -/
inductive LeaseRecord
  | exported (ref : ExportRef) (leaseId : UInt64)
  | external (ownerPid : Int32)
deriving DecidableEq

def LeaseRecord.ref? : LeaseRecord → Option ExportRef
  | .exported ref _ => some ref
  | .external _ => none

structure Options where
  capacity : ℕ := 4096
  ttl : Duration := Sessions.zeroDuration
  maxMintsPerSecond : UInt32 := 0

/-- What the mutex protects.  `mutexHeld` says that a thread has got stuck while it holds it. -/
structure Registry where
  leases : AList fun _ : Token => LeaseRecord := ∅
  exports : Side → AList fun _ : ReplicaKey => StateId := fun _ => ∅
  states : StateId → ExportState := fun _ => {}
  nextState : StateId := 0
  /-- in nanoseconds since the epoch -/
  mintWindowStart : ℤ := 0
  mintWindowCount : UInt32 := 0
  mutexHeld : Bool := false

/-! ## Chunks -/

def copyChunks (chunks : List UInt32) : StatusOr (List UInt32) :=
  if chunks = [] then .error (.invalidArgument "exported_chunks must be non-empty") else .ok chunks

def buildExportChunksForReplica (replicaSize : StatusOr UInt64) (chunkBytes : UInt64) :
    StatusOr (List UInt32) := do
  let sizeBytes ← replicaSize
  refuseIf (chunkBytes = 0) (.failedPrecondition "artifact_chunk_bytes is zero")
  let numChunks := (sizeBytes + chunkBytes - 1) / chunkBytes
  refuseIf (numChunks = 0) (.invalidArgument "replica size is zero")
  refuseIf (4294967295 < numChunks) (.invalidArgument "replica has too many chunks")
  .ok (allChunks numChunks.toNat)

lemma zero_mem_buildExportChunks {replicaSize : StatusOr UInt64} {chunkBytes : UInt64}
    {chunks : List UInt32} (h : buildExportChunksForReplica replicaSize chunkBytes = .ok chunks) :
    0 ∈ chunks := by
  obtain ⟨sizeBytes, -, h⟩ := bind_eq_ok.mp h
  obtain ⟨-, -, h⟩ := bind_eq_ok.mp h
  obtain ⟨_, hzero, h⟩ := bind_eq_ok.mp h
  obtain ⟨-, -, h⟩ := bind_eq_ok.mp h
  cases h
  rw [refuseIf_eq_ok] at hzero
  have hpos : 0 < ((sizeBytes + chunkBytes - 1) / chunkBytes).toNat :=
    pos_of_ne_zero fun h => hzero (UInt64.toNat_inj.mp h)
  exact List.mem_map.mpr ⟨0, List.mem_range.mpr hpos, rfl⟩

/-! ## Making an export -/

/-- What making an export gives. -/
structure Made where
  fd : Int32 := -1
  chunks : List UInt32
  stableLease : Option StableLease := none
  keepalive : Option PinHandle := none

namespace ExportState

variable (state : ExportState)

def take (side : Side) (made : Made) : ExportState :=
  match side with
  | .cpu =>
    { state with
      memfd := { state.memfd with fd := made.fd }
      stableLease := made.stableLease
      exportKeepalive := made.keepalive }
  | .gpu => { state with chunks := made.chunks }

def initialized (side : Side) : StatusOr Made → ExportState
  | .ok made => { state.take side made with status := .ok (), ready := true }
  | .error status => { state with status := .error status, ready := true }

variable {state} in
@[simp] lemma initialized_refcount (side : Side) (result : StatusOr Made) :
    (state.initialized side result).refcount = state.refcount := by
  cases result with
  | error status => rfl
  | ok made => cases side <;> rfl

end ExportState

namespace Registry

variable (r : Registry)

/-! ## Export states -/

/-- The table has this very state. -/
def Has (ref : ExportRef) : Prop := (r.exports ref.side).lookup ref.key = some ref.state

instance (ref : ExportRef) : Decidable (r.Has ref) :=
  inferInstanceAs (Decidable ((r.exports ref.side).lookup ref.key = some ref.state))

def setState (s : StateId) (state : ExportState) : Registry :=
  { r with states := update r.states s state }

@[simp] lemma setState_self (s : StateId) (state : ExportState) :
    (r.setState s state).states s = state := by
  simp [setState]

@[simp] lemma setState_ne {s s' : StateId} (h : s' ≠ s) (state : ExportState) :
    (r.setState s state).states s' = r.states s' := by
  simp [setState, h]

/-- What the first section of an acquisition finds. -/
inductive Acquired
  | refused (status : Status)
  /-- another call has made the state, or is about to -/
  | joined (s : StateId)
  /-- the caller has to make the export -/
  | created (s : StateId)

/-- A new state with one reference. -/
def addState (side : Side) (key : ReplicaKey) (state : ExportState) : Registry :=
  { r with
    exports := update r.exports side ((r.exports side).insert key r.nextState)
    states := update r.states r.nextState { state with refcount := 1 }
    nextState := r.nextState + 1 }

@[simp] lemma addState_self (side : Side) (key : ReplicaKey) (state : ExportState) :
    (r.addState side key state).states r.nextState = { state with refcount := 1 } := by
  simp [addState]

@[simp] lemma addState_ne (side : Side) (key : ReplicaKey) (state : ExportState) {s : StateId}
    (h : s ≠ r.nextState) : (r.addState side key state).states s = r.states s := by
  simp [addState, h]

variable {r} in
lemma has_addState {side : Side} {key : ReplicaKey} (hnone : (r.exports side).lookup key = none)
    (state : ExportState) (ref : ExportRef) :
    (r.addState side key state).Has ref ↔ ref = ⟨side, key, r.nextState⟩ ∨ r.Has ref := by
  obtain ⟨side', key', s⟩ := ref
  rw [Has, Has, addState]
  rcases eq_or_ne side' side with rfl | hside
  · rcases eq_or_ne key' key with rfl | hkey
    · rw [hnone]
      simp [eq_comm]
    · simp [hkey]
  · simp [hside]

def acquireExportState (side : Side) (full : String) (initial : StatusOr ExportState)
    (options : Options) (key : ReplicaKey) : Registry × Acquired :=
  match (r.exports side).lookup key with
  | some s => (r.setState s { r.states s with refcount := (r.states s).refcount + 1 }, .joined s)
  | none =>
    if options.capacity ≤ (r.exports side).keys.length then
      (r, .refused (.resourceExhausted full))
    else
      match initial with
      | .error status => (r, .refused status)
      | .ok state => (r.addState side key state, .created r.nextState)

variable {r} in
/-- What the first section of an acquisition does. -/
lemma acquireExportState_cases (side : Side) (full : String) (initial : StatusOr ExportState)
    (options : Options) (key : ReplicaKey) :
    (∃ s, r.Has ⟨side, key, s⟩ ∧ r.acquireExportState side full initial options key =
      (r.setState s { r.states s with refcount := (r.states s).refcount + 1 }, .joined s)) ∨
    (∃ status, r.acquireExportState side full initial options key = (r, .refused status)) ∨
    ∃ state, (r.exports side).lookup key = none ∧ initial = .ok state ∧
      r.acquireExportState side full initial options key =
        (r.addState side key state, .created r.nextState) := by
  unfold acquireExportState
  cases hlookup : (r.exports side).lookup key with
  | some s => exact .inl ⟨s, hlookup, rfl⟩
  | none =>
    split_ifs
    · exact .inr (.inl ⟨_, rfl⟩)
    · cases initial with
      | error status => exact .inr (.inl ⟨status, rfl⟩)
      | ok state => exact .inr (.inr ⟨state, rfl, rfl, rfl⟩)

def acquireCpuExportState (options : Options) (key : ReplicaKey) (memfd : CpuMemfdDescriptor)
    (exportedChunks : List UInt32) : Registry × Acquired :=
  r.acquireExportState .cpu "CPU export registry capacity exceeded"
    ((copyChunks exportedChunks).map fun chunks => { memfd := { memfd with fd := -1 }, chunks })
    options key

def acquireGpuExportState (options : Options) (key : ReplicaKey) : Registry × Acquired :=
  r.acquireExportState .gpu "GPU export registry capacity exceeded" (.ok {}) options key

/-- The last section of an acquisition; nothing if the state has disappeared meanwhile. -/
def install (ref : ExportRef) (result : StatusOr Made) : Option Registry :=
  if r.Has ref then
    some (r.setState ref.state ((r.states ref.state).initialized ref.side result))
  else none

/-- The table without a state. -/
def dropState (ref : ExportRef) : Registry :=
  { r with exports := update r.exports ref.side ((r.exports ref.side).erase ref.key) }

variable {r} in
lemma has_dropState {ref : ExportRef} (h : r.Has ref) (ref' : ExportRef) :
    (r.dropState ref).Has ref' ↔ r.Has ref' ∧ ref' ≠ ref := by
  obtain ⟨side, key, s⟩ := ref
  obtain ⟨side', key', -⟩ := ref'
  rw [Has, Has, dropState]
  rcases eq_or_ne side' side with rfl | hside
  · rcases eq_or_ne key' key with rfl | hkey
    · rw [show (r.exports side').lookup key' = some s from h]
      simp [eq_comm]
    · simp [hkey]
  · simp [hside]

/-- The section of `release_cpu_export_state_` and `release_gpu_export_state_`, with the state if this
was its last reference. -/
def releaseExportState (ref : ExportRef) : Registry × Option ExportState :=
  let state := r.states ref.state
  if ¬ r.Has ref ∨ state.refcount = 0 then (r, none)
  else
    let state := { state with refcount := state.refcount - 1 }
    if state.refcount ≠ 0 then (r.setState ref.state state, none)
    else ((r.setState ref.state state).dropState ref, some state)

lemma releaseExportState_leases (ref : ExportRef) :
    (r.releaseExportState ref).1.leases = r.leases := by
  unfold releaseExportState
  dsimp only
  split_ifs <;> rfl

/-! ## Leases -/

def maybeRateLimitMint (options : Options) (now : ℤ) : Registry × StatusOr Unit :=
  if options.maxMintsPerSecond = 0 then (r, .ok ())
  else
    let r :=
      if r.mintWindowStart = 0 ∨ now < r.mintWindowStart ∨
          now - r.mintWindowStart ≥ 1000000000 then
        { r with mintWindowStart := now, mintWindowCount := 0 }
      else r
    if options.maxMintsPerSecond ≤ r.mintWindowCount then
      (r, .error (.resourceExhausted "handle lease mint rate limit exceeded"))
    else ({ r with mintWindowCount := r.mintWindowCount + 1 }, .ok ())

def enterLease (options : Options) (now : ℤ) (token : Token) (record : LeaseRecord) :
    Registry × StatusOr Unit :=
  if options.capacity ≤ r.leases.keys.length then
    (r, .error (.resourceExhausted "handle lease registry capacity exceeded"))
  else
    match r.maybeRateLimitMint options now with
    | (r, .error status) => (r, .error status)
    | (r, .ok ()) => ({ r with leases := r.leases.insert token record }, .ok ())

variable {r} in
lemma maybeRateLimitMint_shape (options : Options) (now : ℤ) :
    ∃ mintWindowStart mintWindowCount,
      (r.maybeRateLimitMint options now).1 = { r with mintWindowStart, mintWindowCount } := by
  unfold maybeRateLimitMint
  dsimp only
  split_ifs <;> exact ⟨_, _, rfl⟩

variable {r} in
/-- Entering a lease writes the window of the rate limit, and the lease unless it is refused. -/
lemma enterLease_shape (options : Options) (now : ℤ) (token : Token) (record : LeaseRecord) :
    ∃ mintWindowStart mintWindowCount,
      (∃ status, r.enterLease options now token record =
        ({ r with mintWindowStart, mintWindowCount }, .error status)) ∨
      r.enterLease options now token record =
        ({ r with
            leases := r.leases.insert token record, mintWindowStart, mintWindowCount }, .ok ()) := by
  obtain ⟨start, count, hshape⟩ := maybeRateLimitMint_shape options now
  rw [enterLease]
  split_ifs
  · exact ⟨r.mintWindowStart, r.mintWindowCount, .inl ⟨_, rfl⟩⟩
  · cases hlimit : r.maybeRateLimitMint options now with
    | mk r' result =>
      rw [hlimit] at hshape
      subst hshape
      cases result with
      | error status => exact ⟨start, count, .inl ⟨status, rfl⟩⟩
      | ok u => exact ⟨start, count, .inr rfl⟩

def eraseToken (token : Token) : Registry := { r with leases := r.leases.erase token }

/-- The section that tells the record the id of its lease; nothing if the record has gone. -/
def registerLease (token : Token) (id : UInt64) : Option Registry :=
  match r.leases.lookup token with
  | none => none
  | some (.exported ref _) =>
    some { r with leases := r.leases.insert token (.exported ref id) }
  | some (.external _) => some r

/-- The section of `handle_pid_exit`: the external leases of the process go. -/
def dropExternal (pid : Int32) : Registry :=
  let dropped := r.leases.keys.filter fun token => r.leases.lookup token = some (.external pid)
  { r with leases := dropped.foldl (fun leases token => leases.erase token) r.leases }

end Registry

end TensorCast.Handles
