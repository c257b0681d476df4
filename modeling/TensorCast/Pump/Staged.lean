import TensorCast.Memory.StreamingPinnedBuffer
import TensorCast.Sink.Writes

/-!
# The staged pump

`pump_ranges` moves ranges of a source to a sink through the slots of a streaming buffer.  Producers
take ranges, fill slots and mark them ready; the consumer, in the calling thread, writes ready slots
to the sink and gives them back.  An asynchronous sink copies a slot on its own and then calls back
from another thread, which gives the slot back, unless the consumer does so first.

A step is one operation on the shared buffer, or one piece of work between two.  A load of a stop flag
belongs to the step it guards; it may miss a store made in between, so what it sees is left to the
environment.  What the environment decides is a function of a counter of the steps so far, `tick`.
-/

namespace TensorCast.Pump

open Core Lib Memory Sink

/-- A range of the source, and of the sink. -/
structure Range where
  offset : UInt64
  size : UInt64
deriving DecidableEq, Repr

/-- A write that is refused may have started a copy nevertheless. -/
inductive Submission
  | accepted
  | refused (status : Status) (started : Bool)
deriving DecidableEq, Repr

/-- The source, the sink, and what the loads of the stop flags see. -/
structure Env where
  readAt : ℕ → UInt64 → UInt64 → StatusOr (List UInt8)
  writeAt : ℕ → UInt64 → List UInt8 → StatusOr Unit := fun _ _ _ => .ok ()
  /-- Whether the sink is an `AsyncPositionedSink`. -/
  async : Bool := false
  writeAtAsync : ℕ → UInt64 → UInt64 → Submission := fun _ _ _ => .accepted
  /-- How a copy ends. -/
  copyDone : ℕ → StatusOr Unit := fun _ => .ok ()
  /-- What waiting for the handle of a copy adds to its status. -/
  wait : ℕ → StatusOr Unit := fun _ => .ok ()
  close : ℕ → StatusOr Unit := fun _ => .ok ()
  seesShouldStop : ℕ → Bool := fun _ => true
  seesDrainRequested : ℕ → Bool := fun _ => true

/-! ## The shared state -/

/-- How far a copy has come, with its status.  The last four stages are those of its callback. -/
inductive CopyStage
  /-- Nothing was started. -/
  | absent
  | copying
  | copied (status : StatusOr Unit)
  /-- `record_status` is done. -/
  | recorded (status : StatusOr Unit)
  /-- `return_if_needed` has set the flag, and has not yet given the slot back. -/
  | claimed (status : StatusOr Unit)
  | passed (status : StatusOr Unit)
  | finished (status : StatusOr Unit)
deriving DecidableEq

namespace CopyStage

def result? : CopyStage → Option (StatusOr Unit)
  | .absent | .copying => none
  | .copied status | .recorded status | .claimed status | .passed status | .finished status =>
    some status

def recorded? : CopyStage → Option (StatusOr Unit)
  | .absent | .copying | .copied _ => none
  | .recorded status | .claimed status | .passed status | .finished status => some status

/-- The callback is about to give the slot back. -/
def isClaimed : CopyStage → Bool
  | .claimed _ => true
  | _ => false

end CopyStage

/-- `AsyncSlot`, with the copy and the callback that belong to it. -/
structure AsyncSlot where
  slotId : ℕ
  destOffset : UInt64
  bytes : UInt64
  stage : CopyStage
  returned : Bool := false
deriving DecidableEq

/-- `PumpState`, the buffer and its bytes, the counters of `pump_ranges`, and the sink. -/
structure Shared where
  tick : ℕ := 0
  pool : StreamingPinnedBuffer
  memory : ℕ → ℕ → UInt8
  shouldStop : Bool := false
  drainRequested : Bool := false
  nextChunkId : UInt64 := 0
  chunkOffsets : UInt64 → Option UInt64 := fun _ => none
  producerStatus : StatusOr Unit := .ok ()
  consumerStatus : StatusOr Unit := .ok ()
  rangeIndex : ℕ := 0
  producersRemaining : ℕ
  copies : List AsyncSlot := []
  writes : List SinkWrite := []

/-- A status that keeps its first error. -/
def orElse (current : StatusOr Unit) (status : Status) : StatusOr Unit :=
  match current with
  | .error first => .error first
  | .ok () => .error status

namespace Shared

variable (sh : Shared)

def next : Shared := { sh with tick := sh.tick + 1 }

/-- A load of `should_stop`. -/
def stopSeen (env : Env) : Bool := sh.shouldStop && env.seesShouldStop sh.tick

/-- `StreamingBufferAdapter::return_chunk`; the slot of a producer is aborted. -/
def returnChunk (slotId : ℕ) : Shared :=
  let pool :=
    match sh.pool.returnChunk slotId with
    | (.ok (), pool) => pool
    | (.error status, pool) =>
      if status.code = .failedPrecondition then (pool.abortProducerSlot slotId).2 else pool
  { sh.next with pool := pool }

/-- `shutdown`, and `signal_production_complete`. -/
def shutdown : Shared := { sh.next with pool := sh.pool.signalProductionComplete }

def failProducer (status : Status) : Shared :=
  { sh.next with
    producerStatus := orElse sh.producerStatus status
    shouldStop := true, drainRequested := true }

def failConsumer (status : Status) : Shared :=
  { sh.next with consumerStatus := orElse sh.consumerStatus status }

def returnIfNeeded (index : ℕ) (slot : AsyncSlot) : Shared :=
  if slot.returned = true then sh.next
  else { sh.returnChunk slot.slotId with
    copies := sh.copies.set index { slot with returned := true } }

end Shared

/-! ## Producers -/

inductive Producer
  | idle
  /-- In the loop over a range, with what remains of it. -/
  | range (offset remaining : UInt64)
  | holding (offset remaining : UInt64) (slotId : ℕ)
  | filled (offset remaining : UInt64) (slotId : ℕ) (bytesRead : UInt64)
  | numbered (offset remaining : UInt64) (slotId : ℕ) (bytesRead chunkId : UInt64)
  /-- Before `fail_producer`, with the slot whose lease ends after it. -/
  | failing (status : Status) (slotId : Option ℕ)
  | stopping (slotId : Option ℕ)
  | releasing (slotId : ℕ)
  | exiting
  | signalling
  | done
deriving DecidableEq

/-- `run_range_producer`, and the end of its task. -/
def producerStep (env : Env) (ranges : List Range) (sh : Shared) :
    Producer → Option (Producer × Shared)
  | .idle =>
    if sh.stopSeen env = true then some (.exiting, sh.next)
    else
      let sh' := { sh.next with rangeIndex := sh.rangeIndex + 1 }
      match ranges[sh.rangeIndex]? with
      | none => some (.exiting, sh')
      | some r => some (.range r.offset r.size, sh')
  | .range offset remaining =>
    if remaining = 0 ∨ sh.stopSeen env = true then some (.idle, sh.next)
    else
      match sh.pool.getFreeChunk with
      | none => none
      | some (.error status, pool) => some (.failing status none, { sh.next with pool := pool })
      | some (.ok slotId, pool) =>
        some (.holding offset remaining slotId, { sh.next with pool := pool })
  | .holding offset remaining slotId =>
    if sh.stopSeen env = true then some (.releasing slotId, sh.next)
    else
      let toRead := min remaining sh.pool.chunkSize
      match sh.pool.getChunkPtr slotId with
      | none =>
        some (.failing (.internal "Failed to get chunk buffer pointer") (some slotId), sh.next)
      | some ptr =>
        match env.readAt sh.tick offset toRead with
        | .error status => some (.failing status (some slotId), sh.next)
        | .ok data =>
          if data.length = 0 then
            some (.failing (.outOfRange "Unexpected EOF while reading source") (some slotId),
              sh.next)
          else if toRead.toNat < data.length then
            some (.failing (.invalidArgument "Source returned more bytes than requested")
              (some slotId), sh.next)
          else
            some (.filled offset remaining slotId (UInt64.ofNat data.length), { sh.next with
              memory := Function.update sh.memory ptr (fill data (sh.memory ptr)) })
  | .filled offset remaining slotId bytesRead =>
    let chunkId := sh.nextChunkId
    let sh' := { sh.next with nextChunkId := chunkId + 1 }
    if chunkId = UInt64.ofNat (2 ^ 64 - 1) then
      some (.failing (.resourceExhausted "Chunk ID overflow") (some slotId), sh')
    else
      -- `emplace` leaves an entry that is there as it is
      let entry := (sh.chunkOffsets chunkId).getD offset
      some (.numbered offset remaining slotId bytesRead chunkId, { sh' with
        chunkOffsets := Function.update sh.chunkOffsets chunkId (some entry) })
  | .numbered offset remaining slotId bytesRead chunkId =>
    match sh.pool.markChunkReady slotId chunkId bytesRead with
    | (.error status, pool) =>
      some (.failing status (some slotId), { sh.next with pool := pool })
    | (.ok (), pool) =>
      some (.range (offset + bytesRead) (remaining - bytesRead), { sh.next with pool := pool })
  | .failing status slotId => some (.stopping slotId, sh.failProducer status)
  | .stopping none => some (.idle, sh.shutdown)
  | .stopping (some slotId) => some (.releasing slotId, sh.shutdown)
  | .releasing slotId => some (.idle, sh.returnChunk slotId)
  | .exiting =>
    let sh' := { sh.next with producersRemaining := sh.producersRemaining - 1 }
    if sh.producersRemaining = 1 then some (.signalling, sh') else some (.done, sh')
  | .signalling => some (.done, sh.shutdown)
  | .done => none

/-! ## The consumer, and the rest of `pump_ranges` -/

/-- Where the calling thread is: in `run_consumer` up to `flushing`, then behind it. -/
inductive MainPc
  | loop
  | quitting
  | taken (chunk : ReadyChunk)
  | dropping (slotId : ℕ)
  | writing (chunk : ReadyChunk) (destOffset : UInt64)
  | written (slotId : ℕ) (status : StatusOr Unit)
  | refused (index : ℕ)
  | stopping
  /-- The sweep over the copies in flight, at a position. -/
  | sweeping (i : ℕ)
  /-- The end of `finalize_inflight`, in the sweep or in the flush. -/
  | reclaiming (i : ℕ) (flush : Bool)
  | flushing
  | waiting
  | draining
  | drained (slotId : ℕ)
  | closing
  | returned (status : StatusOr Unit)
deriving DecidableEq

structure Main where
  pc : MainPc := .loop
  /-- The copies in flight, by their index. -/
  inflight : List ℕ := []
  draining : Bool := false
deriving DecidableEq

def handleStatus (env : Env) (tick : ℕ) : StatusOr Unit → StatusOr Unit
  | .error status => .error status
  | .ok () => env.wait tick

def isDeadlineExceeded : StatusOr Unit → Bool
  | .error status => status.code = .deadlineExceeded
  | .ok () => false

/-- `finalize_inflight`, up to `return_if_needed`.  It waits for the callback to record a status. -/
def finalizeInflight (env : Env) (sh : Shared) (m : Main) (slot : AsyncSlot) (i : ℕ)
    (flush : Bool) : Option (Main × Shared) :=
  match slot.stage.recorded? with
  | none => none
  | some status =>
    match handleStatus env sh.tick status with
    | .ok () => some ({ m with pc := .reclaiming i flush }, sh.next)
    | .error status =>
      some ({ m with pc := .reclaiming i flush, draining := true },
        { (sh.failConsumer status).shutdown with shouldStop := true, drainRequested := true })

def writeChunk (env : Env) (sh : Shared) (m : Main) (chunk : ReadyChunk) (destOffset : UInt64) :
    Main × Shared :=
  if env.async = true then
    let slot : AsyncSlot :=
      { slotId := chunk.slotId, destOffset := destOffset, bytes := chunk.bytesInChunk
        stage := .copying }
    match env.writeAtAsync sh.tick destOffset chunk.bytesInChunk with
    | .accepted =>
      ({ m with pc := .sweeping 0, inflight := m.inflight ++ [sh.copies.length] },
        { sh.next with copies := sh.copies ++ [slot] })
    | .refused status started =>
      let slot := if started = true then slot else { slot with stage := .absent }
      ({ m with pc := .refused sh.copies.length },
        { sh.failConsumer status with copies := sh.copies ++ [slot] })
  else
    let data := slice (sh.memory chunk.slotId) 0 chunk.bytesInChunk.toNat
    ({ m with pc := .written chunk.slotId (env.writeAt sh.tick destOffset data) },
      { sh.next with writes := sh.writes ++ [⟨destOffset, data⟩] })

/-- The status that `pump_ranges` returns. -/
def finalStatus (env : Env) (sh : Shared) : StatusOr Unit :=
  match sh.consumerStatus with
  | .error status => .error status
  | .ok () =>
    match sh.producerStatus with
    | .error status => .error status
    | .ok () => env.close sh.tick

def mainStep (env : Env) (producersDone : Bool) (sh : Shared) (m : Main) :
    Option (Main × Shared) :=
  match m.pc with
  | .loop =>
    let draining := m.draining || (sh.drainRequested && env.seesDrainRequested sh.tick)
    let m := { m with draining := draining }
    if sh.stopSeen env = true ∧ draining = false then some ({ m with pc := .flushing }, sh.next)
    else
      match sh.pool.getReadyChunk with
      | none => none
      | some (.error status, pool) =>
        let sh := { sh with pool := pool }
        if status.code = .unavailable ∨ status.code = .outOfRange then
          some ({ m with pc := .flushing }, sh.next)
        else
          some ({ m with pc := .quitting }, { sh.failConsumer status with shouldStop := true })
      | some (.ok chunk, pool) =>
        some ({ m with pc := .taken chunk }, { sh.next with pool := pool })
  | .quitting => some ({ m with pc := .flushing }, sh.shutdown)
  | .taken chunk =>
    match sh.chunkOffsets chunk.globalChunkId with
    | none =>
      -- this status replaces one that is there
      some ({ m with pc := .dropping chunk.slotId }, { sh.next with
        consumerStatus := .error (.internal "Missing destination offset for ready chunk")
        shouldStop := true })
    | some destOffset =>
      some ({ m with pc := .writing chunk destOffset }, { sh.next with
        chunkOffsets := Function.update sh.chunkOffsets chunk.globalChunkId none })
  | .dropping slotId => some ({ m with pc := .flushing }, sh.returnChunk slotId)
  | .writing chunk destOffset => some (writeChunk env sh m chunk destOffset)
  | .written slotId status =>
    match status with
    | .ok () => some ({ m with pc := .sweeping 0 }, sh.returnChunk slotId)
    | .error status =>
      some ({ m with pc := .stopping }, (sh.returnChunk slotId).failConsumer status)
  | .refused index =>
    match sh.copies[index]? with
    | none => none
    | some slot => some ({ m with pc := .stopping }, sh.returnIfNeeded index slot)
  | .stopping =>
    some ({ m with pc := .sweeping 0, draining := true }, { sh.shutdown with shouldStop := true })
  | .sweeping i =>
    match m.inflight[i]? with
    | none => some ({ m with pc := .loop }, sh.next)
    | some index =>
      match sh.copies[index]? with
      | none => none
      | some slot =>
        match slot.stage.result? with
        | none => some ({ m with pc := .sweeping (i + 1) }, sh.next)
        | some status =>
          if isDeadlineExceeded (handleStatus env sh.tick status) = true then
            some ({ m with pc := .sweeping (i + 1) }, sh.next)
          else finalizeInflight env sh m slot i false
  | .reclaiming i flush =>
    match m.inflight[i]? with
    | none => none
    | some index =>
      match sh.copies[index]? with
      | none => none
      | some slot =>
        some ({ m with
          pc := if flush = true then .flushing else .sweeping i
          inflight := m.inflight.eraseIdx i }, sh.returnIfNeeded index slot)
  | .flushing =>
    match m.inflight with
    | [] => some ({ m with pc := .waiting }, sh.next)
    | index :: _ =>
      match sh.copies[index]? with
      | none => none
      | some slot => finalizeInflight env sh m slot 0 true
  | .waiting =>
    if producersDone = false then none
    else if sh.shouldStop = true ∨ sh.drainRequested = true then
      some ({ m with pc := .draining }, sh.next)
    else some ({ m with pc := .closing }, sh.next)
  | .draining =>
    match sh.pool.getReadyChunk with
    | none => none
    | some (.error _, pool) => some ({ m with pc := .closing }, { sh.next with pool := pool })
    | some (.ok chunk, pool) =>
      some ({ m with pc := .drained chunk.slotId }, { sh.next with pool := pool })
  | .drained slotId => some ({ m with pc := .draining }, sh.returnChunk slotId)
  | .closing => some ({ m with pc := .returned (finalStatus env sh) }, sh.next)
  | .returned _ => none

/-! ## Copies and their callbacks -/

def callbackStep (env : Env) (sh : Shared) (index : ℕ) (slot : AsyncSlot) : Option Shared :=
  let set (stage : CopyStage) (sh : Shared) : Shared :=
    { sh with copies := sh.copies.set index { slot with stage := stage } }
  match slot.stage with
  | .absent => none
  | .copying =>
    match env.copyDone sh.tick with
    | .error status => some (set (.copied (.error status)) sh.next)
    | .ok () =>
      let data := slice (sh.memory slot.slotId) 0 slot.bytes.toNat
      some (set (.copied (.ok ())) { sh.next with
        writes := sh.writes ++ [⟨slot.destOffset, data⟩] })
  | .copied status => some (set (.recorded status) sh.next)
  | .recorded status =>
    if slot.returned = true then some (set (.passed status) sh.next)
    else
      some { sh.next with
        copies := sh.copies.set index { slot with stage := .claimed status, returned := true } }
  | .claimed status => some (set (.passed status) (sh.returnChunk slot.slotId))
  | .passed status =>
    match status with
    | .ok () => some (set (.finished (.ok ())) sh.next)
    | .error status => some (set (.finished (.error status)) sh.shutdown)
  | .finished _ => none

/-! ## Runs -/

inductive Thread
  | producer (i : ℕ)
  | main
  | callback (index : ℕ)
deriving DecidableEq, Repr

structure State where
  shared : Shared
  producers : List Producer
  main : Main := {}

/-- A step of one thread; `none` if it is blocked, or at its end. -/
def step (env : Env) (ranges : List Range) (t : Thread) (s : State) : Option State :=
  match t with
  | .producer i =>
    match s.producers[i]? with
    | none => none
    | some pc =>
      (producerStep env ranges s.shared pc).map fun (pc, shared) =>
        { s with shared := shared, producers := s.producers.set i pc }
  | .main =>
    (mainStep env (s.producers.all (· = .done)) s.shared s.main).map fun (main, shared) =>
      { s with shared := shared, main := main }
  | .callback index =>
    match s.shared.copies[index]? with
    | none => none
    | some slot =>
      (callbackStep env s.shared index slot).map fun shared => { s with shared := shared }

/-- The start of the staged path: the tasks of the producers are queued, and the consumer runs. -/
def start (pool : StreamingPinnedBuffer) (memory : ℕ → ℕ → UInt8) (concurrency : ℕ) : State where
  shared := { pool := pool, memory := memory, producersRemaining := concurrency }
  producers := List.replicate concurrency .idle

end TensorCast.Pump
