import TensorCast.Window.Plan
import TensorCast.Memory.StreamingPinnedBuffer
import TensorCast.Sink.Writes

/-!
# Executing a plan

`SourceWindowScheduler::Execute` writes the padding, then reads one window after the other and writes
its slices to the sink.  Without pinned buffers the slices of a window are written before the next
window is read.  With pinned buffers the windows go through the slots of a streaming buffer, and an
asynchronous sink takes its bytes out of a slot at some time between the request and the wait for it.
Calls and transfers are functions of a counter of the events so far, `tick`.
-/

namespace TensorCast.Window

open Core Lib ByteRange Source Memory Sink

structure SourceRead where
  sourceIndex : UInt32
  offset : UInt64
  bytes : UInt64
deriving DecidableEq, Repr

/-- An asynchronous write that the sink has accepted and not yet carried out. -/
structure Transfer where
  handle : ℕ
  slotId : ℕ
  srcOffset : UInt64
  dstOffset : UInt64
  bytes : UInt64
deriving DecidableEq, Repr

/-- A sink: the outcomes of its calls, and when it carries out its transfers. -/
structure PositionedSink where
  writeAt : ℕ → UInt64 → List UInt8 → StatusOr Unit := fun _ _ _ => .ok ()
  /-- Whether the sink is an `AsyncPositionedSink`. -/
  async : Bool := false
  /-- Whether an asynchronous write is accepted. -/
  writeAtAsync : ℕ → UInt64 → UInt64 → StatusOr Unit := fun _ _ _ => .ok ()
  /-- Whether the transfer with a handle is carried out at a time. -/
  transfers : ℕ → ℕ → Bool := fun _ _ => false
  /-- The status of the transfer with a handle. -/
  wait : ℕ → ℕ → StatusOr Unit := fun _ _ => .ok ()

/-- A pool of pinned memory: whether it grants the slots, and takes them back. -/
structure PinnedBufferPool where
  sliceBytes : UInt64
  allocate : StatusOr Unit := .ok ()
  deallocate : ℕ → Bool := fun _ => true

structure ExecState where
  tick : ℕ := 0
  reads : List SourceRead := []
  writes : List SinkWrite := []
  /-- The bytes in the slots of the pinned buffer. -/
  slots : ℕ → ℕ → UInt8 := fun _ _ => 0
  pending : List Transfer := []

/-! ## Sinks and sources -/

/-- What a transfer writes: the bytes that are in its slot when it is carried out. -/
def Transfer.write (slots : ℕ → ℕ → UInt8) (t : Transfer) : SinkWrite where
  offset := t.dstOffset
  data := slice (slots t.slotId) t.srcOffset.toNat t.bytes.toNat

/-- Some of the pending transfers are carried out. -/
def carryOut (p : Transfer → Bool) (s : ExecState) : ExecState :=
  { s with
    tick := s.tick + 1
    writes := s.writes ++ (s.pending.filter p).map (Transfer.write s.slots)
    pending := s.pending.filter fun t => !p t }

/-- What the sink carries out on its own. -/
def settle (sink : PositionedSink) (s : ExecState) : ExecState :=
  carryOut (fun t => sink.transfers s.tick t.handle) s

/-- Waiting for handles, all of them; the first failure is kept. -/
def waitHandles (sink : PositionedSink) : List ℕ → ExecState → StatusOr Unit × ExecState
  | [], s => (.ok (), s)
  | handle :: rest, s =>
    let status := sink.wait s.tick handle
    let (result, s) := waitHandles sink rest (carryOut (fun t => t.handle = handle) s)
    (match status with
      | .error e => .error e
      | .ok () => result, s)

def writeAt (sink : PositionedSink) (offset : UInt64) (data : List UInt8) (s : ExecState) :
    StatusOr Unit × ExecState :=
  (sink.writeAt s.tick offset data,
    { s with tick := s.tick + 1, writes := s.writes ++ [⟨offset, data⟩] })

def SourceWindow.read (window : SourceWindow) : SourceRead :=
  ⟨window.sourceIndex, window.srcOffset, window.length⟩

def readWindow (sources : List BaseSource) (window : SourceWindow) (s : ExecState) :
    Option (StatusOr (List UInt8) × ExecState) :=
  match sources[window.sourceIndex.toNat]? with
  | none => none
  | some source =>
    let s' := { s with tick := s.tick + 1, reads := s.reads ++ [window.read] }
    match source.readAt s.tick window.srcOffset window.length with
    | .error status => some (.error status, s')
    | .ok data =>
      if data.length ≠ window.length.toNat then
        some (.error (.dataLoss "short read while executing source-ordered window"), s')
      else some (.ok data, s')

def writeSlices (sink : PositionedSink) (window : SourceWindow) (buffer : ℕ → UInt8) :
    List WindowSlice → ExecState → StatusOr Unit × ExecState
  | [], s => (.ok (), s)
  | sl :: rest, s =>
    let offsetInWindow := sl.srcOffset - window.srcOffset
    match writeAt sink sl.dstOffset (slice buffer offsetInWindow.toNat sl.length.toNat) s with
    | (.error status, s) => (.error status, s)
    | (.ok (), s) => writeSlices sink window buffer rest s

/-! ## Padding -/

/-- The loop over the chunks of one segment of padding.  A round takes at least one byte. -/
def writePad (sink : PositionedSink) (zeroChunkBytes : UInt64) :
    ℕ → UInt64 → UInt64 → ExecState → StatusOr Unit × ExecState
  | 0, _, _, s => (.ok (), s)
  | fuel + 1, cursor, remaining, s =>
    if remaining = 0 then (.ok (), s)
    else
      let chunk := min remaining zeroChunkBytes
      match writeAt sink cursor (List.replicate chunk.toNat 0) s with
      | (.error status, s) => (.error status, s)
      | (.ok (), s) => writePad sink zeroChunkBytes fuel (cursor + chunk) (remaining - chunk) s

def writePads (sink : PositionedSink) (zeroChunkBytes : UInt64) :
    List ByteRangeSegment → ExecState → StatusOr Unit × ExecState
  | [], s => (.ok (), s)
  | pad :: rest, s =>
    match writePad sink zeroChunkBytes pad.length.toNat pad.dstOffset pad.length s with
    | (.error status, s) => (.error status, s)
    | (.ok (), s) => writePads sink zeroChunkBytes rest s

/-! ## Without pinned buffers -/

def executeUnpinned (sources : List BaseSource) (sink : PositionedSink) :
    List SourceWindow → ExecState → Option (StatusOr Unit × ExecState)
  | [], s => some (.ok (), s)
  | window :: rest, s =>
    match readWindow sources window s with
    | none => none
    | some (.error status, s) => some (.error status, s)
    | some (.ok data, s) =>
      match writeSlices sink window (fill data fun _ => 0) window.slices s with
      | (.error status, s) => some (.error status, s)
      | (.ok (), s) => executeUnpinned sources sink rest s

/-! ## With pinned buffers -/

/-- A slot whose transfers were requested and not yet waited for. -/
structure InFlight where
  slotId : ℕ
  handles : List ℕ
deriving DecidableEq, Repr

structure PinnedState where
  exec : ExecState
  spb : StreamingPinnedBuffer
  inflight : List InFlight := []

/-- Transfers are requested for the slices of a window, until one is refused. -/
def issueSlices (sink : PositionedSink) (window : SourceWindow) (slotId : ℕ) :
    List WindowSlice → List ℕ → ExecState → StatusOr Unit × List ℕ × ExecState
  | [], handles, s => (.ok (), handles, s)
  | sl :: rest, handles, s =>
    match sink.writeAtAsync s.tick sl.dstOffset sl.length with
    | .error status => (.error status, handles, { s with tick := s.tick + 1 })
    | .ok () =>
      let transfer : Transfer :=
        { handle := s.tick, slotId := slotId, srcOffset := sl.srcOffset - window.srcOffset
          dstOffset := sl.dstOffset, bytes := sl.length }
      issueSlices sink window slotId rest (handles ++ [s.tick])
        { s with tick := s.tick + 1, pending := s.pending ++ [transfer] }

/-- A slot goes back to the buffer, and the status of that is dropped. -/
def PinnedState.abort (st : PinnedState) (slotId : ℕ) : PinnedState :=
  { st with spb := (st.spb.abortProducerSlot slotId).2 }

/-- `wait_inflight`: the oldest slot is waited for and goes back to the buffer. -/
def waitInflight (sink : PositionedSink) (st : PinnedState) : StatusOr Unit × PinnedState :=
  match st.inflight with
  | [] => (.ok (), st)
  | entry :: rest =>
    let (result, exec) := waitHandles sink entry.handles st.exec
    let (returned, spb) := st.spb.abortProducerSlot entry.slotId
    (match returned with
      | .error status => .error status
      | .ok () => result,
      { exec := exec, spb := spb, inflight := rest })

/-- An asynchronous sink leaves the slot in flight, and the oldest one is waited for when as many are
in flight as may be. -/
def writeWindow (options : SchedulerOptions) (sink : PositionedSink) (window : SourceWindow)
    (slotId : ℕ) (st : PinnedState) : StatusOr Unit × PinnedState :=
  if sink.async = true then
    match issueSlices sink window slotId window.slices [] st.exec with
    | (.error status, handles, exec) =>
      let (_, exec) := waitHandles sink handles exec
      (.error status, { st with exec := exec }.abort slotId)
    | (.ok (), handles, exec) =>
      let st := { st with exec := exec, inflight := st.inflight ++ [⟨slotId, handles⟩] }
      if options.prefetchDepth.toNat ≤ st.inflight.length then waitInflight sink st
      else (.ok (), st)
  else
    match writeSlices sink window (st.exec.slots slotId) window.slices st.exec with
    | (.error status, exec) => (.error status, { st with exec := exec }.abort slotId)
    | (.ok (), exec) =>
      let (returned, spb) := st.spb.abortProducerSlot slotId
      (returned, { st with exec := exec, spb := spb })

/-- One window.  A failed read leaves bytes in its slot that nothing reads. -/
def executeWindow (options : SchedulerOptions) (sources : List BaseSource) (sink : PositionedSink)
    (window : SourceWindow) (st : PinnedState) : Option (StatusOr Unit × PinnedState) :=
  match st.spb.getFreeChunk with
  | none => none
  | some (.error status, spb) => some (.error status, { st with spb := spb })
  | some (.ok slotId, spb) =>
    let st := { st with spb := spb }
    match spb.getChunkPtr slotId with
    | none => some (.error (.internal "StreamingPinnedBuffer returned null buffer"), st)
    | some ptr =>
      match readWindow sources window (settle sink st.exec) with
      | none => none
      | some (.error status, exec) => some (.error status, { st with exec := exec }.abort slotId)
      | some (.ok data, exec) =>
        let filled := Function.update exec.slots ptr (fill data (exec.slots ptr))
        some (writeWindow options sink window slotId
          { st with exec := { exec with slots := filled } })

def executeWindows (options : SchedulerOptions) (sources : List BaseSource)
    (sink : PositionedSink) :
    List SourceWindow → PinnedState → Option (StatusOr Unit × PinnedState)
  | [], st => some (.ok (), st)
  | window :: rest, st =>
    match executeWindow options sources sink window st with
    | none => none
    | some (.error status, st) => some (.error status, st)
    | some (.ok (), st) => executeWindows options sources sink rest st

/-- The loop that empties the queue of slots in flight. -/
def drain (sink : PositionedSink) : ℕ → PinnedState → StatusOr Unit × PinnedState
  | 0, st => (.ok (), st)
  | fuel + 1, st =>
    if st.inflight = [] then (.ok (), st)
    else
      match waitInflight sink st with
      | (.error status, st) => (.error status, st)
      | (.ok (), st) => drain sink fuel st

/-- The slots go back to the pool; a first failure is answered by a reset. -/
def releaseSlots (pool : PinnedBufferPool) (st : PinnedState) : StatusOr Unit × PinnedState :=
  match st.spb.release (pool.deallocate 0) with
  | (.ok (), spb) => (.ok (), { st with spb := spb })
  | (.error _, spb) =>
    match spb.resetForNewProduction with
    | (.error status, spb) => (.error status, { st with spb := spb })
    | (.ok (), spb) =>
      let (released, spb) := spb.release (pool.deallocate 1)
      (released, { st with spb := spb })

/-- When the pinned part fails, the slots in flight are waited for and the buffer is released; its own
failures are only logged. -/
def cleanupSpb (sink : PositionedSink) (pool : PinnedBufferPool) : List InFlight → PinnedState →
    PinnedState
  | [], st =>
    let (_, spb) := st.spb.resetForNewProduction
    { st with spb := (spb.release (pool.deallocate 2)).2, inflight := [] }
  | entry :: rest, st =>
    let (_, exec) := waitHandles sink entry.handles st.exec
    cleanupSpb sink pool rest ({ st with exec := exec }.abort entry.slotId)

def executeSlots (options : SchedulerOptions) (sources : List BaseSource) (sink : PositionedSink)
    (pool : PinnedBufferPool) (windows : List SourceWindow) (st : PinnedState) :
    Option (StatusOr Unit × PinnedState) :=
  match executeWindows options sources sink windows st with
  | none => none
  | some (.error status, st) => some (.error status, st)
  | some (.ok (), st) =>
    match drain sink st.inflight.length st with
    | (.error status, st) => some (.error status, st)
    | (.ok (), st) => some (releaseSlots pool st)

def executePinned (options : SchedulerOptions) (sources : List BaseSource) (sink : PositionedSink)
    (pinnedPool : Option PinnedBufferPool) (windows : List SourceWindow) (s : ExecState) :
    Option (StatusOr Unit × ExecState) :=
  match pinnedPool with
  | none => some (.error (.failedPrecondition
      "pinned_pool is required for pinned source-ordered scheduling"), s)
  | some pool =>
    if options.windowCapBytes = 0 then
      some (.error (.failedPrecondition
        "window_cap_bytes must be > 0 for pinned source-ordered scheduling"), s)
    else if pool.sliceBytes = 0 then
      some (.error (.failedPrecondition "pinned_pool slice_bytes is zero"), s)
    else if pool.sliceBytes < options.windowCapBytes then
      some (.error (.failedPrecondition "window_cap_bytes exceeds pinned_pool slice_bytes"), s)
    else
      let fresh : StreamingPinnedBuffer :=
        { numChunks := max 1 options.prefetchDepth.toNat, chunkSize := pool.sliceBytes }
      match fresh.initializeBuffer pool.allocate with
      | (.error status, _) => some (.error status, s)
      | (.ok (), spb) =>
        match executeSlots options sources sink pool windows { exec := s, spb := spb } with
        | none => none
        | some (.error status, st) =>
          some (.error status, (cleanupSpb sink pool st.inflight st).exec)
        | some (.ok (), st) => some (.ok (), st.exec)

/-! ## `Execute` -/

/-- The constructor raises a prefetch depth of zero. -/
def sourceWindowScheduler (options : SchedulerOptions) : SchedulerOptions :=
  if options.prefetchDepth = 0 then { options with prefetchDepth := 1 } else options

def zeroChunkBytes (options : SchedulerOptions) : UInt64 :=
  if 0 < options.windowCapBytes then options.windowCapBytes else 1024 * 1024

/-- **`SourceWindowScheduler::Execute`**, `none` when it blocks or does not end within the fuel. -/
def execute (options : SchedulerOptions) (map : ByteRangeMap) (sources : List BaseSource)
    (sink : PositionedSink) (pinnedPool : Option PinnedBufferPool) (usePinnedBuffers : Bool)
    (fuel : ℕ) (s : ExecState) : Option (StatusOr Unit × ExecState) :=
  match planWindows options sources map with
  | .error status => some (.error status, s)
  | .ok (pads, merged) =>
    match splitWindows options.windowCapBytes fuel merged with
    | none => none
    | some windows =>
      match writePads sink (zeroChunkBytes options) pads s with
      | (.error status, s) => some (.error status, s)
      | (.ok (), s) =>
        if usePinnedBuffers = true then
          executePinned (sourceWindowScheduler options) sources sink pinnedPool windows s
        else executeUnpinned sources sink windows s

end TensorCast.Window
