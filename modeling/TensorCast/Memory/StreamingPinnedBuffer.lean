import TensorCast.Core.Status

/-!
# The streaming buffer

`StreamingPinnedBuffer` lends out a fixed number of slots of pinned memory.  A producer takes a free
slot, fills it and marks it ready; a consumer takes ready slots in the order of marking and returns
them.  Each operation holds the mutex throughout; one that finds nothing to take is `none`.
-/

namespace TensorCast.Memory

open Core List Function Prod

inductive SlotState
  | free
  | producerOwned
  | ready
  | consumerOwned
deriving DecidableEq, Repr

/-- The number of a state, as the messages print it. -/
def SlotState.code : SlotState → ℕ
  | .free => 0
  | .producerOwned => 1
  | .ready => 2
  | .consumerOwned => 3

structure ReadyChunk where
  slotId : ℕ
  globalChunkId : UInt64
  bytesInChunk : UInt64
deriving DecidableEq, Repr

structure StreamingPinnedBuffer where
  numChunks : ℕ
  chunkSize : UInt64
  initialized : Bool := false
  productionComplete : Bool := false
  slotStates : ℕ → SlotState := fun _ => .free
  freeQueue : List ℕ := []
  readyQueue : List ReadyChunk := []
  chunksProduced : ℕ := 0
  chunksConsumed : ℕ := 0

namespace StreamingPinnedBuffer

def notInitialized : Status := .failedPrecondition "StreamingPinnedBuffer not initialized"

variable (b : StreamingPinnedBuffer)

def validateSlotId (slotId : ℕ) : StatusOr Unit :=
  if b.numChunks ≤ slotId then .error (.invalidArgument "Invalid slot_id") else .ok ()

/-- The buffer is initialized, and the slot exists and is in the state that is expected. -/
def requireState (slotId : ℕ) (state : SlotState) (message : String) : StatusOr Unit :=
  if b.initialized = false then .error notInitialized
  else do
    b.validateSlotId slotId
    if b.slotStates slotId ≠ state then
      let code := (b.slotStates slotId).code
      .error (.failedPrecondition s!"{message}; slot={slotId} state={code}")
    else .ok ()

def initializeBuffer (granted : StatusOr Unit) : StatusOr Unit × StreamingPinnedBuffer :=
  if b.initialized = true then
    (.error ⟨.alreadyExists, "StreamingPinnedBuffer already initialized"⟩, b)
  else
    match granted with
    | .error status => (.error status, b)
    | .ok () =>
      (.ok (), { b with
        initialized := true
        freeQueue := b.freeQueue ++ List.range b.numChunks
        slotStates := fun _ => .free })

/-- `get_free_chunk`; it waits while there is no free slot and more may come. -/
def getFreeChunk : Option (StatusOr ℕ × StreamingPinnedBuffer) :=
  if b.initialized = false then some (.error notInitialized, b)
  else
    match b.freeQueue with
    | [] =>
      if b.productionComplete = true then
        some (.error (.outOfRange "No more free chunks and production is complete"), b)
      else none
    | slotId :: rest =>
      some (.ok slotId, { b with
        freeQueue := rest
        slotStates := Function.update b.slotStates slotId .producerOwned })

def tryGetFreeChunk : StatusOr ℕ × StreamingPinnedBuffer :=
  if b.initialized = false then (.error notInitialized, b)
  else
    match b.freeQueue with
    | [] => (.error ⟨.unavailable, "No free chunks available"⟩, b)
    | slotId :: rest =>
      (.ok slotId, { b with
        freeQueue := rest
        slotStates := Function.update b.slotStates slotId .producerOwned })

def promoteProducerSlotToConsumer (slotId : ℕ) (_globalChunkId bytesInChunk : UInt64) :
    StatusOr Unit × StreamingPinnedBuffer :=
  if b.initialized = false then (.error notInitialized, b)
  else
    match b.validateSlotId slotId with
    | .error status => (.error status, b)
    | .ok () =>
      if bytesInChunk = 0 ∨ b.chunkSize < bytesInChunk then
        (.error (.invalidArgument "bytes_in_chunk must be within (0, chunk_size]"), b)
      else
        match b.requireState slotId .producerOwned
          "promote_producer_slot_to_consumer requires producer-owned slot" with
        | .error status => (.error status, b)
        | .ok () =>
          (.ok (), { b with
            slotStates := Function.update b.slotStates slotId .consumerOwned
            chunksProduced := b.chunksProduced + 1 })

def abortProducerSlot (slotId : ℕ) : StatusOr Unit × StreamingPinnedBuffer :=
  match b.requireState slotId .producerOwned "abort_producer_slot expects producer-owned slot" with
  | .error status => (.error status, b)
  | .ok () =>
    (.ok (), { b with
      freeQueue := b.freeQueue ++ [slotId]
      slotStates := Function.update b.slotStates slotId .free })

def markChunkReady (slotId : ℕ) (globalChunkId bytesInChunk : UInt64) :
    StatusOr Unit × StreamingPinnedBuffer :=
  match b.requireState slotId .producerOwned "mark_chunk_ready expects producer-owned slot" with
  | .error status => (.error status, b)
  | .ok () =>
    (.ok (), { b with
      readyQueue := b.readyQueue ++ [⟨slotId, globalChunkId, bytesInChunk⟩]
      slotStates := Function.update b.slotStates slotId .ready
      chunksProduced := b.chunksProduced + 1 })

/-- `get_ready_chunk`; it waits while nothing is ready and more may come. -/
def getReadyChunk : Option (StatusOr ReadyChunk × StreamingPinnedBuffer) :=
  if b.initialized = false then some (.error notInitialized, b)
  else
    match b.readyQueue with
    | [] =>
      if b.productionComplete = true then
        some (.error (.outOfRange "No more ready chunks and production is complete"), b)
      else none
    | chunk :: rest =>
      let popped := { b with readyQueue := rest }
      match b.validateSlotId chunk.slotId with
      | .error status => some (.error status, popped)
      | .ok () =>
        if b.slotStates chunk.slotId ≠ .ready then
          let code := (b.slotStates chunk.slotId).code
          let slotId := chunk.slotId
          some (.error (.failedPrecondition
            s!"get_ready_chunk found slot in unexpected state={code} slot={slotId}"), popped)
        else
          some (.ok chunk, { popped with
            slotStates := Function.update b.slotStates chunk.slotId .consumerOwned })

def returnChunk (slotId : ℕ) : StatusOr Unit × StreamingPinnedBuffer :=
  match b.requireState slotId .consumerOwned "return_chunk expects consumer-owned slot" with
  | .error status => (.error status, b)
  | .ok () =>
    (.ok (), { b with
      freeQueue := b.freeQueue ++ [slotId]
      slotStates := Function.update b.slotStates slotId .free
      chunksConsumed := b.chunksConsumed + 1 })

def signalProductionComplete : StreamingPinnedBuffer := { b with productionComplete := true }

/-- `inflight`, with the wrap of its subtractions. -/
def inflight : UInt64 :=
  UInt64.ofNat b.numChunks - UInt64.ofNat b.freeQueue.length - UInt64.ofNat b.readyQueue.length

/-- The pointer to a slot, as the number of the slot. -/
def getChunkPtr (slotId : ℕ) : Option ℕ := if b.numChunks ≤ slotId then none else some slotId

def resetForNewProduction : StatusOr Unit × StreamingPinnedBuffer :=
  if b.initialized = false then (.error notInitialized, b)
  else
    -- the ready slots become free, and a free queue that misses a slot is rebuilt
    let free := b.freeQueue ++ b.readyQueue.map (·.slotId)
    let freed := b.readyQueue.foldl
      (fun states chunk => Function.update states chunk.slotId SlotState.free) b.slotStates
    (.ok (), { b with
      productionComplete := false
      chunksProduced := 0
      chunksConsumed := 0
      readyQueue := []
      freeQueue := if free.length ≠ b.numChunks then List.range b.numChunks else free
      slotStates := if free.length ≠ b.numChunks then fun _ => .free else freed })

/-- `release`, with what the pool answers.  It gives up when slots stay out. -/
def release (deallocated : Bool) : StatusOr Unit × StreamingPinnedBuffer :=
  if b.initialized = false then (.error notInitialized, b)
  else if b.freeQueue.length < b.numChunks then
    let missing := b.numChunks - b.freeQueue.length
    let total := b.numChunks
    let free := b.freeQueue.length
    let produced := b.chunksProduced
    let consumed := b.chunksConsumed
    (.error ⟨.deadlineExceeded, s!"StreamingPinnedBuffer::release timed out: missing_chunks={missing} total_chunks={total} free_chunks={free} chunks_produced={produced} chunks_consumed={consumed}"⟩, b)
  else if deallocated = false then
    (.error (.internal "Failed to deallocate chunks to pinned memory pool"), b)
  else
    (.ok (), { b with
      freeQueue := [], readyQueue := [], slotStates := fun _ => .free
      initialized := false, productionComplete := false
      chunksProduced := 0, chunksConsumed := 0 })

/-! ## Who holds the slots -/

/-- The slots in the free queue, in the ready queue, with producers and with consumers. -/
def ledger (b : StreamingPinnedBuffer) (producers consumers : List ℕ) : List ℕ :=
  b.freeQueue ++ (b.readyQueue.map (·.slotId) ++ (producers ++ consumers))

/-- **Every slot is in one place**: in the free queue, in the ready queue, with a producer or with
a consumer. -/
structure Leased (b : StreamingPinnedBuffer) (producers consumers : List ℕ) : Prop where
  initialized : b.initialized = true
  slots : (b.ledger producers consumers).Perm (List.range b.numChunks)
  producer : ∀ slot ∈ producers, b.slotStates slot = .producerOwned
  ready : ∀ chunk ∈ b.readyQueue, b.slotStates chunk.slotId = .ready
  consumer : ∀ slot ∈ consumers, b.slotStates slot = .consumerOwned

/-- The chunks produced and consumed so far. -/
def counters (b : StreamingPinnedBuffer) : ℕ × ℕ := (b.chunksProduced, b.chunksConsumed)

/-- What the operations on single slots leave alone. -/
structure SameShape (b' b : StreamingPinnedBuffer) : Prop where
  numChunks : b'.numChunks = b.numChunks
  chunkSize : b'.chunkSize = b.chunkSize
  productionComplete : b'.productionComplete = b.productionComplete

variable {b} {producers consumers : List ℕ}

def places (b : StreamingPinnedBuffer) (producers consumers : List ℕ) : List (ℕ × SlotState) :=
  b.freeQueue.map (·, .free) ++ (b.readyQueue.map (fun chunk => (chunk.slotId, .ready)) ++
    (producers.map (·, .producerOwned) ++ consumers.map (·, .consumerOwned)))

lemma map_places : (b.places producers consumers).map fst = b.ledger producers consumers := by
  simp [places, ledger, comp_def]

section

variable (b : StreamingPinnedBuffer) (slot : ℕ) (producers consumers : List ℕ)

lemma places_producer : (b.places (slot :: producers) consumers).Perm
    ((slot, .producerOwned) :: b.places producers consumers) := by
  refine perm_iff_count.mpr fun a => ?_
  simp only [places, map_cons, count_append, count_cons]
  omega

lemma places_consumer : (b.places producers (slot :: consumers)).Perm
    ((slot, .consumerOwned) :: b.places producers consumers) := by
  refine perm_iff_count.mpr fun a => ?_
  simp only [places, map_cons, count_append, count_cons]
  omega

end

lemma leased_iff : b.Leased producers consumers ↔ b.initialized = true ∧
    (b.ledger producers consumers).Perm (List.range b.numChunks) ∧
    ∀ held ∈ b.places producers consumers, held.2 ≠ .free → b.slotStates held.1 = held.2 := by
  constructor
  · intro h
    refine ⟨h.initialized, h.slots, ?_⟩
    simpa [places, or_imp, forall_and] using ⟨h.ready, h.producer, h.consumer⟩
  · rintro ⟨hinit, hslots, hheld⟩
    obtain ⟨hready, hproducer, hconsumer⟩ := by
      simpa [places, or_imp, forall_and] using hheld
    exact ⟨hinit, hslots, hproducer, hready, hconsumer⟩

namespace Leased

variable {slot : ℕ} {b' : StreamingPinnedBuffer}

section

variable (h : b.Leased producers consumers)

include h

lemma nodup : (b.ledger producers consumers).Nodup :=
  h.slots.nodup_iff.mpr nodup_range

lemma lt (hslot : slot ∈ b.ledger producers consumers) : slot < b.numChunks :=
  mem_range.mp (h.slots.mem_iff.mp hslot)

lemma perm {producers' consumers' : List ℕ} (hp : producers'.Perm producers)
    (hc : consumers'.Perm consumers) : b.Leased producers' consumers' where
  initialized := h.initialized
  slots := Perm.trans (((hp.append hc).append_left _).append_left _) h.slots
  producer slot hslot := h.producer slot (hp.mem_iff.mp hslot)
  ready := h.ready
  consumer slot hslot := h.consumer slot (hc.mem_iff.mp hslot)

lemma length_freeQueue :
    b.freeQueue.length + (b.readyQueue.length + (producers.length + consumers.length)) =
      b.numChunks := by
  have := h.slots.length_eq
  simpa [ledger] using this

/-- An operation that moves one slot keeps the ledger; `others` are all other slots. -/
lemma move {producers' consumers' : List ℕ} {old new : SlotState} {others : List (ℕ × SlotState)}
    (hinit : b'.initialized = b.initialized) (hnum : b'.numChunks = b.numChunks)
    (hstates : b'.slotStates = Function.update b.slotStates slot new)
    (hold : (b.places producers consumers).Perm ((slot, old) :: others))
    (hnew : (b'.places producers' consumers').Perm ((slot, new) :: others)) :
    b'.Leased producers' consumers' := by
  obtain ⟨hinitialized, hslots, hheld⟩ := leased_iff.mp h
  have hledger := map_places ▸ hold.map fst
  have hslot : slot ∉ others.map fst :=
    (nodup_cons.mp (hledger.nodup_iff.mp h.nodup)).1
  refine leased_iff.mpr ⟨hinit.trans hinitialized, ?_, fun held hmem hfree => ?_⟩
  · rw [hnum]
    exact ((map_places ▸ hnew.map fst).trans hledger.symm).trans hslots
  · rw [hstates]
    rcases mem_cons.mp (hnew.mem_iff.mp hmem) with rfl | hother
    · exact update_self ..
    · rw [update_of_ne (ne_of_mem_of_not_mem (mem_map_of_mem hother) hslot)]
      exact hheld held (hold.mem_iff.mpr (mem_cons_of_mem _ hother)) hfree

lemma requireState_ok {state : SlotState} (hslot : slot ∈ b.ledger producers consumers)
    (hstate : b.slotStates slot = state)
    (message : String) : b.requireState slot state message = .ok () := by
  rw [requireState, if_neg (by simp [h.initialized]), validateSlotId,
    if_neg (by simpa using h.lt hslot), ok_bind, if_neg (not_not_intro hstate)]

section

variable {rest : List ℕ} (hfree : b.freeQueue = slot :: rest)

include hfree

lemma getFreeChunk :
    ∃ b', b.getFreeChunk = some (.ok slot, b') ∧ b'.SameShape b ∧
      b'.readyQueue = b.readyQueue ∧ b'.Leased (slot :: producers) consumers ∧
      b'.counters = b.counters := by
  let b' : StreamingPinnedBuffer := { b with
    freeQueue := rest
    slotStates := update b.slotStates slot .producerOwned }
  have hold : (b.places producers consumers).Perm
      ((slot, .free) :: b'.places producers consumers) := by
    rw [places, hfree]
    exact .rfl
  refine ⟨b', ?_, ⟨rfl, rfl, rfl⟩, rfl, h.move rfl rfl rfl hold (places_producer ..), rfl⟩
  simp [StreamingPinnedBuffer.getFreeChunk, h.initialized, hfree, b']

lemma tryGetFreeChunk : b.getFreeChunk = some b.tryGetFreeChunk := by
  simp [StreamingPinnedBuffer.getFreeChunk, StreamingPinnedBuffer.tryGetFreeChunk, h.initialized,
    hfree]

end

lemma getReadyChunk {chunk : ReadyChunk} {rest : List ReadyChunk}
    (hqueue : b.readyQueue = chunk :: rest) :
    ∃ b', b.getReadyChunk = some (.ok chunk, b') ∧ b'.SameShape b ∧
      b'.readyQueue = rest ∧ b'.Leased producers (chunk.slotId :: consumers) ∧
      b'.counters = b.counters := by
  have hmem : chunk.slotId ∈ b.ledger producers consumers := by simp [ledger, hqueue]
  have hstate := h.ready chunk (hqueue ▸ mem_cons_self)
  let b' : StreamingPinnedBuffer := { b with
    readyQueue := rest
    slotStates := update b.slotStates chunk.slotId .consumerOwned }
  have hold : (b.places producers consumers).Perm
      ((chunk.slotId, .ready) :: b'.places producers consumers) := by
    rw [places, hqueue]
    exact perm_middle
  refine ⟨b', ?_, ⟨rfl, rfl, rfl⟩, rfl, h.move rfl rfl rfl hold (places_consumer ..), rfl⟩
  have hlt := h.lt hmem
  simp [StreamingPinnedBuffer.getReadyChunk, h.initialized, hqueue, validateSlotId,
    not_le.mpr hlt, hstate, b']

lemma getFreeChunk_cases {result : StatusOr ℕ} (hget : b.getFreeChunk = some (result, b')) :
    (∃ slot, result = .ok slot ∧ b'.SameShape b ∧ b'.readyQueue = b.readyQueue ∧
        b'.Leased (slot :: producers) consumers ∧ b'.counters = b.counters) ∨
      ∃ status, result = .error status ∧ b' = b := by
  cases hfree : b.freeQueue with
  | nil =>
    simp only [StreamingPinnedBuffer.getFreeChunk, h.initialized, hfree] at hget
    cases hcomplete : b.productionComplete
    · simp [hcomplete] at hget
    · simp only [hcomplete, if_true, Bool.true_eq_false, if_false, Option.some.injEq,
        Prod.mk.injEq] at hget
      exact .inr ⟨_, hget.1.symm, hget.2.symm⟩
  | cons slot rest =>
    obtain ⟨_, hb₁, htaken⟩ := h.getFreeChunk hfree
    rw [hget] at hb₁
    obtain ⟨rfl, rfl⟩ := hb₁
    exact .inl ⟨slot, rfl, htaken⟩

lemma getReadyChunk_cases {result : StatusOr ReadyChunk} (hget : b.getReadyChunk = some (result, b')) :
    (∃ chunk, result = .ok chunk ∧ b'.SameShape b ∧ b.readyQueue = chunk :: b'.readyQueue ∧
        b'.Leased producers (chunk.slotId :: consumers) ∧ b'.counters = b.counters) ∨
      ∃ status, result = .error status ∧ status.code = .outOfRange ∧ b.readyQueue = [] ∧
        b.productionComplete = true ∧ b' = b := by
  cases hqueue : b.readyQueue with
  | nil =>
    simp only [StreamingPinnedBuffer.getReadyChunk, h.initialized, hqueue] at hget
    cases hcomplete : b.productionComplete
    · simp [hcomplete] at hget
    · simp only [hcomplete, if_true, Bool.true_eq_false, if_false, Option.some.injEq,
        Prod.mk.injEq] at hget
      exact .inr ⟨_, hget.1.symm, rfl, rfl, rfl, hget.2.symm⟩
  | cons chunk rest =>
    obtain ⟨_, hb₁, hshape, hready, hleased⟩ := h.getReadyChunk hqueue
    rw [hget] at hb₁
    obtain ⟨rfl, rfl⟩ := hb₁
    exact .inl ⟨chunk, rfl, hshape, by rw [hready], hleased⟩

lemma signalProductionComplete : b.signalProductionComplete.Leased producers consumers :=
  ⟨h.initialized, h.slots, h.producer, h.ready, h.consumer⟩

end

section

variable (h : b.Leased (slot :: producers) consumers)

include h

lemma producer_apart :
    slot ∉ b.readyQueue.map (·.slotId) ∧ slot ∉ producers ∧ slot ∉ consumers := by
  have hperm := (places_producer b slot producers consumers).map fst
  rw [map_cons, map_places, map_places] at hperm
  have hnodup := hperm.nodup_iff.mp h.nodup
  simp only [ledger, nodup_cons, mem_append, not_or] at hnodup
  exact hnodup.1.2

lemma abortProducerSlot :
    ∃ b', b.abortProducerSlot slot = (.ok (), b') ∧ b'.SameShape b ∧
      b'.readyQueue = b.readyQueue ∧ b'.Leased producers consumers ∧
      b'.counters = b.counters := by
  have hmem : slot ∈ b.ledger (slot :: producers) consumers := by simp [ledger]
  let b' : StreamingPinnedBuffer := { b with
    freeQueue := b.freeQueue ++ [slot]
    slotStates := update b.slotStates slot .free }
  have hnew : (b'.places producers consumers).Perm
      ((slot, .free) :: b.places producers consumers) := by
    simp [places, b']
  refine ⟨b', ?_, ⟨rfl, rfl, rfl⟩, rfl, h.move rfl rfl rfl (places_producer ..) hnew, rfl⟩
  rw [StreamingPinnedBuffer.abortProducerSlot,
    h.requireState_ok hmem (h.producer slot mem_cons_self)]

lemma promoteProducerSlotToConsumer (globalChunkId bytesInChunk : UInt64) :
    (∃ status, b.promoteProducerSlotToConsumer slot globalChunkId bytesInChunk =
      (.error status, b)) ∨
    ∃ b', b.promoteProducerSlotToConsumer slot globalChunkId bytesInChunk = (.ok (), b') ∧
      b'.SameShape b ∧ b'.readyQueue = b.readyQueue ∧ b'.Leased producers (slot :: consumers) ∧
      b'.counters = (b.chunksProduced + 1, b.chunksConsumed) := by
  have hmem : slot ∈ b.ledger (slot :: producers) consumers := by simp [ledger]
  have hlt := h.lt hmem
  rw [StreamingPinnedBuffer.promoteProducerSlotToConsumer, if_neg (by simp [h.initialized]),
    validateSlotId, if_neg (by simpa using hlt),
    h.requireState_ok hmem (h.producer slot mem_cons_self)]
  by_cases hbytes : bytesInChunk = 0 ∨ b.chunkSize < bytesInChunk
  · simp only [if_pos hbytes]
    exact .inl ⟨_, rfl⟩
  let b' : StreamingPinnedBuffer := { b with
    slotStates := update b.slotStates slot .consumerOwned
    chunksProduced := b.chunksProduced + 1 }
  simp only [if_neg hbytes]
  exact .inr ⟨b', rfl, ⟨rfl, rfl, rfl⟩, rfl,
    h.move rfl rfl rfl (places_producer ..) (places_consumer b' ..), rfl⟩

lemma markChunkReady (globalChunkId bytesInChunk : UInt64) :
    ∃ b', b.markChunkReady slot globalChunkId bytesInChunk = (.ok (), b') ∧ b'.SameShape b ∧
      b'.readyQueue = b.readyQueue ++ [⟨slot, globalChunkId, bytesInChunk⟩] ∧
      b'.Leased producers consumers ∧
      b'.counters = (b.chunksProduced + 1, b.chunksConsumed) := by
  have hmem : slot ∈ b.ledger (slot :: producers) consumers := by simp [ledger]
  let b' : StreamingPinnedBuffer := { b with
    readyQueue := b.readyQueue ++ [⟨slot, globalChunkId, bytesInChunk⟩]
    slotStates := update b.slotStates slot .ready
    chunksProduced := b.chunksProduced + 1 }
  have hnew : (b'.places producers consumers).Perm
      ((slot, .ready) :: b.places producers consumers) := by
    refine perm_iff_count.mpr fun a => ?_
    simp only [places, b', map_append, map_cons, map_nil, count_append, count_cons, count_nil]
    omega
  refine ⟨b', ?_, ⟨rfl, rfl, rfl⟩, rfl, h.move rfl rfl rfl (places_producer ..) hnew, rfl⟩
  rw [StreamingPinnedBuffer.markChunkReady, h.requireState_ok hmem (h.producer slot mem_cons_self)]

end

lemma returnChunk (h : b.Leased producers (slot :: consumers)) :
    ∃ b', b.returnChunk slot = (.ok (), b') ∧ b'.SameShape b ∧
      b'.readyQueue = b.readyQueue ∧ b'.Leased producers consumers ∧
      b'.counters = (b.chunksProduced, b.chunksConsumed + 1) := by
  have hmem : slot ∈ b.ledger producers (slot :: consumers) := by simp [ledger]
  let b' : StreamingPinnedBuffer := { b with
    freeQueue := b.freeQueue ++ [slot]
    slotStates := update b.slotStates slot .free
    chunksConsumed := b.chunksConsumed + 1 }
  have hnew : (b'.places producers consumers).Perm
      ((slot, .free) :: b.places producers consumers) := by
    simp [places, b']
  refine ⟨b', ?_, ⟨rfl, rfl, rfl⟩, rfl, h.move rfl rfl rfl (places_consumer ..) hnew, rfl⟩
  rw [StreamingPinnedBuffer.returnChunk, h.requireState_ok hmem (h.consumer slot mem_cons_self)]

lemma returnChunk_producer (h : b.Leased (slot :: producers) consumers) :
    ∃ status, b.returnChunk slot = (.error status, b) ∧ status.code = .failedPrecondition := by
  have hlt : slot < b.numChunks := h.lt (by simp [ledger])
  have hstate := h.producer slot mem_cons_self
  simp [StreamingPinnedBuffer.returnChunk, requireState, h.initialized, validateSlotId,
    not_le.mpr hlt, hstate, Status.failedPrecondition]

end Leased

/-- A buffer before a transfer: all its slots are free, and production is open. -/
structure Fresh (b : StreamingPinnedBuffer) : Prop where
  leased : b.Leased [] []
  readyQueue : b.readyQueue = []
  productionComplete : b.productionComplete = false

lemma fresh_initializeBuffer (numChunks : ℕ) (chunkSize : UInt64) :
    ∃ b', ({ numChunks := numChunks, chunkSize := chunkSize } :
        StreamingPinnedBuffer).initializeBuffer (.ok ()) = (.ok (), b') ∧
      b'.numChunks = numChunks ∧ b'.Fresh := by
  refine ⟨_, rfl, rfl, ⟨rfl, ?_, ?_, ?_, ?_⟩, rfl, rfl⟩
  · simp [ledger]
  all_goals exact forall_mem_nil _

lemma Leased.fresh_reset (h : b.Leased [] []) :
    ∃ b', b.resetForNewProduction = (.ok (), b') ∧ b'.numChunks = b.numChunks ∧ b'.Fresh ∧
      b'.counters = (0, 0) := by
  have hslots : (b.freeQueue ++ b.readyQueue.map (·.slotId)).Perm (range b.numChunks) := by
    simpa [ledger] using h.slots
  have hlength : ¬ (b.freeQueue ++ b.readyQueue.map (·.slotId)).length ≠ b.numChunks :=
    not_not.mpr (hslots.length_eq.trans length_range)
  refine ⟨b.resetForNewProduction.2, ?_, ?_, ⟨⟨?_, ?_, ?_, ?_, ?_⟩, ?_, ?_⟩, ?_⟩
  all_goals
    simp only [resetForNewProduction, counters, h.initialized, Bool.true_eq_false, if_false,
      if_neg hlength]
  · simpa [ledger] using hslots
  all_goals exact forall_mem_nil _

end StreamingPinnedBuffer

end TensorCast.Memory
