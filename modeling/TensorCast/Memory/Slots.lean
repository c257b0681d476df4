import TensorCast.Memory.StreamingPinnedBuffer
import TensorCast.Lib.Transition

/-!
# The slots of a streaming buffer over whole runs

Producers and consumers call the buffer in any order.  Beside the buffer, a state says which slots
they hold, which chunks were marked ready and which were delivered since the last reset, and what
became of the productions before it.
-/

namespace TensorCast.Memory

open Core Lib StreamingPinnedBuffer List

/-! ## Producers, consumers and the buffer -/

/-- A production that a reset has ended: the chunks marked ready, delivered, and dropped by the
reset. -/
structure Production where
  marked : List ReadyChunk
  delivered : List ReadyChunk
  dropped : List ReadyChunk
deriving DecidableEq, Repr

structure Slots where
  buffer : StreamingPinnedBuffer
  producers : List ℕ := []
  consumers : List ℕ := []
  marked : List ReadyChunk := []
  delivered : List ReadyChunk := []
  past : List Production := []

/-- The operations of the buffer; each holds the mutex from its start, or from its last wait, to
its end. -/
inductive SlotOp
  | getFreeChunk
  | tryGetFreeChunk
  | promote (slotId : ℕ) (globalChunkId bytesInChunk : UInt64)
  | abort (slotId : ℕ)
  | markChunkReady (slotId : ℕ) (globalChunkId bytesInChunk : UInt64)
  | getReadyChunk
  | returnChunk (slotId : ℕ)
  | signalProductionComplete
  | resetForNewProduction
deriving DecidableEq, Repr

namespace Slots

/-- Before any call. -/
def start (numChunks : ℕ) (chunkSize : UInt64) : Slots where
  buffer := (({ numChunks := numChunks, chunkSize := chunkSize } :
    StreamingPinnedBuffer).initializeBuffer (.ok ())).2

/-- A producer has asked for a free slot. -/
def taken (s : Slots) : StatusOr ℕ × StreamingPinnedBuffer → Slots
  | (.ok slotId, buffer) => { s with buffer, producers := slotId :: s.producers }
  | (.error _, buffer) => { s with buffer }

def step : SlotOp → Slots → Option Slots
  | .getFreeChunk, s => s.buffer.getFreeChunk.map s.taken
  | .tryGetFreeChunk, s => some (s.taken s.buffer.tryGetFreeChunk)
  | .promote slotId globalChunkId bytesInChunk, s =>
    match s.buffer.promoteProducerSlotToConsumer slotId globalChunkId bytesInChunk with
    | (.ok (), buffer) => some { s with
        buffer, producers := s.producers.erase slotId, consumers := slotId :: s.consumers }
    | (.error _, buffer) => some { s with buffer }
  | .abort slotId, s =>
    match s.buffer.abortProducerSlot slotId with
    | (.ok (), buffer) => some { s with buffer, producers := s.producers.erase slotId }
    | (.error _, buffer) => some { s with buffer }
  | .markChunkReady slotId globalChunkId bytesInChunk, s =>
    match s.buffer.markChunkReady slotId globalChunkId bytesInChunk with
    | (.ok (), buffer) => some { s with
        buffer, producers := s.producers.erase slotId
        marked := s.marked ++ [⟨slotId, globalChunkId, bytesInChunk⟩] }
    | (.error _, buffer) => some { s with buffer }
  | .getReadyChunk, s =>
    s.buffer.getReadyChunk.map fun
      | (.ok chunk, buffer) => { s with
          buffer, consumers := chunk.slotId :: s.consumers, delivered := s.delivered ++ [chunk] }
      | (.error _, buffer) => { s with buffer }
  | .returnChunk slotId, s =>
    match s.buffer.returnChunk slotId with
    | (.ok (), buffer) => some { s with buffer, consumers := s.consumers.erase slotId }
    | (.error _, buffer) => some { s with buffer }
  | .signalProductionComplete, s => some { s with buffer := s.buffer.signalProductionComplete }
  | .resetForNewProduction, s =>
    match s.buffer.resetForNewProduction with
    | (.ok (), buffer) => some { s with
        buffer, marked := [], delivered := []
        past := s.past ++ [⟨s.marked, s.delivered, s.buffer.readyQueue⟩] }
    | (.error _, buffer) => some { s with buffer }

end Slots

/-- Producers and consumers use the slots they hold, and the buffer is reset while nobody holds
one. -/
def SlotOp.wellBehaved (s : Slots) : SlotOp → Bool
  | .promote slotId _ _ => slotId ∈ s.producers
  | .abort slotId => slotId ∈ s.producers
  | .markChunkReady slotId _ _ => slotId ∈ s.producers
  | .returnChunk slotId => slotId ∈ s.consumers
  | .resetForNewProduction => s.producers.isEmpty && s.consumers.isEmpty
  | _ => true

/-! ## The counters -/

namespace StreamingPinnedBuffer

/-- What is produced and not yet consumed is in the ready queue or with a consumer. -/
def Counted (b : StreamingPinnedBuffer) (held : ℕ) : Prop :=
  b.chunksProduced = b.chunksConsumed + (b.readyQueue.length + held)

end StreamingPinnedBuffer

/-! ## Runs -/

namespace Slots

/-- Every slot is in one place, the counters say how many chunks are ready or consumed, and chunks
are delivered in the order of marking. -/
structure Disciplined (numChunks : ℕ) (s : Slots) : Prop where
  leased : s.buffer.Leased s.producers s.consumers
  counted : s.buffer.Counted s.consumers.length
  inOrder : s.marked = s.delivered ++ s.buffer.readyQueue
  ended : ∀ production ∈ s.past, production.marked = production.delivered ++ production.dropped
  size : s.buffer.numChunks = numChunks

variable {numChunks slot : ℕ} {s s' : Slots} {buffer : StreamingPinnedBuffer}

section

variable (h : s.Disciplined numChunks)

include h

lemma Disciplined.producer (hmem : slot ∈ s.producers) :
    s.buffer.Leased (slot :: s.producers.erase slot) s.consumers :=
  h.leased.perm (perm_cons_erase hmem).symm .rfl

lemma Disciplined.consumer (hmem : slot ∈ s.consumers) :
    s.buffer.Leased s.producers (slot :: s.consumers.erase slot) :=
  h.leased.perm .rfl (perm_cons_erase hmem).symm

lemma Disciplined.move (p c : ℕ) (hshape : s'.buffer.SameShape s.buffer)
    (hleased : s'.buffer.Leased s'.producers s'.consumers)
    (hcounters : s'.buffer.counters = (s.buffer.chunksProduced + p, s.buffer.chunksConsumed + c))
    (hheld : c + (s'.buffer.readyQueue.length + s'.consumers.length) =
      p + (s.buffer.readyQueue.length + s.consumers.length))
    (hinOrder : s'.marked = s'.delivered ++ s'.buffer.readyQueue) (hpast : s'.past = s.past) :
    s'.Disciplined numChunks := by
  obtain ⟨_, _⟩ := Prod.mk.inj hcounters
  have hcounted := h.counted
  refine ⟨hleased, ?_, hinOrder, hpast ▸ h.ended, hshape.numChunks.trans h.size⟩
  rw [StreamingPinnedBuffer.Counted] at hcounted ⊢
  omega

lemma Disciplined.taken {result : StatusOr ℕ}
    (hget : s.buffer.getFreeChunk = some (result, buffer)) :
    (s.taken (result, buffer)).Disciplined numChunks := by
  rcases h.leased.getFreeChunk_cases hget with
    ⟨_, rfl, hshape, hready, hleased, hcounters⟩ | ⟨_, rfl, rfl⟩
  · refine h.move 0 0 hshape hleased hcounters ?_ ?_ rfl
    · simp [Slots.taken, hready]
    · simpa [Slots.taken, hready] using h.inOrder
  · exact h

lemma Disciplined.delivered (hstep : step .getReadyChunk s = some s') :
    s'.Disciplined numChunks := by
  obtain ⟨⟨_, _⟩, hget, rfl⟩ := Option.map_eq_some_iff.mp hstep
  rcases h.leased.getReadyChunk_cases hget with
    ⟨_, rfl, hshape, hready, hleased, hcounters⟩ | ⟨_, rfl, -, -, -, rfl⟩
  · refine h.move 0 0 hshape hleased hcounters ?_ ?_ rfl
    · simp only [hready, length_cons]
      omega
    · simp [h.inOrder, hready]
  · exact h

/-- The producers' and the consumers' operations on a slot they hold succeed, except that a
promotion may refuse the number of bytes. -/
lemma Disciplined.slot_step {op : SlotOp}
    (hop : op.wellBehaved s = true) (hstep : step op s = some s') :
    match op with
    | .promote .. | .abort _ | .markChunkReady .. | .returnChunk _ => s'.Disciplined numChunks
    | _ => True := by
  cases op with
  | promote slotId globalChunkId bytesInChunk =>
    have hmem : slotId ∈ s.producers := by simpa [SlotOp.wellBehaved] using hop
    simp only [step] at hstep
    rcases (h.producer hmem).promoteProducerSlotToConsumer globalChunkId bytesInChunk with
      ⟨_, hrefused⟩ | ⟨b, hok, hshape, hready, hleased, hcounters⟩
    · rw [hrefused] at hstep
      cases hstep
      exact h
    · rw [hok] at hstep
      cases hstep
      refine h.move 1 0 hshape hleased hcounters ?_ ?_ rfl
      · simp only [hready, length_cons]
        omega
      · simpa [hready] using h.inOrder
  | abort slotId =>
    have hmem : slotId ∈ s.producers := by simpa [SlotOp.wellBehaved] using hop
    obtain ⟨b, hok, hshape, hready, hleased, hcounters⟩ := (h.producer hmem).abortProducerSlot
    simp only [step, hok] at hstep
    cases hstep
    refine h.move 0 0 hshape hleased hcounters ?_ ?_ rfl
    · simp [hready]
    · simpa [hready] using h.inOrder
  | markChunkReady slotId globalChunkId bytesInChunk =>
    have hmem : slotId ∈ s.producers := by simpa [SlotOp.wellBehaved] using hop
    obtain ⟨b, hok, hshape, hready, hleased, hcounters⟩ :=
      (h.producer hmem).markChunkReady globalChunkId bytesInChunk
    simp only [step, hok] at hstep
    cases hstep
    refine h.move 1 0 hshape hleased hcounters ?_ ?_ rfl
    · simp only [hready, length_append, length_singleton]
      omega
    · simp [hready, h.inOrder]
  | returnChunk slotId =>
    have hmem : slotId ∈ s.consumers := by simpa [SlotOp.wellBehaved] using hop
    obtain ⟨b, hok, hshape, hready, hleased, hcounters⟩ := (h.consumer hmem).returnChunk
    simp only [step, hok] at hstep
    cases hstep
    refine h.move 0 1 hshape hleased hcounters ?_ ?_ rfl
    · have hlength := length_erase_add_one hmem
      simp only [hready]
      omega
    · simpa [hready] using h.inOrder
  | _ => trivial

lemma Disciplined.reset (hop : SlotOp.wellBehaved s .resetForNewProduction = true)
    (hstep : step .resetForNewProduction s = some s') : s'.Disciplined numChunks := by
  obtain ⟨hproducers, hconsumers⟩ : s.producers = [] ∧ s.consumers = [] := by
    simpa [SlotOp.wellBehaved] using hop
  have hleased := h.leased
  rw [hproducers, hconsumers] at hleased
  obtain ⟨b, hok, hsize, hfresh, hcounters⟩ := hleased.fresh_reset
  obtain ⟨hproduced, hconsumed⟩ := Prod.mk.inj hcounters
  simp only [step, hok] at hstep
  cases hstep
  refine ⟨?_, ?_, ?_, ?_, hsize.trans h.size⟩
  · simpa only [hproducers, hconsumers] using hfresh.leased
  · simp [StreamingPinnedBuffer.Counted, hproduced, hconsumed, hfresh.readyQueue, hconsumers]
  · simp [hfresh.readyQueue]
  · exact forall_mem_append.mpr ⟨h.ended, forall_mem_singleton.mpr h.inOrder⟩

lemma Disciplined.step {op : SlotOp}
    (hop : op.wellBehaved s = true) (hstep : step op s = some s') : s'.Disciplined numChunks := by
  have hslot := h.slot_step hop hstep
  cases op with
  | getFreeChunk =>
    obtain ⟨⟨_, buffer⟩, hget, rfl⟩ := Option.map_eq_some_iff.mp hstep
    exact h.taken hget
  | tryGetFreeChunk =>
    cases hstep
    cases hfree : s.buffer.freeQueue with
    | nil =>
      -- with no free slot the call is refused, where the blocking one waits
      simp only [tryGetFreeChunk, h.leased.initialized, hfree]
      exact h
    | cons slot rest =>
      exact h.taken (h.leased.tryGetFreeChunk hfree)
  | getReadyChunk => exact h.delivered hstep
  | signalProductionComplete =>
    cases hstep
    exact ⟨h.leased.signalProductionComplete, h.counted, h.inOrder, h.ended, h.size⟩
  | resetForNewProduction => exact h.reset hop hstep
  | promote | abort | markChunkReady | returnChunk => exact hslot

end

lemma disciplined_start (numChunks : ℕ) (chunkSize : UInt64) :
    (start numChunks chunkSize).Disciplined numChunks := by
  obtain ⟨b, hb, -, hfresh⟩ := fresh_initializeBuffer numChunks chunkSize
  have hbuffer : (start numChunks chunkSize).buffer = b := congrArg Prod.snd hb
  refine ⟨?_, rfl, rfl, by simp [start], rfl⟩
  rw [hbuffer]
  exact hfresh.leased

lemma Disciplined.inflight (h : s.Disciplined numChunks) (hsize : numChunks < 2 ^ 64) :
    s.buffer.inflight.toNat = s.producers.length + s.consumers.length := by
  have hlength := h.leased.length_freeQueue
  rw [h.size] at hlength
  unfold StreamingPinnedBuffer.inflight
  simp only [h.size, UInt64.toNat_sub, UInt64.toNat_ofNat']
  omega

/-- **Slot discipline.**  In every run of well-behaved producers and consumers every slot is once in the
free queue, once in the ready queue, with a producer or with a consumer; what is produced and not
consumed is ready or with a consumer; the chunks marked ready are those delivered, in this order, and
those in the ready queue, which a reset drops; and the count of the slots in flight does not wrap. -/
theorem slots_in_one_place {numChunks : ℕ} (hint : numChunks < 2 ^ 31) (chunkSize : UInt64)
    {s : Slots}
    (h : Reaches step (fun s op => op.wellBehaved s = true) (start numChunks chunkSize) s) :
    (s.buffer.freeQueue ++ (s.buffer.readyQueue.map (·.slotId) ++
        (s.producers ++ s.consumers))).Perm (List.range numChunks) ∧
      s.buffer.chunksProduced =
        s.buffer.chunksConsumed + (s.buffer.readyQueue.length + s.consumers.length) ∧
      s.marked = s.delivered ++ s.buffer.readyQueue ∧
      (∀ production ∈ s.past, production.marked = production.delivered ++ production.dropped) ∧
      s.buffer.inflight.toNat = s.producers.length + s.consumers.length := by
  have hdisciplined : s.Disciplined numChunks :=
    h.invariant (disciplined_start numChunks chunkSize)
      fun _ _ _ _ hop hstep hdisciplined => hdisciplined.step hop hstep
  have hslots := hdisciplined.leased.slots
  rw [hdisciplined.size] at hslots
  exact ⟨hslots, hdisciplined.counted, hdisciplined.inOrder, hdisciplined.ended,
    hdisciplined.inflight (by omega)⟩

/-- Two chunks, of which the consumer has taken the first. -/
def halfDelivered : List SlotOp :=
  [.getFreeChunk, .getFreeChunk, .markChunkReady 1 7 4, .markChunkReady 0 8 4, .getReadyChunk]

theorem slots_in_one_place_halfDelivered :
    ∃ s : Slots, ((s.buffer.freeQueue ++ (s.buffer.readyQueue.map (·.slotId) ++
        (s.producers ++ s.consumers))).Perm (List.range 3) ∧
      s.buffer.chunksProduced =
        s.buffer.chunksConsumed + (s.buffer.readyQueue.length + s.consumers.length) ∧
      s.marked = s.delivered ++ s.buffer.readyQueue ∧
      (∀ production ∈ s.past, production.marked = production.delivered ++ production.dropped) ∧
      s.buffer.inflight.toNat = s.producers.length + s.consumers.length) ∧
    s.delivered = [⟨1, 7, 4⟩] ∧ s.buffer.readyQueue = [⟨0, 8, 4⟩] := by
  have hrun : run step (fun s op => op.wellBehaved s) halfDelivered (start 3 4) = some _ := rfl
  exact ⟨_, slots_in_one_place (by decide) 4 (reaches_of_run hrun), rfl, rfl⟩

/-- A reset while a chunk is ready: the chunk is never delivered. -/
theorem reset_drops_ready_chunk :
    ∃ s : Slots, run step (fun s op => op.wellBehaved s)
        [.getFreeChunk, .markChunkReady 0 7 4, .resetForNewProduction] (start 1 4) = some s ∧
      s.past = [⟨[⟨0, 7, 4⟩], [], [⟨0, 7, 4⟩]⟩] ∧ s.buffer.readyQueue = [] :=
  ⟨_, rfl, rfl, rfl⟩

end Slots

end TensorCast.Memory
