import TensorCast.Pump.Staged
import TensorCast.Lib.Transition

/-!
# What a step of the pump can do

`ProducerMove`, `MainMove` and `CallbackMove` list the transitions with what guards them, and
`step_move` says that there are no others, as long as the threads and the queues of the buffer hold
every slot once.  In such a state the buffer refuses nothing but to go on when production is complete,
so the transitions speak of the ready queue.
-/

namespace TensorCast.Pump

open Core Lib Memory Sink AsyncSlot List Option Bool

variable {env : Env} {ranges : List Range} {sh sh' : Shared}

/-! ## Giving slots back -/

section Return

variable {producers consumers : List ℕ} {slotId : ℕ}

/-- The pool after a slot has moved, with the ready queue as it was. -/
structure Kept (pool' pool : StreamingPinnedBuffer) : Prop extends
    StreamingPinnedBuffer.SameShape pool' pool where
  readyQueue : pool'.readyQueue = pool.readyQueue

lemma Shared.returnChunk_consumer (h : sh.pool.Leased producers (slotId :: consumers)) :
    ∃ pool, sh.returnChunk slotId = { sh.next with pool := pool } ∧ Kept pool sh.pool ∧
      pool.Leased producers consumers := by
  obtain ⟨pool, hpool, hshape, hready, hleased, -⟩ := h.returnChunk
  exact ⟨pool, by simp only [returnChunk, hpool], ⟨hshape, hready⟩, hleased⟩

lemma Shared.returnChunk_producer (h : sh.pool.Leased (slotId :: producers) consumers) :
    ∃ pool, sh.returnChunk slotId = { sh.next with pool := pool } ∧ Kept pool sh.pool ∧
      pool.Leased producers consumers := by
  obtain ⟨_, hrefused, hcode⟩ := h.returnChunk_producer
  obtain ⟨pool, hpool, hshape, hready, hleased, -⟩ := h.abortProducerSlot
  exact ⟨pool, by simp only [returnChunk, hrefused, if_pos hcode, hpool], ⟨hshape, hready⟩, hleased⟩

end Return

/-! ## Producers -/

def Producer.slots : Producer → List ℕ
  | .holding _ _ slotId | .filled _ _ slotId _ | .numbered _ _ slotId _ _ | .releasing slotId =>
    [slotId]
  | .failing _ slotId | .stopping slotId => slotId.toList
  | .idle | .range _ _ | .exiting | .signalling | .done => []

inductive ProducerMove (env : Env) (ranges : List Range) (sh : Shared) :
    Producer → Producer → Shared → Prop
  | stop (hstop : sh.shouldStop = true) : ProducerMove env ranges sh .idle .exiting sh.next
  | exhausted (hrange : ranges.length ≤ sh.rangeIndex) :
      ProducerMove env ranges sh .idle .exiting { sh.next with rangeIndex := sh.rangeIndex + 1 }
  | claim (r : Range) (hrange : ranges[sh.rangeIndex]? = some r) :
      ProducerMove env ranges sh .idle (.range r.offset r.size)
        { sh.next with rangeIndex := sh.rangeIndex + 1 }
  | leave (offset remaining : UInt64) (hleave : remaining = 0 ∨ sh.shouldStop = true) :
      ProducerMove env ranges sh (.range offset remaining) .idle sh.next
  | noSlot (offset remaining : UInt64) (status : Status) :
      ProducerMove env ranges sh (.range offset remaining) (.failing status none) sh.next
  | acquire (offset remaining : UInt64) (slotId : ℕ) (pool : StreamingPinnedBuffer)
      (hpool : Kept pool sh.pool) :
      ProducerMove env ranges sh (.range offset remaining) (.holding offset remaining slotId)
        { sh.next with pool := pool }
  | yield (offset remaining : UInt64) (slotId : ℕ) (hstop : sh.shouldStop = true) :
      ProducerMove env ranges sh (.holding offset remaining slotId) (.releasing slotId) sh.next
  | misread (offset remaining : UInt64) (slotId : ℕ) (status : Status) :
      ProducerMove env ranges sh (.holding offset remaining slotId)
        (.failing status (some slotId)) sh.next
  | read (offset remaining : UInt64) (slotId : ℕ) (data : List UInt8)
      (hread : env.readAt sh.tick offset (min remaining sh.pool.chunkSize) = .ok data)
      (hpos : 0 < data.length) (hle : data.length ≤ (min remaining sh.pool.chunkSize).toNat) :
      ProducerMove env ranges sh (.holding offset remaining slotId)
        (.filled offset remaining slotId (UInt64.ofNat data.length))
        { sh.next with memory := Function.update sh.memory slotId (fill data (sh.memory slotId)) }
  | overflow (offset remaining : UInt64) (slotId : ℕ) (bytesRead : UInt64) (status : Status) :
      ProducerMove env ranges sh (.filled offset remaining slotId bytesRead)
        (.failing status (some slotId)) { sh.next with nextChunkId := sh.nextChunkId + 1 }
  | number (offset remaining : UInt64) (slotId : ℕ) (bytesRead : UInt64)
      (hid : sh.nextChunkId ≠ UInt64.ofNat (2 ^ 64 - 1)) :
      ProducerMove env ranges sh (.filled offset remaining slotId bytesRead)
        (.numbered offset remaining slotId bytesRead sh.nextChunkId)
        { sh.next with
          nextChunkId := sh.nextChunkId + 1
          chunkOffsets := Function.update sh.chunkOffsets sh.nextChunkId
            (some ((sh.chunkOffsets sh.nextChunkId).getD offset)) }
  | ready (offset remaining : UInt64) (slotId : ℕ) (bytesRead chunkId : UInt64)
      (pool : StreamingPinnedBuffer) (hshape : pool.SameShape sh.pool)
      (hqueue : pool.readyQueue = sh.pool.readyQueue ++ [⟨slotId, chunkId, bytesRead⟩]) :
      ProducerMove env ranges sh (.numbered offset remaining slotId bytesRead chunkId)
        (.range (offset + bytesRead) (remaining - bytesRead)) { sh.next with pool := pool }
  | fail (status : Status) (slotId : Option ℕ) :
      ProducerMove env ranges sh (.failing status slotId) (.stopping slotId)
        (sh.failProducer status)
  | shut : ProducerMove env ranges sh (.stopping none) .idle sh.shutdown
  | shutHolding (slotId : ℕ) :
      ProducerMove env ranges sh (.stopping (some slotId)) (.releasing slotId) sh.shutdown
  | release (slotId : ℕ) (pool : StreamingPinnedBuffer) (hpool : Kept pool sh.pool) :
      ProducerMove env ranges sh (.releasing slotId) .idle { sh.next with pool := pool }
  | exit (hmore : sh.producersRemaining ≠ 1) :
      ProducerMove env ranges sh .exiting .done
        { sh.next with producersRemaining := sh.producersRemaining - 1 }
  | last (hlast : sh.producersRemaining = 1) :
      ProducerMove env ranges sh .exiting .signalling
        { sh.next with producersRemaining := sh.producersRemaining - 1 }
  | signal : ProducerMove env ranges sh .signalling .done sh.shutdown

lemma stopSeen_true (h : sh.stopSeen env = true) : sh.shouldStop = true := by
  rw [Shared.stopSeen, and_eq_true] at h
  exact h.1

section

variable {producers consumers : List ℕ}

lemma producerStep_holding {offset remaining : UInt64} {slotId : ℕ} {pc' : Producer}
    (hleased : sh.pool.Leased (slotId :: producers) consumers)
    (h : producerStep env ranges sh (.holding offset remaining slotId) = some (pc', sh')) :
    ProducerMove env ranges sh (.holding offset remaining slotId) pc' sh' ∧
      sh'.pool = sh.pool ∧ pc'.slots = [slotId] := by
  have hslot : slotId ∈ sh.pool.ledger (slotId :: producers) consumers := by
    simp [StreamingPinnedBuffer.ledger]
  have hlt : ¬ sh.pool.numChunks ≤ slotId := not_le.mpr (hleased.lt hslot)
  simp only [producerStep, StreamingPinnedBuffer.getChunkPtr, if_neg hlt] at h
  obtain ⟨hstop, ⟨⟩⟩ | ⟨-, h⟩ := ite_eq_iff.mp h
  · exact ⟨.yield _ _ _ (stopSeen_true hstop), rfl, rfl⟩
  cases hread : env.readAt sh.tick offset (min remaining sh.pool.chunkSize) with
  | error status =>
    rw [hread] at h
    cases h
    exact ⟨.misread _ _ _ _, rfl, rfl⟩
  | ok data =>
    simp only [hread] at h
    obtain ⟨-, ⟨⟩⟩ | ⟨hempty, h⟩ := ite_eq_iff.mp h
    · exact ⟨.misread _ _ _ _, rfl, rfl⟩
    obtain ⟨-, ⟨⟩⟩ | ⟨hlong, ⟨⟩⟩ := ite_eq_iff.mp h
    · exact ⟨.misread _ _ _ _, rfl, rfl⟩
    · exact ⟨.read _ _ _ data hread (pos_of_ne_zero hempty) (not_lt.mp hlong), rfl, rfl⟩

lemma producerStep_move {pc pc' : Producer}
    (hleased : sh.pool.Leased (pc.slots ++ producers) consumers)
    (h : producerStep env ranges sh pc = some (pc', sh')) :
    ProducerMove env ranges sh pc pc' sh' ∧ sh'.pool.Leased (pc'.slots ++ producers) consumers := by
  cases pc with
  | idle =>
    obtain ⟨hstop, ⟨⟩⟩ | ⟨-, h⟩ := ite_eq_iff.mp h
    · exact ⟨.stop (stopSeen_true hstop), hleased⟩
    cases hrange : ranges[sh.rangeIndex]? with
    | none =>
      rw [hrange] at h
      cases h
      exact ⟨.exhausted (getElem?_eq_none_iff.mp hrange), hleased⟩
    | some r =>
      rw [hrange] at h
      cases h
      exact ⟨.claim r hrange, hleased⟩
  | range offset remaining =>
    obtain ⟨hleave, ⟨⟩⟩ | ⟨-, h⟩ := ite_eq_iff.mp h
    · exact ⟨.leave _ _ (hleave.imp_right stopSeen_true), hleased⟩
    rcases hget : sh.pool.getFreeChunk with _ | ⟨result, pool⟩
    · rw [hget] at h
      cases h
    rw [hget] at h
    rcases hleased.getFreeChunk_cases hget with
      ⟨slotId, rfl, hshape, hready, hleased', -⟩ | ⟨status, rfl, rfl⟩
    · cases h
      exact ⟨.acquire _ _ _ _ ⟨hshape, hready⟩, hleased'⟩
    · cases h
      exact ⟨.noSlot _ _ _, hleased⟩
  | holding offset remaining slotId =>
    obtain ⟨hmove, hpool, hslots⟩ := producerStep_holding hleased h
    rw [hpool, hslots]
    exact ⟨hmove, hleased⟩
  | filled offset remaining slotId bytesRead =>
    obtain ⟨-, ⟨⟩⟩ | ⟨hid, ⟨⟩⟩ := ite_eq_iff.mp h
    · exact ⟨.overflow _ _ _ _ _, hleased⟩
    · exact ⟨.number _ _ _ _ hid, hleased⟩
  | numbered offset remaining slotId bytesRead chunkId =>
    obtain ⟨pool, hpool, hshape, hqueue, hleased', -⟩ :=
      StreamingPinnedBuffer.Leased.markChunkReady hleased chunkId bytesRead
    simp only [producerStep, hpool] at h
    cases h
    exact ⟨.ready _ _ _ _ _ _ hshape hqueue, hleased'⟩
  | failing status slotId =>
    cases h
    exact ⟨.fail _ _, hleased⟩
  | stopping slotId =>
    cases slotId with
    | none =>
      cases h
      exact ⟨.shut, hleased.signalProductionComplete⟩
    | some slotId =>
      cases h
      exact ⟨.shutHolding _, hleased.signalProductionComplete⟩
  | releasing slotId =>
    obtain ⟨pool, hpool, hkept, hleased'⟩ := Shared.returnChunk_producer hleased
    rw [producerStep, hpool] at h
    cases h
    exact ⟨.release _ _ hkept, hleased'⟩
  | exiting =>
    obtain ⟨hlast, ⟨⟩⟩ | ⟨hmore, ⟨⟩⟩ := ite_eq_iff.mp h
    · exact ⟨.last hlast, hleased⟩
    · exact ⟨.exit hmore, hleased⟩
  | signalling =>
    cases h
    exact ⟨.signal, hleased.signalProductionComplete⟩
  | done => cases h

end

/-! ## The calling thread -/

/-- The slots that the calling thread holds. -/
def MainPc.slots : MainPc → List ℕ
  | .taken chunk | .writing chunk _ => [chunk.slotId]
  | .dropping slotId | .written slotId _ | .drained slotId => [slotId]
  | .loop | .quitting | .refused _ | .stopping | .sweeping _ | .reclaiming _ _ | .flushing
  | .waiting | .draining | .closing | .returned _ => []

/-- Until the flag is set the consumer or the callback gives the slot back, then whoever has set it. -/
def AsyncSlot.slots (copy : AsyncSlot) : List ℕ :=
  (if copy.returned = true then [] else [copy.slotId]) ++
    if copy.stage.isClaimed = true then [copy.slotId] else []

lemma slots_stage {slot : AsyncSlot} {stage : CopyStage}
    (h : stage.isClaimed = slot.stage.isClaimed) :
    slots { slot with stage := stage } = slot.slots := by
  rw [slots, slots, h]

/-- The copy after `return_if_needed`. -/
def AsyncSlot.giveBack (copy : AsyncSlot) : AsyncSlot := { copy with returned := true }

/-- The transitions of the calling thread.  No invariant depends on `draining`. -/
inductive MainMove (env : Env) (producersDone : Bool) (sh : Shared) : Main → Main → Shared → Prop
  | leave (inflight : List ℕ) (d d' : Bool) (hstop : sh.shouldStop = true) :
      MainMove env producersDone sh ⟨.loop, inflight, d⟩ ⟨.flushing, inflight, d'⟩ sh.next
  | ended (inflight : List ℕ) (d d' : Bool) (hempty : sh.pool.readyQueue = [])
      (hcomplete : sh.pool.productionComplete = true) :
      MainMove env producersDone sh ⟨.loop, inflight, d⟩ ⟨.flushing, inflight, d'⟩ sh.next
  | take (inflight : List ℕ) (d d' : Bool) (chunk : ReadyChunk) (pool : StreamingPinnedBuffer)
      (hshape : pool.SameShape sh.pool) (hqueue : sh.pool.readyQueue = chunk :: pool.readyQueue) :
      MainMove env producersDone sh ⟨.loop, inflight, d⟩ ⟨.taken chunk, inflight, d'⟩
        { sh.next with pool := pool }
  | quit (inflight : List ℕ) (d : Bool) :
      MainMove env producersDone sh ⟨.quitting, inflight, d⟩ ⟨.flushing, inflight, d⟩ sh.shutdown
  | missing (inflight : List ℕ) (d : Bool) (chunk : ReadyChunk)
      (hoffset : sh.chunkOffsets chunk.globalChunkId = none) (status : Status) :
      MainMove env producersDone sh ⟨.taken chunk, inflight, d⟩
        ⟨.dropping chunk.slotId, inflight, d⟩
        { sh.next with consumerStatus := .error status, shouldStop := true }
  | found (inflight : List ℕ) (d : Bool) (chunk : ReadyChunk) (destOffset : UInt64)
      (hoffset : sh.chunkOffsets chunk.globalChunkId = some destOffset) :
      MainMove env producersDone sh ⟨.taken chunk, inflight, d⟩
        ⟨.writing chunk destOffset, inflight, d⟩
        { sh.next with
          chunkOffsets := Function.update sh.chunkOffsets chunk.globalChunkId none }
  | drop (inflight : List ℕ) (d : Bool) (slotId : ℕ) (pool : StreamingPinnedBuffer)
      (hpool : Kept pool sh.pool) :
      MainMove env producersDone sh ⟨.dropping slotId, inflight, d⟩ ⟨.flushing, inflight, d⟩
        { sh.next with pool := pool }
  | write (inflight : List ℕ) (d : Bool) (chunk : ReadyChunk) (destOffset : UInt64)
      (status : StatusOr Unit) :
      MainMove env producersDone sh ⟨.writing chunk destOffset, inflight, d⟩
        ⟨.written chunk.slotId status, inflight, d⟩
        { sh.next with
          writes := sh.writes ++
            [⟨destOffset, slice (sh.memory chunk.slotId) 0 chunk.bytesInChunk.toNat⟩] }
  | submit (inflight : List ℕ) (d : Bool) (chunk : ReadyChunk) (destOffset : UInt64) :
      MainMove env producersDone sh ⟨.writing chunk destOffset, inflight, d⟩
        ⟨.sweeping 0, inflight ++ [sh.copies.length], d⟩
        { sh.next with
          copies := sh.copies ++ [⟨chunk.slotId, destOffset, chunk.bytesInChunk, .copying, false⟩] }
  | refuse (inflight : List ℕ) (d : Bool) (chunk : ReadyChunk) (destOffset : UInt64)
      (status : Status) (stage : CopyStage) (hstage : stage = .copying ∨ stage = .absent) :
      MainMove env producersDone sh ⟨.writing chunk destOffset, inflight, d⟩
        ⟨.refused sh.copies.length, inflight, d⟩
        { sh.failConsumer status with
          copies := sh.copies ++ [⟨chunk.slotId, destOffset, chunk.bytesInChunk, stage, false⟩] }
  | wrote (inflight : List ℕ) (d : Bool) (slotId : ℕ) (pool : StreamingPinnedBuffer)
      (hpool : Kept pool sh.pool) :
      MainMove env producersDone sh ⟨.written slotId (.ok ()), inflight, d⟩
        ⟨.sweeping 0, inflight, d⟩ { sh.next with pool := pool }
  | wroteError (inflight : List ℕ) (d : Bool) (slotId : ℕ) (status : Status)
      (pool : StreamingPinnedBuffer) (hpool : Kept pool sh.pool) :
      MainMove env producersDone sh ⟨.written slotId (.error status), inflight, d⟩
        ⟨.stopping, inflight, d⟩ ({ sh.next with pool := pool }.failConsumer status)
  | giveUp (inflight : List ℕ) (d : Bool) (index : ℕ) (slot : AsyncSlot)
      (hslot : sh.copies[index]? = some slot) (pool : StreamingPinnedBuffer)
      (hpool : Kept pool sh.pool) :
      MainMove env producersDone sh ⟨.refused index, inflight, d⟩ ⟨.stopping, inflight, d⟩
        { sh.next with pool := pool, copies := sh.copies.set index slot.giveBack }
  | stop (inflight : List ℕ) (d : Bool) :
      MainMove env producersDone sh ⟨.stopping, inflight, d⟩ ⟨.sweeping 0, inflight, true⟩
        { sh.shutdown with shouldStop := true }
  | sweepEnd (inflight : List ℕ) (d : Bool) (i : ℕ) :
      MainMove env producersDone sh ⟨.sweeping i, inflight, d⟩ ⟨.loop, inflight, d⟩ sh.next
  | sweepSkip (inflight : List ℕ) (d : Bool) (i : ℕ) :
      MainMove env producersDone sh ⟨.sweeping i, inflight, d⟩ ⟨.sweeping (i + 1), inflight, d⟩
        sh.next
  | settle (inflight : List ℕ) (d : Bool) (pc : MainPc) (i : ℕ) (flush : Bool)
      (hpc : pc = .sweeping i ∧ flush = false ∨ pc = .flushing ∧ flush = true)
      (index : ℕ) (hindex : inflight[i]? = some index) (slot : AsyncSlot)
      (hslot : sh.copies[index]? = some slot) (hok : slot.stage.recorded? = some (.ok ())) :
      MainMove env producersDone sh ⟨pc, inflight, d⟩ ⟨.reclaiming i flush, inflight, d⟩ sh.next
  | settleError (inflight : List ℕ) (d : Bool) (pc : MainPc) (i : ℕ) (flush : Bool)
      (hpc : pc = .sweeping i ∧ flush = false ∨ pc = .flushing ∧ flush = true) (status : Status) :
      MainMove env producersDone sh ⟨pc, inflight, d⟩ ⟨.reclaiming i flush, inflight, true⟩
        { (sh.failConsumer status).shutdown with shouldStop := true, drainRequested := true }
  | reclaim (inflight : List ℕ) (d : Bool) (i : ℕ) (flush : Bool) (index : ℕ)
      (hindex : inflight[i]? = some index) (slot : AsyncSlot)
      (hslot : sh.copies[index]? = some slot) (pool : StreamingPinnedBuffer)
      (hpool : Kept pool sh.pool) :
      MainMove env producersDone sh ⟨.reclaiming i flush, inflight, d⟩
        ⟨if flush = true then .flushing else .sweeping i, inflight.eraseIdx i, d⟩
        { sh.next with pool := pool, copies := sh.copies.set index slot.giveBack }
  | flushed (d : Bool) :
      MainMove env producersDone sh ⟨.flushing, [], d⟩ ⟨.waiting, [], d⟩ sh.next
  | drain (inflight : List ℕ) (d : Bool) (hdone : producersDone = true)
      (hstop : sh.shouldStop = true ∨ sh.drainRequested = true) :
      MainMove env producersDone sh ⟨.waiting, inflight, d⟩ ⟨.draining, inflight, d⟩ sh.next
  | finish (inflight : List ℕ) (d : Bool) (hdone : producersDone = true)
      (hstop : sh.shouldStop = false) :
      MainMove env producersDone sh ⟨.waiting, inflight, d⟩ ⟨.closing, inflight, d⟩ sh.next
  | drainEnd (inflight : List ℕ) (d : Bool) (hempty : sh.pool.readyQueue = []) :
      MainMove env producersDone sh ⟨.draining, inflight, d⟩ ⟨.closing, inflight, d⟩ sh.next
  | drainTake (inflight : List ℕ) (d : Bool) (chunk : ReadyChunk) (pool : StreamingPinnedBuffer)
      (hshape : pool.SameShape sh.pool) (hqueue : sh.pool.readyQueue = chunk :: pool.readyQueue) :
      MainMove env producersDone sh ⟨.draining, inflight, d⟩
        ⟨.drained chunk.slotId, inflight, d⟩ { sh.next with pool := pool }
  | drainReturn (inflight : List ℕ) (d : Bool) (slotId : ℕ) (pool : StreamingPinnedBuffer)
      (hpool : Kept pool sh.pool) :
      MainMove env producersDone sh ⟨.drained slotId, inflight, d⟩ ⟨.draining, inflight, d⟩
        { sh.next with pool := pool }
  | close (inflight : List ℕ) (d : Bool) :
      MainMove env producersDone sh ⟨.closing, inflight, d⟩
        ⟨.returned (finalStatus env sh), inflight, d⟩ sh.next

section

variable {producers consumers : List ℕ} {m m' : Main} {producersDone : Bool}

lemma leased_set {pool : StreamingPinnedBuffer} {copies : List AsyncSlot} {index : ℕ}
    {slot slot' : AsyncSlot} (hslot : copies[index]? = some slot)
    (h : pool.Leased producers (consumers ++ copies.flatMap slots))
    (hsame : slot'.slots = slot.slots) :
    pool.Leased producers (consumers ++ (copies.set index slot').flatMap slots) := by
  refine h.perm .rfl (Perm.append_left _ ?_)
  rw [(flatMap_set_perm hslot slot' slots).congr_left, hsame]
  exact (flatMap_perm_eraseIdx hslot slots).symm

/-- The consumer gives the slot of a copy back, unless the callback has set the flag. -/
lemma Shared.returnIfNeeded_spec {index : ℕ} {slot : AsyncSlot}
    (hslot : sh.copies[index]? = some slot)
    (h : sh.pool.Leased producers (consumers ++ sh.copies.flatMap slots)) :
    ∃ pool, sh.returnIfNeeded index slot =
        { sh.next with pool := pool, copies := sh.copies.set index slot.giveBack } ∧
      Kept pool sh.pool ∧ pool.Leased producers
        (consumers ++ (sh.copies.set index slot.giveBack).flatMap slots) := by
  by_cases hreturned : slot.returned = true
  · have hsame : slot.giveBack = slot := by
      rw [giveBack, ← hreturned]
    have hset : sh.copies.set index slot = sh.copies := by
      obtain ⟨hi, rfl⟩ := List.getElem?_eq_some_iff.mp hslot
      exact set_getElem_self hi
    refine ⟨sh.pool, ?_, ⟨⟨rfl, rfl, rfl⟩, rfl⟩, leased_set hslot h (by rw [hsame])⟩
    rw [returnIfNeeded, if_pos hreturned, hsame, hset]
    rfl
  · -- the flag is not set, so the slot is the consumer's to return
    have hslots : slot.slots = slot.slotId :: slot.giveBack.slots := by
      rw [slots, if_neg hreturned]
      rfl
    have hperm : (slot.slotId :: (consumers ++
        (sh.copies.set index slot.giveBack).flatMap slots)).Perm
        (consumers ++ sh.copies.flatMap slots) := by
      have hset := flatMap_set_perm hslot slot.giveBack slots
      have hold := flatMap_perm_eraseIdx hslot slots
      rw [hslots] at hold
      refine perm_middle.symm.trans (Perm.append_left _ ?_)
      exact (hset.cons _).trans hold.symm
    obtain ⟨pool, hpool, hkept, hleased⟩ := returnChunk_consumer (h.perm .rfl hperm)
    refine ⟨pool, ?_, hkept, hleased⟩
    rw [returnIfNeeded, if_neg hreturned, hpool]
    rfl

lemma finalizeInflight_cases {slot : AsyncSlot} {i : ℕ} {flush : Bool}
    (h : finalizeInflight env sh m slot i flush = some (m', sh')) :
    (slot.stage.recorded? = some (.ok ()) ∧ m' = ⟨.reclaiming i flush, m.inflight, m.draining⟩ ∧
        sh' = sh.next) ∨
      ∃ status, m' = ⟨.reclaiming i flush, m.inflight, true⟩ ∧
        sh' = { (sh.failConsumer status).shutdown with
          shouldStop := true, drainRequested := true } := by
  unfold finalizeInflight at h
  split at h
  · cases h
  rename_i status hrecorded
  rcases hstatus : handleStatus env sh.tick status with status' | ⟨⟩
  · simp only [hstatus] at h
    cases h
    exact .inr ⟨status', rfl, rfl⟩
  · simp only [hstatus] at h
    cases h
    cases status with
    | error status => cases hstatus
    | ok _ => exact .inl ⟨hrecorded, rfl, rfl⟩

variable {inflight : List ℕ} {d : Bool}

lemma writeChunk_move {chunk : ReadyChunk} {destOffset : UInt64}
    (hleased : sh.pool.Leased producers (chunk.slotId :: sh.copies.flatMap slots))
    (h : writeChunk env sh ⟨.writing chunk destOffset, inflight, d⟩ chunk destOffset = (m', sh')) :
    MainMove env producersDone sh ⟨.writing chunk destOffset, inflight, d⟩ m' sh' ∧
      sh'.pool.Leased producers (m'.pc.slots ++ sh'.copies.flatMap slots) := by
  have hnew (stage : CopyStage) (hclaimed : stage.isClaimed = false) :
      sh.pool.Leased producers ((sh.copies ++
        [mk chunk.slotId destOffset chunk.bytesInChunk stage false]).flatMap slots) := by
    refine hleased.perm .rfl ?_
    simp only [flatMap_append, flatMap_cons, slots, hclaimed]
    exact perm_append_comm
  obtain ⟨-, h⟩ | ⟨-, ⟨⟩⟩ := ite_eq_iff.mp h
  · rcases hsubmit : env.writeAtAsync sh.tick destOffset chunk.bytesInChunk with _ | ⟨status, started⟩
    · simp only [hsubmit] at h
      cases h
      exact ⟨.submit _ _ _ _, hnew .copying rfl⟩
    · simp only [hsubmit] at h
      cases started
      · cases h
        exact ⟨.refuse _ _ _ _ _ .absent (.inr rfl), hnew .absent rfl⟩
      · cases h
        exact ⟨.refuse _ _ _ _ _ .copying (.inl rfl), hnew .copying rfl⟩
  · exact ⟨.write _ _ _ _ _, hleased⟩

section

variable (hleased : sh.pool.Leased producers (sh.copies.flatMap slots))

include hleased

/-- The loop of the consumer takes a chunk, or ends. -/
lemma mainStep_loop
    (h : mainStep env producersDone sh ⟨.loop, inflight, d⟩ = some (m', sh')) :
    MainMove env producersDone sh ⟨.loop, inflight, d⟩ m' sh' ∧
      sh'.pool.Leased producers (m'.pc.slots ++ sh'.copies.flatMap slots) := by
  obtain ⟨hstop, ⟨⟩⟩ | ⟨-, h⟩ := ite_eq_iff.mp h
  · exact ⟨.leave _ _ _ (stopSeen_true hstop.1), hleased⟩
  rcases hget : sh.pool.getReadyChunk with _ | ⟨result, pool⟩
  · rw [hget] at h
    cases h
  rw [hget] at h
  rcases hleased.getReadyChunk_cases hget with
    ⟨chunk, rfl, hshape, hqueue, hleased', -⟩ | ⟨_, rfl, hcode, hempty, hcomplete, rfl⟩
  · cases h
    exact ⟨.take _ _ _ _ _ hshape hqueue, hleased'⟩
  · dsimp only at h
    rw [if_pos (.inr hcode)] at h
    cases h
    exact ⟨.ended _ _ _ hempty hcomplete, hleased⟩

/-- The sweep ends, skips a copy or settles it. -/
lemma mainStep_sweeping {i : ℕ}
    (h : mainStep env producersDone sh ⟨.sweeping i, inflight, d⟩ = some (m', sh')) :
    MainMove env producersDone sh ⟨.sweeping i, inflight, d⟩ m' sh' ∧
      sh'.pool.Leased producers (m'.pc.slots ++ sh'.copies.flatMap slots) := by
  simp only [mainStep] at h
  rcases hindex : inflight[i]? with _ | index
  · rw [hindex] at h
    cases h
    exact ⟨.sweepEnd _ _ _, hleased⟩
  simp only [hindex] at h
  split at h
  · cases h
  rename_i slot hslot
  rcases hresult : slot.stage.result? with _ | status
  · rw [hresult] at h
    cases h
    exact ⟨.sweepSkip _ _ _, hleased⟩
  simp only [hresult] at h
  obtain ⟨-, ⟨⟩⟩ | ⟨-, h⟩ := ite_eq_iff.mp h
  · exact ⟨.sweepSkip _ _ _, hleased⟩
  rcases finalizeInflight_cases h with ⟨hok, rfl, rfl⟩ | ⟨status, rfl, rfl⟩
  · exact ⟨.settle _ _ _ _ _ (.inl ⟨rfl, rfl⟩) _ hindex _ hslot hok, hleased⟩
  · exact ⟨.settleError _ _ _ _ _ (.inl ⟨rfl, rfl⟩) _, hleased.signalProductionComplete⟩

/-- The flush settles the first copy, or is over. -/
lemma mainStep_flushing
    (h : mainStep env producersDone sh ⟨.flushing, inflight, d⟩ = some (m', sh')) :
    MainMove env producersDone sh ⟨.flushing, inflight, d⟩ m' sh' ∧
      sh'.pool.Leased producers (m'.pc.slots ++ sh'.copies.flatMap slots) := by
  simp only [mainStep] at h
  cases inflight with
  | nil =>
    cases h
    exact ⟨.flushed _, hleased⟩
  | cons index rest =>
    dsimp only at h
    split at h
    · cases h
    rename_i slot hslot
    rcases finalizeInflight_cases h with ⟨hok, rfl, rfl⟩ | ⟨-, rfl, rfl⟩
    · exact ⟨.settle _ _ _ _ _ (.inr ⟨rfl, rfl⟩) index rfl _ hslot hok, hleased⟩
    · exact ⟨.settleError _ _ _ _ _ (.inr ⟨rfl, rfl⟩) _, hleased.signalProductionComplete⟩

end

/-- **The steps of the calling thread are its transitions**, and the slots stay in one place. -/
lemma mainStep_move (hleased : sh.pool.Leased producers (m.pc.slots ++ sh.copies.flatMap slots))
    (h : mainStep env producersDone sh m = some (m', sh')) :
    MainMove env producersDone sh m m' sh' ∧
      sh'.pool.Leased producers (m'.pc.slots ++ sh'.copies.flatMap slots) := by
  obtain ⟨pc, _, d⟩ := m
  cases pc with
  | loop => exact mainStep_loop hleased h
  | quitting =>
    cases h
    exact ⟨.quit _ _, hleased.signalProductionComplete⟩
  | taken chunk =>
    simp only [mainStep] at h
    rcases hoffset : sh.chunkOffsets chunk.globalChunkId with _ | destOffset
    · rw [hoffset] at h
      cases h
      exact ⟨.missing _ _ _ hoffset _, hleased⟩
    · rw [hoffset] at h
      cases h
      exact ⟨.found _ _ _ _ hoffset, hleased⟩
  | dropping slotId =>
    obtain ⟨pool, hpool, hkept, hleased'⟩ := Shared.returnChunk_consumer hleased
    simp only [mainStep] at h
    rw [hpool] at h
    cases h
    exact ⟨.drop _ _ _ _ hkept, hleased'⟩
  | writing chunk destOffset =>
    exact writeChunk_move hleased (some_inj.mp h)
  | written slotId status =>
    obtain ⟨pool, hpool, hkept, hleased'⟩ := Shared.returnChunk_consumer hleased
    simp only [mainStep] at h
    cases status with
    | ok _ =>
      rw [hpool] at h
      cases h
      exact ⟨.wrote _ _ _ _ hkept, hleased'⟩
    | error status =>
      rw [hpool] at h
      cases h
      exact ⟨.wroteError _ _ _ _ _ hkept, hleased'⟩
  | refused index =>
    simp only [mainStep] at h
    split at h
    · cases h
    rename_i slot hslot
    obtain ⟨pool, hpool, hkept, hleased'⟩ := Shared.returnIfNeeded_spec hslot hleased
    rw [hpool] at h
    cases h
    exact ⟨.giveUp _ _ _ _ hslot _ hkept, hleased'⟩
  | stopping =>
    cases h
    exact ⟨.stop _ _, hleased.signalProductionComplete⟩
  | sweeping i => exact mainStep_sweeping hleased h
  | reclaiming i flush =>
    simp only [mainStep] at h
    split at h
    · cases h
    rename_i index hindex
    split at h
    · cases h
    rename_i slot hslot
    obtain ⟨pool, hpool, hkept, hleased'⟩ := Shared.returnIfNeeded_spec hslot hleased
    rw [hpool] at h
    cases h
    refine ⟨.reclaim _ _ _ _ _ hindex _ hslot _ hkept, ?_⟩
    cases flush <;> exact hleased'
  | flushing => exact mainStep_flushing hleased h
  | waiting =>
    simp only [mainStep] at h
    cases producersDone with
    | false => cases h
    | true =>
      rw [if_neg true_eq_false.mp] at h
      obtain ⟨hstop, ⟨⟩⟩ | ⟨hstop, ⟨⟩⟩ := ite_eq_iff.mp h
      · exact ⟨.drain _ _ rfl hstop, hleased⟩
      · exact ⟨.finish _ _ rfl (eq_false_iff.mpr fun hs => hstop (.inl hs)), hleased⟩
  | draining =>
    simp only [mainStep] at h
    rcases hget : sh.pool.getReadyChunk with _ | ⟨result, pool⟩
    · rw [hget] at h
      cases h
    rw [hget] at h
    rcases hleased.getReadyChunk_cases hget with
      ⟨chunk, rfl, hshape, hqueue, hleased', -⟩ | ⟨status, rfl, -, hempty, -, rfl⟩
    · cases h
      exact ⟨.drainTake _ _ _ _ hshape hqueue, hleased'⟩
    · cases h
      exact ⟨.drainEnd _ _ hempty, hleased⟩
  | drained slotId =>
    obtain ⟨pool, hpool, hkept, hleased'⟩ := Shared.returnChunk_consumer hleased
    simp only [mainStep] at h
    rw [hpool] at h
    cases h
    exact ⟨.drainReturn _ _ _ _ hkept, hleased'⟩
  | closing =>
    cases h
    exact ⟨.close _ _, hleased⟩
  | returned status => cases h

end

/-! ## Callbacks -/

/-- The transitions of a copy and its callback, with the slot as it is left. -/
inductive CallbackMove (env : Env) (sh : Shared) (slot : AsyncSlot) : AsyncSlot → Shared → Prop
  | copyError (hstage : slot.stage = .copying) (status : Status) :
      CallbackMove env sh slot { slot with stage := .copied (.error status) } sh.next
  | copyOk (hstage : slot.stage = .copying) :
      CallbackMove env sh slot { slot with stage := .copied (.ok ()) }
        { sh.next with
          writes := sh.writes ++
            [⟨slot.destOffset, slice (sh.memory slot.slotId) 0 slot.bytes.toNat⟩] }
  | record (status : StatusOr Unit) (hstage : slot.stage = .copied status) :
      CallbackMove env sh slot { slot with stage := .recorded status } sh.next
  | pass (status : StatusOr Unit) (hstage : slot.stage = .recorded status)
      (hreturned : slot.returned = true) :
      CallbackMove env sh slot { slot with stage := .passed status } sh.next
  | claim (status : StatusOr Unit) (hstage : slot.stage = .recorded status)
      (hreturned : slot.returned = false) :
      CallbackMove env sh slot { slot with stage := .claimed status, returned := true } sh.next
  | give (status : StatusOr Unit) (hstage : slot.stage = .claimed status)
      (pool : StreamingPinnedBuffer) (hpool : Kept pool sh.pool) :
      CallbackMove env sh slot { slot with stage := .passed status } { sh.next with pool := pool }
  | finish (hstage : slot.stage = .passed (.ok ())) :
      CallbackMove env sh slot { slot with stage := .finished (.ok ()) } sh.next
  | shut (status : Status) (hstage : slot.stage = .passed (.error status)) :
      CallbackMove env sh slot { slot with stage := .finished (.error status) } sh.shutdown

lemma callbackStep_move {producers consumers : List ℕ} {index : ℕ} {slot : AsyncSlot}
    (hslot : sh.copies[index]? = some slot)
    (hleased : sh.pool.Leased producers (consumers ++ sh.copies.flatMap slots))
    (h : callbackStep env sh index slot = some sh') :
    ∃ slot' sh₁, CallbackMove env sh slot slot' sh₁ ∧
      sh' = { sh₁ with copies := sh.copies.set index slot' } ∧
      sh'.pool.Leased producers (consumers ++ sh'.copies.flatMap slots) := by
  unfold callbackStep at h
  cases hstage : slot.stage with
  | absent =>
    simp only [hstage] at h
    cases h
  | copying =>
    simp only [hstage] at h
    rcases hdone : env.copyDone sh.tick with status | ⟨⟩
    all_goals
      simp only [hdone] at h
      cases h
    · exact ⟨_, _, .copyError hstage status, rfl,
        leased_set hslot hleased (slots_stage (by rw [hstage]; rfl))⟩
    · exact ⟨_, _, .copyOk hstage, rfl,
        leased_set hslot hleased (slots_stage (by rw [hstage]; rfl))⟩
  | copied status =>
    simp only [hstage] at h
    cases h
    exact ⟨_, _, .record status hstage, rfl,
      leased_set hslot hleased (slots_stage (by rw [hstage]; rfl))⟩
  | recorded status =>
    simp only [hstage] at h
    obtain ⟨hreturned, ⟨⟩⟩ | ⟨hreturned, ⟨⟩⟩ := ite_eq_iff.mp h
    · exact ⟨_, _, .pass status hstage hreturned, rfl,
        leased_set hslot hleased (slots_stage (by rw [hstage]; rfl))⟩
    · exact ⟨_, _, .claim status hstage (eq_false_iff.mpr hreturned), rfl,
        leased_set hslot hleased (by simp [slots, hstage, hreturned, CopyStage.isClaimed])⟩
  | claimed status =>
    have hslots : slot.slots.Perm
        (slot.slotId :: slots { slot with stage := .passed status }) := by
      simp only [slots, hstage, CopyStage.isClaimed, false_eq_true, if_false, append_nil]
      exact perm_append_comm
    have hperm : (slot.slotId :: (consumers ++
        (sh.copies.set index { slot with stage := .passed status }).flatMap
          slots)).Perm (consumers ++ sh.copies.flatMap slots) := by
      refine perm_middle.symm.trans (Perm.append_left _ ?_)
      refine ((flatMap_set_perm hslot _ slots).cons _).trans ?_
      exact (hslots.symm.append_right _).trans (flatMap_perm_eraseIdx hslot slots).symm
    obtain ⟨pool, hpool, hkept, hleased'⟩ := Shared.returnChunk_consumer (hleased.perm .rfl hperm)
    simp only [hstage, hpool] at h
    cases h
    exact ⟨_, _, .give status hstage pool hkept, rfl, hleased'⟩
  | passed status =>
    simp only [hstage] at h
    cases status with
    | ok _ =>
      cases h
      exact ⟨_, _, .finish hstage, rfl, leased_set hslot hleased (slots_stage (by rw [hstage]; rfl))⟩
    | error status =>
      cases h
      exact ⟨_, _, .shut status hstage, rfl,
        leased_set hslot hleased.signalProductionComplete (slots_stage (by rw [hstage]; rfl))⟩
  | finished status =>
    simp only [hstage] at h
    cases h

/-! ## The system -/

/-- **Every slot is in one place**: a queue, a producer, the calling thread or a copy. -/
def State.Leased (s : State) : Prop :=
  s.shared.pool.Leased (s.producers.flatMap Producer.slots)
    (s.main.pc.slots ++ s.shared.copies.flatMap slots)

/-- The transitions of the system. -/
inductive Move (env : Env) (ranges : List Range) (s : State) : Thread → State → Prop
  | producer (i : ℕ) (pc pc' : Producer) (sh' : Shared) (hpc : s.producers[i]? = some pc)
      (hmove : ProducerMove env ranges s.shared pc pc' sh') :
      Move env ranges s (.producer i) { s with shared := sh', producers := s.producers.set i pc' }
  | main (m' : Main) (sh' : Shared)
      (hmove : MainMove env (s.producers.all (· = .done)) s.shared s.main m' sh') :
      Move env ranges s .main { s with shared := sh', main := m' }
  | callback (index : ℕ) (slot slot' : AsyncSlot) (sh' : Shared)
      (hslot : s.shared.copies[index]? = some slot)
      (hmove : CallbackMove env s.shared slot slot' sh') :
      Move env ranges s (.callback index)
        { s with shared := { sh' with copies := s.shared.copies.set index slot' } }

/-- **The steps of the system are its transitions**, and every slot stays in one place. -/
lemma step_move {s s' : State} {t : Thread} (hleased : s.Leased)
    (h : step env ranges t s = some s') : Move env ranges s t s' ∧ s'.Leased := by
  cases t with
  | producer i =>
    simp only [step] at h
    split at h
    · cases h
    rename_i pc hpc
    obtain ⟨⟨pc', sh'⟩, hstep, rfl⟩ := map_eq_some_iff.mp h
    have hfront := hleased.perm (flatMap_perm_eraseIdx hpc Producer.slots).symm .rfl
    obtain ⟨hmove, hleased'⟩ := producerStep_move hfront hstep
    refine ⟨.producer i pc pc' sh' hpc hmove, ?_⟩
    have hcopies : sh'.copies = s.shared.copies := by cases hmove <;> rfl
    unfold State.Leased
    rw [hcopies]
    exact hleased'.perm (flatMap_set_perm hpc pc' Producer.slots) .rfl
  | main =>
    obtain ⟨⟨m', sh'⟩, hstep, rfl⟩ := map_eq_some_iff.mp h
    obtain ⟨hmove, hleased'⟩ := mainStep_move hleased hstep
    exact ⟨.main m' sh' hmove, hleased'⟩
  | callback index =>
    simp only [step] at h
    split at h
    · cases h
    rename_i slot hslot
    obtain ⟨sh', hstep, rfl⟩ := map_eq_some_iff.mp h
    obtain ⟨slot', sh₁, hmove, rfl, hleased'⟩ := callbackStep_move hslot hleased hstep
    exact ⟨.callback index slot slot' sh₁ hslot hmove, hleased'⟩

lemma leased_start {pool : StreamingPinnedBuffer} {memory : ℕ → ℕ → UInt8} {concurrency : ℕ}
    (h : pool.Leased [] []) : (start pool memory concurrency).Leased := by
  have hnone : (replicate concurrency Producer.idle).flatMap Producer.slots = [] := by
    simp [Producer.slots]
  unfold State.Leased start
  rw [hnone]
  exact h

end TensorCast.Pump
