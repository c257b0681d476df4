import TensorCast.Pump.Smooth
import TensorCast.Lib.Word

/-!
# Where the bytes are

In a run without a failure every byte of every range is at one place: in a range that no producer has
taken, in what a producer has still to read, in a slot that is on its way to the sink, or in the sink.
`Covers` states this with what makes it last: the slots hold the bytes of the source, and the map of
the offsets knows every chunk on its way under a number of its own.
-/

namespace TensorCast.Pump

open Core Lib Memory Sink List UInt64 Function

variable {content : ℕ → UInt8} {env : Env} {ranges : List Range} {sh sh' : Shared}

/-- The source returns its own bytes. -/
def Env.Reads (env : Env) (content : ℕ → UInt8) : Prop :=
  ∀ tick offset bytes data, env.readAt tick offset bytes = .ok data →
    data = slice content offset.toNat data.length

/-- The bytes of a range, at their offsets. -/
def Range.cells (content : ℕ → UInt8) (r : Range) : List (ℕ × UInt8) :=
  slice (cellOf content) r.offset.toNat r.size.toNat

/-- Bytes that a slot holds for the sink. -/
structure Piece where
  slotId : ℕ
  offset : UInt64
  bytes : UInt64
  /-- The number under which the map of the offsets knows the chunk. -/
  chunkId : Option UInt64
deriving DecidableEq

def Piece.cells (content : ℕ → UInt8) (p : Piece) : List (ℕ × UInt8) :=
  slice (cellOf content) p.offset.toNat p.bytes.toNat

/-! ## The account and its rules -/

/-- **Every byte is at one place.** -/
structure Covers (content : ℕ → UInt8) (ranges : List Range) (sh : Shared)
    (pending : List (ℕ × UInt8)) (pieces : List Piece) : Prop where
  account : (pending ++ (pieces.flatMap (Piece.cells content) ++ written sh.writes)).Perm
    (ranges.flatMap (Range.cells content))
  staged : ∀ p ∈ pieces, ∀ k < p.bytes.toNat, sh.memory p.slotId k = content (p.offset.toNat + k)
  ids : (pieces.filterMap Piece.chunkId).Nodup
  offsets : ∀ p ∈ pieces, ∀ id, p.chunkId = some id → sh.chunkOffsets id = some p.offset
  fresh : ∀ id, sh.nextChunkId ≤ id → sh.chunkOffsets id = none

namespace Covers

variable {pending pending' : List (ℕ × UInt8)} {pieces pieces' : List Piece} {slotId : ℕ}

lemma perm (h : Covers content ranges sh pending pieces) (hpending : pending'.Perm pending)
    (hpieces : pieces'.Perm pieces) : Covers content ranges sh pending' pieces' where
  account := (hpending.append ((hpieces.flatMap_right _).append_right _)).trans h.account
  staged p hp := h.staged p (hpieces.mem_iff.mp hp)
  ids := (hpieces.filterMap _).nodup_iff.mpr h.ids
  offsets p hp := h.offsets p (hpieces.mem_iff.mp hp)
  fresh := h.fresh

lemma congr (h : Covers content ranges sh pending pieces) (hmemory : sh'.memory = sh.memory)
    (hwrites : sh'.writes = sh.writes) (hoffsets : sh'.chunkOffsets = sh.chunkOffsets)
    (hnext : sh'.nextChunkId = sh.nextChunkId) : Covers content ranges sh' pending pieces where
  account := hwrites ▸ h.account
  staged := hmemory ▸ h.staged
  ids := h.ids
  offsets := hoffsets ▸ h.offsets
  fresh := hnext ▸ hoffsets ▸ h.fresh

variable {offset bytes : UInt64}

/-- A producer reads bytes into a slot. -/
lemma stage {remaining : UInt64} {data : List UInt8}
    (h : Covers content ranges sh
      (slice (cellOf content) offset.toNat remaining.toNat ++ pending) pieces)
    (hdata : data = slice content offset.toNat data.length)
    (hle : data.length ≤ remaining.toNat) (hslot : ∀ p ∈ pieces, p.slotId ≠ slotId) :
    Covers content ranges
      { sh with memory := update sh.memory slotId (fill data (sh.memory slotId)) }
      (slice (cellOf content) (offset.toNat + (ofNat data.length).toNat)
        (remaining.toNat - (ofNat data.length).toNat) ++ pending)
      (⟨slotId, offset, ofNat data.length, none⟩ :: pieces) := by
  have hlen : (ofNat data.length).toNat = data.length :=
    toNat_ofNat_of_lt' (lt_of_le_of_lt hle remaining.toNat_lt)
  refine ⟨?_, ?_, h.ids, ?_, h.fresh⟩
  · refine Perm.trans ?_ h.account
    rw [← slice_append hle]
    refine perm_iff_count.mpr fun cell => ?_
    simp only [flatMap_cons, Piece.cells, hlen, count_append]
    omega
  · refine forall_mem_cons.mpr ⟨fun k hk => ?_, fun p hp k hk => ?_⟩
    · rw [hlen] at hk
      dsimp only
      rw [update_self, hdata, fill_slice hk]
    · dsimp only
      rw [update_of_ne (hslot p hp)]
      exact h.staged p hp k hk
  · exact forall_mem_cons.mpr ⟨nofun, h.offsets⟩

lemma number
    (h : Covers content ranges sh pending (⟨slotId, offset, bytes, none⟩ :: pieces))
    (hid : sh.nextChunkId ≠ ofNat (2 ^ 64 - 1)) :
    Covers content ranges
      { sh with
        nextChunkId := sh.nextChunkId + 1
        chunkOffsets := update sh.chunkOffsets sh.nextChunkId
          (some ((sh.chunkOffsets sh.nextChunkId).getD offset)) }
      pending
      (⟨slotId, offset, bytes, some sh.nextChunkId⟩ :: pieces) := by
  have hnone : sh.chunkOffsets sh.nextChunkId = none := h.fresh _ UInt64.le_rfl
  have hne : ∀ p ∈ pieces, ∀ id, p.chunkId = some id → id ≠ sh.nextChunkId := by
    rintro p hp id hpid rfl
    cases hnone.symm.trans (h.offsets p (mem_cons_of_mem _ hp) _ hpid)
  rw [hnone]
  refine ⟨h.account, forall_mem_cons.mpr (forall_mem_cons.mp h.staged), ?_, ?_, ?_⟩
  · refine nodup_cons.mpr ⟨fun hmem => ?_, h.ids⟩
    obtain ⟨p, hp, hpid⟩ := mem_filterMap.mp hmem
    exact hne p hp _ hpid rfl
  · refine forall_mem_cons.mpr ⟨?_, fun p hp id hpid => ?_⟩
    · rintro _ ⟨⟩
      exact update_self ..
    · dsimp only
      rw [update_of_ne (hne p hp id hpid)]
      exact h.offsets p (mem_cons_of_mem _ hp) id hpid
  · intro id hle
    have hlt : sh.nextChunkId.toNat < id.toNat := by
      have hmax : sh.nextChunkId.toNat ≠ 2 ^ 64 - 1 := fun hmax =>
        hid (UInt64.toNat_inj.mp (hmax.trans (by rfl)))
      have hsucc : (sh.nextChunkId + 1).toNat = sh.nextChunkId.toNat + 1 :=
        toNat_add_of_lt (by have := sh.nextChunkId.toNat_lt; show _ + 1 < _; omega)
      rw [le_iff_toNat_le, hsucc] at hle
      omega
    dsimp only
    rw [update_of_ne (by rintro rfl; omega)]
    exact h.fresh id (le_iff_toNat_le.mpr hlt.le)

/-- The consumer looks up the offset of a chunk, and strikes out its number. -/
lemma found {id : UInt64}
    (h : Covers content ranges sh pending (⟨slotId, offset, bytes, some id⟩ :: pieces)) :
    Covers content ranges { sh with chunkOffsets := update sh.chunkOffsets id none }
      pending (⟨slotId, offset, bytes, none⟩ :: pieces) := by
  have hids := h.ids
  rw [filterMap_cons_some (show Piece.chunkId ⟨slotId, offset, bytes, some id⟩ = _ from rfl),
    nodup_cons] at hids
  refine ⟨h.account, forall_mem_cons.mpr (forall_mem_cons.mp h.staged), hids.2,
    forall_mem_cons.mpr ⟨nofun, fun p hp id' hpid => ?_⟩, ?_⟩
  · have hne : id' ≠ id := by
      rintro rfl
      exact hids.1 (mem_filterMap.mpr ⟨p, hp, hpid⟩)
    dsimp only
    rw [update_of_ne hne]
    exact h.offsets p (mem_cons_of_mem _ hp) id' hpid
  · intro id' hle
    dsimp only
    by_cases hid : id' = id
    · rw [hid, update_self]
    · rw [update_of_ne hid]
      exact h.fresh id' hle

/-- A slot is written to the sink. -/
lemma deliver
    (h : Covers content ranges sh pending (⟨slotId, offset, bytes, none⟩ :: pieces)) :
    Covers content ranges
      { sh with writes := sh.writes ++ [⟨offset, slice (sh.memory slotId) 0 bytes.toNat⟩] }
      pending pieces := by
  refine ⟨?_, fun p hp => h.staged p (mem_cons_of_mem _ hp), h.ids,
    fun p hp => h.offsets p (mem_cons_of_mem _ hp), h.fresh⟩
  have hcells : (SinkWrite.mk offset (slice (sh.memory slotId) 0 bytes.toNat)).cells =
      slice (cellOf content) offset.toNat bytes.toNat := by
    refine cells_slice fun k hk => ?_
    rw [zero_add]
    exact h.staged _ mem_cons_self k hk
  have hwritten : written (sh.writes ++ [⟨offset, slice (sh.memory slotId) 0 bytes.toNat⟩]) =
      written sh.writes ++ slice (cellOf content) offset.toNat bytes.toNat := by
    rw [written_append, ← hcells]
    exact congrArg _ (append_nil _)
  refine Perm.trans ?_ h.account
  refine perm_iff_count.mpr fun cell => ?_
  simp only [hwritten, flatMap_cons, Piece.cells, count_append]
  omega

end Covers

end TensorCast.Pump
