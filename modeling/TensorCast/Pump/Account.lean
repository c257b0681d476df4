import TensorCast.Pump.Coverage

/-!
# The account of a run

Each thread and each queue of the staged pump has a part in the account of `Covers`: what it has
still to read, and the slots that it moves on.  A step without a failure is a rule of `Covers`, or
it hands a slot from one place to another.
-/

namespace TensorCast.Pump

open Core Lib Memory Sink AsyncSlot List UInt64 Bool Function

variable {content : ℕ → UInt8} {env : Env} {ranges : List Range} {sh sh' : Shared}
  {s s' : State} {t : Thread}

/-! ## The parts -/

def Producer.pending (content : ℕ → UInt8) : Producer → List (ℕ × UInt8)
  | .range offset remaining | .holding offset remaining _ =>
    slice (cellOf content) offset.toNat remaining.toNat
  | .filled offset remaining _ bytesRead | .numbered offset remaining _ bytesRead _ =>
    slice (cellOf content) (offset.toNat + bytesRead.toNat) (remaining.toNat - bytesRead.toNat)
  | _ => []

def Producer.pieces : Producer → List Piece
  | .filled offset _ slotId bytesRead => [⟨slotId, offset, bytesRead, none⟩]
  | .numbered offset _ slotId bytesRead chunkId => [⟨slotId, offset, bytesRead, some chunkId⟩]
  | _ => []

/-- What a producer has in hand stays inside the space of offsets. -/
def Producer.Fits : Producer → Prop
  | .range offset remaining | .holding offset remaining _ =>
    offset.toNat + remaining.toNat ≤ 2 ^ 64
  | .filled offset remaining _ bytesRead | .numbered offset remaining _ bytesRead _ =>
    offset.toNat + remaining.toNat ≤ 2 ^ 64 ∧ bytesRead.toNat ≤ remaining.toNat
  | _ => True

def chunkPiece (offsets : UInt64 → Option UInt64) (chunk : ReadyChunk) : Piece where
  slotId := chunk.slotId
  offset := (offsets chunk.globalChunkId).getD 0
  bytes := chunk.bytesInChunk
  chunkId := some chunk.globalChunkId

def MainPc.pieces (offsets : UInt64 → Option UInt64) : MainPc → List Piece
  | .taken chunk => [chunkPiece offsets chunk]
  | .writing chunk destOffset => [⟨chunk.slotId, destOffset, chunk.bytesInChunk, none⟩]
  | _ => []

def AsyncSlot.pieces (copy : AsyncSlot) : List Piece :=
  match copy.stage with
  | .copying => [⟨copy.slotId, copy.destOffset, copy.bytes, none⟩]
  | _ => []

/-- The pieces behind the producers. -/
def Shared.pieces (sh : Shared) (pc : MainPc) : List Piece :=
  sh.pool.readyQueue.map (chunkPiece sh.chunkOffsets) ++
    (pc.pieces sh.chunkOffsets ++ sh.copies.flatMap AsyncSlot.pieces)

/-- The ranges that no producer has taken. -/
def Shared.unclaimed (content : ℕ → UInt8) (ranges : List Range) (sh : Shared) :
    List (ℕ × UInt8) :=
  (ranges.drop sh.rangeIndex).flatMap (Range.cells content)

structure Account (content : ℕ → UInt8) (ranges : List Range) (s : State) : Prop where
  covers : Covers content ranges s.shared
    (s.producers.flatMap (Producer.pending content) ++ s.shared.unclaimed content ranges)
    (s.producers.flatMap Producer.pieces ++ s.shared.pieces s.main.pc)
  fits : ∀ pc ∈ s.producers, pc.Fits

lemma account_start {pool : StreamingPinnedBuffer} (hpool : pool.readyQueue = [])
    (memory : ℕ → ℕ → UInt8) (concurrency : ℕ) :
    Account content ranges (start pool memory concurrency) where
  covers := by
    have hpending : (replicate concurrency Producer.idle).flatMap
        (Producer.pending content) = [] := by simp [Producer.pending]
    have hpieces : (replicate concurrency Producer.idle).flatMap Producer.pieces = [] := by
      simp [Producer.pieces]
    have hshared : (start pool memory concurrency).shared.pieces .loop = [] := by
      simp [start, Shared.pieces, hpool, MainPc.pieces]
    change Covers _ _ _ ((replicate concurrency Producer.idle).flatMap _ ++ _)
      ((replicate concurrency Producer.idle).flatMap _ ++
        (start pool memory concurrency).shared.pieces .loop)
    rw [hpending, hpieces, hshared]
    refine ⟨?_, by simp, nodup_nil, by simp, fun _ _ => rfl⟩
    simp [start, Shared.unclaimed, written]
  fits pc hpc := by
    rw [eq_of_mem_replicate hpc]
    trivial

/-! ## Slots and pieces -/

lemma Producer.pieces_slots (pc : Producer) : ∀ p ∈ pc.pieces, p.slotId ∈ pc.slots := by
  cases pc <;> simp [pieces, slots]

lemma MainPc.pieces_slots (pc : MainPc) (offsets : UInt64 → Option UInt64) :
    ∀ p ∈ pc.pieces offsets, p.slotId ∈ pc.slots := by
  cases pc <;> simp [MainPc.pieces, MainPc.slots, chunkPiece]

lemma AsyncSlot.pieces_slots {copy : AsyncSlot} (h : copy.smooth = true) :
    ∀ p ∈ copy.pieces, p.slotId ∈ copy.slots := by
  obtain ⟨slotId, _, _, stage, _⟩ := copy
  cases stage <;> simp_all [pieces, slots, smooth]

lemma apart_of_holding {i slotId : ℕ} {offset remaining : UInt64} (hleased : s.Leased)
    (hsmooth : Smooth s) (hpc : s.producers[i]? = some (.holding offset remaining slotId)) :
    ∀ p ∈ (s.producers.eraseIdx i).flatMap Producer.pieces ++ s.shared.pieces s.main.pc,
      p.slotId ≠ slotId := by
  have hfront : s.shared.pool.Leased
      (slotId :: (s.producers.eraseIdx i).flatMap Producer.slots) _ :=
    hleased.perm (flatMap_perm_eraseIdx hpc Producer.slots).symm .rfl
  obtain ⟨hready, hothers, hconsumers⟩ := hfront.producer_apart
  rintro p hp rfl
  rcases mem_append.mp hp with hp | hp
  · obtain ⟨q, hq, hpq⟩ := mem_flatMap.mp hp
    exact hothers (mem_flatMap.mpr ⟨q, hq, q.pieces_slots p hpq⟩)
  rcases mem_append.mp hp with hp | hp
  · obtain ⟨chunk, hchunk, rfl⟩ := mem_map.mp hp
    exact hready (mem_map.mpr ⟨chunk, hchunk, rfl⟩)
  rcases mem_append.mp hp with hp | hp
  · exact hconsumers (mem_append_left _ (s.main.pc.pieces_slots _ p hp))
  · obtain ⟨copy, hcopy, hpcopy⟩ := mem_flatMap.mp hp
    exact hconsumers (mem_append_right _ (mem_flatMap.mpr
      ⟨copy, hcopy, pieces_slots (hsmooth.copy copy hcopy) p hpcopy⟩))

lemma Shared.pieces_congr {pc : MainPc} (hpool : sh'.pool.readyQueue = sh.pool.readyQueue)
    (hcopies : sh'.copies = sh.copies)
    (hoffsets : ∀ p ∈ sh.pieces pc, ∀ id, p.chunkId = some id →
      sh'.chunkOffsets id = sh.chunkOffsets id) : sh'.pieces pc = sh.pieces pc := by
  have hpiece (chunk : ReadyChunk) (hmem : chunkPiece sh.chunkOffsets chunk ∈ sh.pieces pc) :
      chunkPiece sh'.chunkOffsets chunk = chunkPiece sh.chunkOffsets chunk := by
    rw [chunkPiece, chunkPiece, hoffsets _ hmem _ rfl]
  have hready : sh.pool.readyQueue.map (chunkPiece sh'.chunkOffsets) =
      sh.pool.readyQueue.map (chunkPiece sh.chunkOffsets) :=
    map_congr_left fun chunk hchunk =>
      hpiece chunk (mem_append_left _ (mem_map_of_mem hchunk))
  have hmain : pc.pieces sh'.chunkOffsets = pc.pieces sh.chunkOffsets := by
    cases pc
    case taken chunk =>
      refine congrArg (fun p => [p]) (hpiece chunk (mem_append_right _ ?_))
      exact mem_append_left _ (mem_singleton.mpr rfl)
    all_goals rfl
  rw [pieces, pieces, hpool, hcopies, hready, hmain]

lemma Covers.pieces_congr {pending : List (ℕ × UInt8)} {pieces restPieces : List Piece}
    {pc : MainPc} (sh : Shared)
    (h : Covers content ranges sh' pending (pieces ++ (restPieces ++ sh.pieces pc)))
    (hpool : sh'.pool.readyQueue = sh.pool.readyQueue) (hcopies : sh'.copies = sh.copies)
    (hoffsets : ∀ p ∈ sh.pieces pc, ∀ id, p.chunkId = some id →
      sh'.chunkOffsets id = sh.chunkOffsets id) :
    Covers content ranges sh' pending (pieces ++ (restPieces ++ sh'.pieces pc)) := by
  rw [Shared.pieces_congr hpool hcopies hoffsets]
  exact h

/-! ## Producers -/

section Producer

variable {pc pc' : Producer}

lemma ProducerMove.fits (h : ProducerMove env ranges sh pc pc' sh')
    (hranges : ∀ r ∈ ranges, r.offset.toNat + r.size.toNat ≤ 2 ^ 64) (hpc : pc.Fits) :
    pc'.Fits := by
  cases h
  case claim r hrange => exact hranges r (mem_of_getElem? hrange)
  case acquire => exact hpc
  case read offset remaining slotId data hread hpos hle =>
    rw [toNat_min] at hle
    refine ⟨hpc, ?_⟩
    rw [toNat_ofNat']
    omega
  case number => exact hpc
  case ready offset remaining slotId bytesRead chunkId pool hshape hqueue =>
    obtain ⟨_, hread⟩ := hpc
    show (offset + bytesRead).toNat + (remaining - bytesRead).toNat ≤ 2 ^ 64
    rw [toNat_sub_of_le hread, UInt64.toNat_add]
    omega
  all_goals trivial

lemma pending_ready {f : ℕ → ℕ × UInt8} {offset remaining bytesRead : UInt64}
    (hspace : offset.toNat + remaining.toNat ≤ 2 ^ 64) (hread : bytesRead.toNat ≤ remaining.toNat) :
    slice f (offset + bytesRead).toNat (remaining - bytesRead).toNat =
      slice f (offset.toNat + bytesRead.toNat) (remaining.toNat - bytesRead.toNat) := by
  rw [toNat_sub_of_le hread]
  by_cases hend : remaining.toNat - bytesRead.toNat = 0
  · -- the range is at its end, which may be the end of the space of offsets
    rw [hend, slice_zero, slice_zero]
  · rw [toNat_add_of_lt (by omega)]

/-- **The steps of a producer are rules of the account.** -/
lemma Covers.producer_move {mainPc : MainPc} {restPending : List (ℕ × UInt8)}
    {restPieces : List Piece}
    (h : Covers content ranges sh
      (pc.pending content ++ (restPending ++ sh.unclaimed content ranges))
      (pc.pieces ++ (restPieces ++ sh.pieces mainPc)))
    (hmove : ProducerMove env ranges sh pc pc' sh') (hreads : env.Reads content)
    (hpc : pc.smooth = true) (hpc' : pc'.smooth = true) (hstop : sh.shouldStop = false)
    (hfits : pc.Fits)
    (hapart : ∀ offset remaining slotId, pc = .holding offset remaining slotId →
      ∀ p ∈ restPieces ++ sh.pieces mainPc, p.slotId ≠ slotId) :
    Covers content ranges sh'
      (pc'.pending content ++ (restPending ++ sh'.unclaimed content ranges))
      (pc'.pieces ++ (restPieces ++ sh'.pieces mainPc)) := by
  cases hmove
  case stop hstop' | yield hstop' => exact absurd hstop' (eq_false_iff.mp hstop)
  case noSlot | misread | overflow => cases hpc'
  case fail | shut | shutHolding | release => cases hpc
  case exhausted hrange =>
    have hunclaimed : Shared.unclaimed content ranges
        { sh.next with rangeIndex := sh.rangeIndex + 1 } = sh.unclaimed content ranges := by
      rw [Shared.unclaimed, Shared.unclaimed, drop_of_length_le hrange,
        drop_of_length_le (Nat.le_succ_of_le hrange)]
    rw [hunclaimed]
    exact h.congr rfl rfl rfl rfl
  case claim r hrange =>
    have hunclaimed : sh.unclaimed content ranges = r.cells content ++
        Shared.unclaimed content ranges { sh.next with rangeIndex := sh.rangeIndex + 1 } := by
      obtain ⟨hlt, rfl⟩ := List.getElem?_eq_some_iff.mp hrange
      rw [Shared.unclaimed, drop_eq_getElem_cons hlt]
      rfl
    rw [hunclaimed] at h
    refine (h.perm ?_ .rfl).congr rfl rfl rfl rfl
    exact perm_append_comm_assoc _ _ _
  case leave offset remaining hleave =>
    have hzero := hleave.resolve_right (eq_false_iff.mp hstop)
    rw [hzero] at h
    exact h.congr rfl rfl rfl rfl
  case acquire offset remaining slotId pool hpool =>
    exact Covers.pieces_congr sh (h.congr rfl rfl rfl rfl) hpool.readyQueue rfl fun _ _ _ _ => rfl
  case read offset remaining slotId data hread hpos hle =>
    rw [toNat_min] at hle
    exact (h.stage (hreads _ _ _ _ hread) (by omega) (hapart _ _ _ rfl)).congr rfl rfl rfl rfl
  case number offset remaining slotId bytesRead hid =>
    have hnone : sh.chunkOffsets sh.nextChunkId = none := h.fresh _ UInt64.le_rfl
    refine Covers.pieces_congr sh ((h.number hid).congr rfl rfl rfl rfl) rfl rfl
      fun p hp id hpid => ?_
    have hsome := h.offsets p (by simp [hp]) id hpid
    refine update_of_ne ?_ _ _
    rintro rfl
    rw [hnone] at hsome
    cases hsome
  case ready offset remaining slotId bytesRead chunkId pool hshape hqueue =>
    have hoffset : sh.chunkOffsets chunkId = some offset :=
      h.offsets ⟨slotId, offset, bytesRead, some chunkId⟩ mem_cons_self chunkId rfl
    have hpiece : chunkPiece sh.chunkOffsets ⟨slotId, chunkId, bytesRead⟩ =
        ⟨slotId, offset, bytesRead, some chunkId⟩ := by
      rw [chunkPiece, hoffset]
      rfl
    have hpieces : Shared.pieces { sh.next with pool := pool } mainPc =
        sh.pool.readyQueue.map (chunkPiece sh.chunkOffsets) ++
          (⟨slotId, offset, bytesRead, some chunkId⟩ ::
            (mainPc.pieces sh.chunkOffsets ++ sh.copies.flatMap pieces)) := by
      rw [Shared.pieces, hqueue, map_append, append_assoc]
      exact congrArg (fun p => _ ++ (p :: _)) hpiece
    have hpending : Producer.pending content (.range (offset + bytesRead) (remaining - bytesRead)) =
        Producer.pending content (.numbered offset remaining slotId bytesRead chunkId) :=
      pending_ready hfits.1 hfits.2
    rw [hpending, hpieces]
    refine (h.perm .rfl ?_).congr rfl rfl rfl rfl
    refine perm_iff_count.mpr fun p => ?_
    simp only [Producer.pieces, Shared.pieces, count_append, count_cons]
    omega
  case exit | last | signal => exact h.congr rfl rfl rfl rfl

lemma Account.producer_move {i : ℕ} (hs : Account content ranges s) (hleased : s.Leased)
    (hsmooth : Smooth s) (hreads : env.Reads content)
    (hranges : ∀ r ∈ ranges, r.offset.toNat + r.size.toNat ≤ 2 ^ 64)
    (hpc : s.producers[i]? = some pc) (h : ProducerMove env ranges s.shared pc pc' sh')
    (hpc' : pc'.smooth = true) :
    Account content ranges { s with shared := sh', producers := s.producers.set i pc' } := by
  have hmem := mem_of_getElem? hpc
  have hpending := flatMap_perm_eraseIdx hpc (Producer.pending content)
  have hpieces := flatMap_perm_eraseIdx hpc Producer.pieces
  have hfront := hs.covers.perm
    ((append_assoc ..) ▸ (hpending.append_right (s.shared.unclaimed content ranges)).symm)
    ((append_assoc ..) ▸ (hpieces.append_right (s.shared.pieces s.main.pc)).symm)
  have hcovers := hfront.producer_move h hreads (hsmooth.producer pc hmem) hpc' hsmooth.shouldStop
    (hs.fits pc hmem) (by rintro _ _ _ rfl; exact apart_of_holding hleased hsmooth hpc)
  refine ⟨hcovers.perm ?_ ?_, forall_mem_set hs.fits (h.fits hranges (hs.fits pc hmem))⟩
  · rw [← append_assoc]
    exact (flatMap_set_perm hpc pc' (Producer.pending content)).append_right _
  · rw [← append_assoc]
    exact (flatMap_set_perm hpc pc' Producer.pieces).append_right _

end Producer

/-! ## The calling thread and the callbacks -/

section Main

variable {pending : List (ℕ × UInt8)} {pieces : List Piece} {slot slot' : AsyncSlot}

lemma Covers.main_found {chunk : ReadyChunk} {destOffset : UInt64}
    (h : Covers content ranges sh pending (pieces ++ sh.pieces (.taken chunk)))
    (hoffset : sh.chunkOffsets chunk.globalChunkId = some destOffset) :
    let sh' := { sh with
      chunkOffsets := update sh.chunkOffsets chunk.globalChunkId none }
    Covers content ranges sh' pending (pieces ++ sh'.pieces (.writing chunk destOffset)) := by
  have hpiece : chunkPiece sh.chunkOffsets chunk =
      ⟨chunk.slotId, destOffset, chunk.bytesInChunk, some chunk.globalChunkId⟩ := by
    rw [chunkPiece, hoffset]
    rfl
  -- the pieces of the others, with the one that is looked up in front of them
  have hfront : Covers content ranges sh pending
      (⟨chunk.slotId, destOffset, chunk.bytesInChunk, some chunk.globalChunkId⟩ ::
        (pieces ++ (sh.pool.readyQueue.map (chunkPiece sh.chunkOffsets) ++
          sh.copies.flatMap AsyncSlot.pieces))) := by
    refine h.perm .rfl (perm_iff_count.mpr fun p => ?_)
    simp only [Shared.pieces, MainPc.pieces, hpiece, count_append, count_cons, count_nil]
    omega
  have hready : sh.pool.readyQueue.map
      (chunkPiece (update sh.chunkOffsets chunk.globalChunkId none)) =
      sh.pool.readyQueue.map (chunkPiece sh.chunkOffsets) := by
    refine map_congr_left fun other hother => ?_
    have hne : other.globalChunkId ≠ chunk.globalChunkId := by
      intro heq
      refine (nodup_cons.mp hfront.ids).1 (mem_filterMap.mpr ?_)
      exact ⟨chunkPiece sh.chunkOffsets other, by simp [mem_map_of_mem hother],
        congrArg some heq⟩
    rw [chunkPiece, chunkPiece, update_of_ne hne]
  refine hfront.found.perm .rfl ?_
  refine perm_iff_count.mpr fun p => ?_
  simp only [Shared.pieces, MainPc.pieces, hready, count_append, count_cons, count_nil]
  omega

/-- **The steps of the calling thread are rules of the account.** -/
lemma Covers.main_move {m m' : Main} {done : Bool}
    (h : Covers content ranges sh (pending ++ sh.unclaimed content ranges)
      (pieces ++ sh.pieces m.pc))
    (hmove : MainMove env done sh m m' sh') (hm : m.pc.smooth = true) (hm' : m'.pc.smooth = true)
    (hstop : sh.shouldStop = false) (hok : sh'.StatusOk) :
    Covers content ranges sh' (pending ++ sh'.unclaimed content ranges)
      (pieces ++ sh'.pieces m'.pc) := by
  cases hmove
  case leave hstop' => exact absurd hstop' (eq_false_iff.mp hstop)
  case missing => exact absurd hok.1 (by simp)
  case refuse | settleError => exact absurd hok.1 (orElse_ne_ok _ _)
  case quit | drop | wroteError | giveUp | stop | drainEnd | drainTake | drainReturn => cases hm
  case drain => cases hm'
  case take inflight d d' chunk pool hshape hqueue =>
    refine (h.perm .rfl ?_).congr rfl rfl rfl rfl
    refine perm_iff_count.mpr fun p => ?_
    simp only [Shared.pieces, MainPc.pieces, Shared.next, hqueue, map_cons, count_append,
      count_cons]
    omega
  case found inflight d chunk destOffset hoffset =>
    exact (h.main_found hoffset).congr rfl rfl rfl rfl
  case write inflight d chunk destOffset status =>
    have hfront : Covers content ranges sh (pending ++ sh.unclaimed content ranges)
        (⟨chunk.slotId, destOffset, chunk.bytesInChunk, none⟩ ::
          (pieces ++ sh.pieces (.written chunk.slotId status))) := by
      refine h.perm .rfl (perm_iff_count.mpr fun p => ?_)
      simp only [Shared.pieces, MainPc.pieces, count_append, count_cons]
      omega
    exact hfront.deliver.congr rfl rfl rfl rfl
  case submit inflight d chunk destOffset =>
    refine (h.perm .rfl ?_).congr rfl rfl rfl rfl
    refine perm_iff_count.mpr fun p => ?_
    simp only [Shared.pieces, MainPc.pieces, Shared.next, AsyncSlot.pieces, flatMap_append,
      flatMap_cons, flatMap_nil, count_append, count_nil]
    omega
  case wrote inflight d slotId pool hpool =>
    refine (h.perm .rfl ?_).congr rfl rfl rfl rfl
    simp only [Shared.pieces, hpool.readyQueue]
    exact .rfl
  case settle inflight d pc i flush hpc index hindex slot hslot hstage =>
    have hpieces : pc.pieces sh.chunkOffsets = [] := by
      rcases hpc with ⟨rfl, -⟩ | ⟨rfl, -⟩ <;> rfl
    refine (h.perm .rfl ?_).congr rfl rfl rfl rfl
    simp only [Shared.pieces, hpieces]
    exact .rfl
  case reclaim inflight d i flush index hindex slot hslot pool hpool =>
    refine (h.perm .rfl ?_).congr rfl rfl rfl rfl
    have hmain (offsets : UInt64 → Option UInt64) :
        MainPc.pieces offsets (if flush = true then .flushing else .sweeping i) = [] := by
      cases flush <;> rfl
    simp only [Shared.pieces, hmain, hpool.readyQueue]
    refine (Perm.append_left _ ?_).append_left _
    refine (flatMap_set_perm hslot _ AsyncSlot.pieces).trans ?_
    exact (flatMap_perm_eraseIdx hslot AsyncSlot.pieces).symm
  all_goals exact h.congr rfl rfl rfl rfl

lemma CallbackMove.bytes (h : CallbackMove env sh slot slot' sh') :
    slot'.failed = true ∨ slot'.pieces = [] ∧
      (slot.pieces = [⟨slot.slotId, slot.destOffset, slot.bytes, none⟩] ∧
          sh'.writes = sh.writes ++
            [⟨slot.destOffset, slice (sh.memory slot.slotId) 0 slot.bytes.toNat⟩] ∨
        slot.pieces = [] ∧ sh'.writes = sh.writes) := by
  cases h with
  | copyError => exact .inl rfl
  | copyOk hstage => exact .inr ⟨rfl, .inl ⟨by rw [pieces, hstage], rfl⟩⟩
  | record _ hstage | pass _ hstage | claim _ hstage | give _ hstage | finish hstage
  | shut _ hstage => exact .inr ⟨rfl, .inr ⟨by rw [pieces, hstage], rfl⟩⟩

lemma CallbackMove.frame (h : CallbackMove env sh slot slot' sh') :
    sh'.memory = sh.memory ∧ sh'.chunkOffsets = sh.chunkOffsets ∧
      sh'.nextChunkId = sh.nextChunkId ∧ sh'.rangeIndex = sh.rangeIndex ∧
      sh'.pool.readyQueue = sh.pool.readyQueue := by
  cases h
  case give hpool => exact ⟨rfl, rfl, rfl, rfl, hpool.readyQueue⟩
  all_goals exact ⟨rfl, rfl, rfl, rfl, rfl⟩

/-- **The steps of a copy and its callback are rules of the account.** -/
lemma Covers.callback_move {pc : MainPc} {index : ℕ}
    (h : Covers content ranges sh pending (pieces ++ sh.pieces pc))
    (hslot : sh.copies[index]? = some slot) (hmove : CallbackMove env sh slot slot' sh')
    (hfailed : slot'.failed = false) :
    Covers content ranges { sh' with copies := sh.copies.set index slot' } pending
      (pieces ++ Shared.pieces { sh' with copies := sh.copies.set index slot' } pc) := by
  obtain ⟨hmemory, hoffsets, hnext, -, hready⟩ := hmove.frame
  obtain ⟨hslot', hcases⟩ := hmove.bytes.resolve_left (eq_false_iff.mp hfailed)
  have hold := flatMap_perm_eraseIdx hslot AsyncSlot.pieces
  have hnew := flatMap_set_perm hslot slot' AsyncSlot.pieces
  have hpieces : ((slot.pieces ++ (pieces ++
      Shared.pieces { sh' with copies := sh.copies.set index slot' } pc))).Perm
        (pieces ++ sh.pieces pc) := by
    refine perm_iff_count.mpr fun p => ?_
    have hold' := hold.count_eq p
    have hnew' := hnew.count_eq p
    simp only [hslot', nil_append, count_append] at hold' hnew'
    simp only [Shared.pieces, hready, hoffsets, count_append]
    omega
  rcases hcases with ⟨hpiece, hwrites⟩ | ⟨hpiece, hwrites⟩
  · rw [hpiece] at hpieces
    exact (h.perm .rfl hpieces).deliver.congr hmemory hwrites hoffsets hnext
  · rw [hpiece] at hpieces
    exact (h.perm .rfl hpieces).congr hmemory hwrites hoffsets hnext

end Main

/-- The step lemma. -/
lemma Account.move (hs : Account content ranges s) (hleased : s.Leased) (hsmooth : Smooth s)
    (hreads : env.Reads content) (hranges : ∀ r ∈ ranges, r.offset.toNat + r.size.toNat ≤ 2 ^ 64)
    (h : Move env ranges s t s') (hsmooth' : Smooth s') (hclean : Clean s') :
    Account content ranges s' := by
  cases h with
  | producer i pc pc' sh' hpc hmove =>
    have hi := (List.getElem?_eq_some_iff.mp hpc).1
    exact hs.producer_move hleased hsmooth hreads hranges hpc hmove
      (hsmooth'.producer pc' (mem_of_getElem? (getElem?_set_self hi)))
  | main m' sh' hmove =>
    exact ⟨hs.covers.main_move hmove hsmooth.main hsmooth'.main hsmooth.shouldStop hclean.status,
      hs.fits⟩
  | callback index slot slot' sh' hslot hmove =>
    have hi := (List.getElem?_eq_some_iff.mp hslot).1
    have hcovers := hs.covers.callback_move hslot hmove
      (hclean.copy slot' (mem_of_getElem? (getElem?_set_self hi)))
    have hunclaimed : Shared.unclaimed content ranges
        { sh' with copies := s.shared.copies.set index slot' } =
          s.shared.unclaimed content ranges :=
      congrArg (fun j => (ranges.drop j).flatMap _) hmove.frame.2.2.2.1
    refine ⟨?_, hs.fits⟩
    rw [hunclaimed]
    exact hcovers

end TensorCast.Pump
