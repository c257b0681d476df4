import TensorCast.Pump.StagedSpec
import TensorCast.Pump.DirectSpec

/-!
# Transfers by `pump_ranges`

`pump_ranges` takes the direct path if both ends can write directly, and the staged path otherwise.
If it returns OK, every byte of every range is in the sink once, and when it returns, every slot is
free again.  The direct path misses the first promise for a range that ends at the end of the space of
offsets, the staged path the second one when the callback has won the race for the flag of a copy and
gives the slot back after `pump_ranges` has returned.
-/

namespace TensorCast.Pump

open Core Lib Memory Sink Source List Prod

/-- The arguments of `pump_ranges`, with the bytes of the buffer. -/
structure PumpCall where
  env : DirectEnv
  supportsDirectWriteAt : Bool
  /-- Whether the sink is a `DirectWriteCapable`. -/
  directWriteCapable : Bool
  pool : StreamingPinnedBuffer
  memory : ℕ → ℕ → UInt8
  ranges : List Range
  concurrency : ℤ
  /-- Whether the executor is there. -/
  executor : Bool
  options : PumpDirectWriteOptions := {}

namespace PumpCall

variable (c : PumpCall)

/-- The checks that open `pump_ranges`. -/
def validate : StatusOr Unit :=
  if c.concurrency ≤ 0 then .error (.invalidArgument "Concurrency must be positive")
  else if c.ranges = [] then .error (.invalidArgument "Ranges cannot be empty")
  else if c.executor = false then
    .error (.invalidArgument "pump_ranges requires a non-null executor")
  else .ok ()

/-- Whether the direct path is taken. -/
def direct : Bool := c.supportsDirectWriteAt && c.directWriteCapable

/-- The status of the direct path, which closes the sink after a success. -/
def directStatus (result : StatusOr Unit) (d : Direct) : StatusOr Unit :=
  match result with
  | .error status => .error status
  | .ok () => c.env.close d.tick

def startState : State := start c.pool c.memory c.concurrency.toNat

/-- How `pump_ranges` can return: its status, the buffer, and what it has written, with the steps of
the staged path that `allowed` permits. -/
inductive Returns (allowed : State → Thread → Prop) :
    StatusOr Unit → StreamingPinnedBuffer → List SinkWrite → Prop
  | rejected (status : Status) (hvalidate : c.validate = .error status) :
      Returns allowed (.error status) c.pool []
  | direct (result : StatusOr Unit) (d : Direct) (hvalidate : c.validate = .ok ())
      (hdirect : c.direct = true)
      (hrun : pumpRangesDirectWrite c.env c.ranges c.pool.chunkSize c.options = some (result, d)) :
      Returns allowed (c.directStatus result d) c.pool d.writes
  | staged (status : StatusOr Unit) (s : State) (hvalidate : c.validate = .ok ())
      (hdirect : c.direct = false)
      (hrun : Reaches (step c.env.toEnv c.ranges) allowed c.startState s)
      (hpc : s.main.pc = .returned status) :
      Returns allowed status s.shared.pool s.shared.writes

variable {c}

lemma concurrency_pos (h : c.validate = .ok ()) : 0 < c.concurrency.toNat := by
  unfold validate at h
  by_cases hpos : c.concurrency ≤ 0
  · rw [if_pos hpos] at h
    cases h
  · omega

end PumpCall

/-! ## Exactly once -/

def Range.Holds (r : Range) (p : ℕ) : Prop :=
  r.offset.toNat ≤ p ∧ p < r.offset.toNat + r.size.toNat

/-- No two ranges hold the same position. -/
def DisjointRanges (ranges : List Range) : Prop :=
  ranges.Pairwise fun a b => ∀ p, ¬ (a.Holds p ∧ b.Holds p)

/-- **Every byte of every range is written once, at its own offset, with the byte of the source.** -/
def ExactlyOnce (content : ℕ → UInt8) (ranges : List Range) (writes : List SinkWrite) : Prop :=
  ∀ r ∈ ranges, ∀ p, r.Holds p → (written writes).filter (fun cell => cell.1 = p) = [(p, content p)]

variable {content : ℕ → UInt8} {ranges : List Range} {writes : List SinkWrite}

lemma mem_cells_iff {r : Range} {cell : ℕ × UInt8} :
    cell ∈ r.cells content ↔ r.Holds cell.1 ∧ cell.2 = content cell.1 := by
  constructor
  · intro h
    obtain ⟨k, hk, rfl⟩ := mem_map.mp h
    have hlt := mem_range.mp hk
    refine ⟨?_, rfl⟩
    show _ ≤ _ + k ∧ _ + k < _
    omega
  · rintro ⟨⟨hle, hlt⟩, hbyte⟩
    refine mem_map.mpr ⟨cell.1 - r.offset.toNat, mem_range.mpr (by omega), ?_⟩
    rw [Nat.add_sub_cancel' hle]
    exact Prod.ext rfl hbyte.symm

lemma nodup_cells (r : Range) : (r.cells content).Nodup := by
  refine Nodup.map (fun i j h => ?_) nodup_range
  have hposition : r.offset.toNat + i = r.offset.toNat + j := congrArg Prod.fst h
  omega

lemma nodup_flatMap_cells (h : DisjointRanges ranges) :
    (ranges.flatMap (Range.cells content)).Nodup := by
  refine nodup_flatMap.mpr ⟨fun r _ => nodup_cells r, h.imp fun {a b} hab => ?_⟩
  intro cell ha hb
  exact hab cell.1 ⟨(mem_cells_iff.mp ha).1, (mem_cells_iff.mp hb).1⟩

lemma exactlyOnce_of_perm (hdisjoint : DisjointRanges ranges)
    (h : (written writes).Perm (ranges.flatMap (Range.cells content))) :
    ExactlyOnce content ranges writes := by
  intro r hr p hp
  have hmem : (p, content p) ∈ written writes :=
    h.mem_iff.mpr (mem_flatMap.mpr ⟨r, hr, mem_cells_iff.mpr ⟨hp, rfl⟩⟩)
  have hnodup : (written writes).Nodup := h.nodup_iff.mpr (nodup_flatMap_cells hdisjoint)
  refine (perm_singleton.mp ?_)
  refine (perm_ext_iff_of_nodup (hnodup.filter _) (nodup_singleton _)).mpr fun cell => ?_
  rw [mem_filter, mem_singleton]
  constructor
  · rintro ⟨hcell, hposition⟩
    obtain ⟨_, -, hr'⟩ := mem_flatMap.mp (h.mem_iff.mp hcell)
    have hp' : cell.1 = p := by simpa using hposition
    have hbyte := (mem_cells_iff.mp hr').2
    rw [hp'] at hbyte
    exact Prod.ext hp' hbyte
  · rintro rfl
    exact ⟨hmem, by simp⟩

lemma exactlyOnce_iff_of_reached (hdisjoint : DisjointRanges ranges)
    (h : (written writes).Perm (ranges.flatMap (Range.reachedCells content))) :
    ExactlyOnce content ranges writes ↔ ∀ r ∈ ranges, ¬ r.Wraps := by
  constructor
  · intro honce r hr hwraps
    -- the first byte of the range is nowhere in the sink
    have hpos : 0 < r.size.toNat := toNat_pos hwraps.1
    have hfirst : r.Holds r.offset.toNat := ⟨le_rfl, by omega⟩
    have hcell : (r.offset.toNat, content r.offset.toNat) ∈ written writes := by
      have hsingle := honce r hr _ hfirst
      exact (mem_filter.mp (hsingle ▸ mem_singleton.mpr rfl)).1
    obtain ⟨r', hr', hreached⟩ := mem_flatMap.mp (h.mem_iff.mp hcell)
    by_cases hwraps' : r'.Wraps
    · rw [reachedCells_of_wraps hwraps'] at hreached
      cases hreached
    · rw [reachedCells_of_not_wraps hwraps'] at hreached
      have hne : r ≠ r' := fun heq => hwraps' (heq ▸ hwraps)
      have hsymm : Std.Symm fun a b : Range => ∀ p, ¬ (a.Holds p ∧ b.Holds p) :=
        ⟨fun _ _ hab p hp => hab p hp.symm⟩
      exact hdisjoint.forall hr hr' hne _ ⟨hfirst, (mem_cells_iff.mp hreached).1⟩
  · intro hnone
    refine exactlyOnce_of_perm hdisjoint ?_
    rwa [flatMap_congr fun r hr => reachedCells_of_not_wraps (hnone r hr)] at h

/-! ## The transfer -/

/-- **`pump_ranges` transfers every byte exactly once and gives every slot back.**  A run that returns
OK has written each byte of each range once, with the byte of the source; on the direct path exactly
if no range wraps.  A run that returns has all slots in the free queue, if its steps are `careful`. -/
theorem pumpRanges_exactly_once {allowed : State → Thread → Prop} (c : PumpCall)
    (content : ℕ → UInt8) (henv : c.env.Honest content) (hpool : c.pool.Fresh)
    (hspace : ∀ r ∈ c.ranges, r.offset.toNat + r.size.toNat ≤ 2 ^ 64)
    (hdisjoint : DisjointRanges c.ranges) {status : StatusOr Unit} {pool : StreamingPinnedBuffer}
    {writes : List SinkWrite} (h : c.Returns allowed status pool writes) :
    (status = .ok () → (ExactlyOnce content c.ranges writes ↔
        (c.direct = true → ∀ r ∈ c.ranges, ¬ r.Wraps))) ∧
      ((∀ s t, allowed s t → careful s t = true) →
        pool.freeQueue.Perm (List.range c.pool.numChunks)) := by
  have hfree : c.pool.freeQueue.Perm (range c.pool.numChunks) := by
    simpa [StreamingPinnedBuffer.ledger, hpool.readyQueue] using hpool.leased.slots
  cases h with
  | rejected status hvalidate => exact ⟨by rintro ⟨⟩, fun _ => hfree⟩
  | direct result d hvalidate hdirect hrun =>
    refine ⟨fun hok => ?_, fun _ => hfree⟩
    rcases result with status | ⟨⟩
    · cases hok
    · rw [exactlyOnce_iff_of_reached hdisjoint (direct_delivers henv hrun)]
      exact ⟨fun hnone _ => hnone, fun hnone => hnone hdirect⟩
  | staged status s hvalidate hdirect hrun hpc =>
    constructor
    · rintro rfl
      have honce : ExactlyOnce content c.ranges s.shared.writes :=
        exactlyOnce_of_perm hdisjoint (staged_delivers hpool hrun henv.reads hspace
          (PumpCall.concurrency_pos hvalidate) hpc)
      exact ⟨fun _ hd => absurd hd (Bool.eq_false_iff.mp hdirect), fun _ => honce⟩
    · intro hcareful
      exact staged_returns_slots hpool (hrun.mono hcareful) hpc

/-! ## Two transfers that fall short -/

/-- A source in memory that does what it is asked. -/
def inlineEnv (content : ℕ → UInt8) (async : Bool) : DirectEnv where
  readAt _ offset bytes := .ok (slice content offset.toNat bytes.toNat)
  async := async
  readvIntoAt _ ops :=
    (.ok (ops.map (·.bytes)).sum,
      ops.map fun op => ⟨op.destVaOffset, slice content op.srcOffset.toNat op.bytes.toNat⟩)

lemma honest_inlineEnv (async : Bool) : (inlineEnv content async).Honest content where
  reads _ _ _ _ h := by
    cases h
    rw [length_slice]
  short _ _ _ _ h := by
    cases h
    rw [length_slice]
  readv _ ops _ h := by
    cases h
    rw [written, flatMap_map]
    refine .of_eq (flatMap_congr fun op _ => ?_)
    -- the byte that the operation puts at an offset of the destination
    let target (p : ℕ) : UInt8 := content (op.srcOffset.toNat + (p - op.destVaOffset.toNat))
    have htarget (k : ℕ) : content (op.srcOffset.toNat + k) = target (op.destVaOffset.toNat + k) :=
      congrArg (fun j => content (op.srcOffset.toNat + j)) (Nat.add_sub_cancel_left ..).symm
    rw [cells_slice fun k _ => htarget k]
    exact map_congr_left fun k _ => Prod.ext rfl (htarget k).symm

/-- A call of `pump_ranges` with one slot of eight bytes and one producer. -/
def pumpCall (ranges : List Range) (async direct : Bool) : PumpCall where
  env := inlineEnv (fun p => UInt8.ofNat p) async
  supportsDirectWriteAt := direct
  directWriteCapable := true
  pool := (StreamingPinnedBuffer.initializeBuffer { numChunks := 1, chunkSize := 8 } (.ok ())).2
  memory _ _ := 0
  ranges := ranges
  concurrency := 1
  executor := true

lemma fresh_pumpCall (ranges : List Range) (async direct : Bool) :
    (pumpCall ranges async direct).pool.Fresh := by
  obtain ⟨b, hb, -, hfresh⟩ := StreamingPinnedBuffer.fresh_initializeBuffer 1 8
  rw [pumpCall, hb]
  exact hfresh

/-- The last four bytes of the space of offsets. -/
def lastRange : Range := ⟨UInt64.ofNat (2 ^ 64 - 4), 4⟩

/-- The producer reads the only range; the consumer submits the copy of its chunk. -/
def submitSchedule : List Thread :=
  List.replicate 9 (.producer 0) ++ List.replicate 3 .main

/-- The callback sets the flag before the consumer comes to `return_if_needed`, and gives the slot
back after `pump_ranges` has returned. -/
def lateReturnSchedule : List Thread :=
  submitSchedule ++ (List.replicate 3 (.callback 0) ++ List.replicate 7 .main)

lemma lateReturn_run :
    (run (step (inlineEnv (fun p => UInt8.ofNat p) true).toEnv [⟨0, 4⟩]) (fun _ _ => true)
      lateReturnSchedule (pumpCall [⟨0, 4⟩] true false).startState).map
        (fun s => (s.main.pc, s.shared.pool.freeQueue)) = some (.returned (.ok ()), []) := by
  decide +kernel

/-- The direct path returns OK and has written nothing of the last four bytes of the space of
offsets; the staged path returns OK while the slot of its only chunk is not back. -/
theorem pumpRanges_skips_range_and_leaves_slot :
    (∃ pool writes, (pumpCall [lastRange] false true).Returns (fun _ _ => True) (.ok ()) pool
        writes ∧ ¬ ExactlyOnce (fun p => UInt8.ofNat p) [lastRange] writes) ∧
      ∃ pool writes, (pumpCall [⟨0, 4⟩] true false).Returns (fun _ _ => True) (.ok ()) pool
        writes ∧ ¬ pool.freeQueue.Perm (List.range 1) := by
  constructor
  · refine ⟨_, [], .direct (.ok ()) {} rfl rfl rfl, fun honce => ?_⟩
    have hfirst : lastRange.Holds (2 ^ 64 - 4) := by
      constructor <;> decide
    exact absurd (honce lastRange mem_cons_self _ hfirst) (by simp [written])
  · obtain ⟨s, hrun, hs⟩ := Option.map_eq_some_iff.mp lateReturn_run
    rw [mk.injEq] at hs
    have hreach := (reaches_of_run hrun).mono (fun _ _ _ => trivial)
    refine ⟨_, _, .staged (.ok ()) s rfl rfl hreach hs.1, fun hperm => ?_⟩
    rw [hs.2] at hperm
    exact absurd hperm.length_eq (by decide)

/-- The callback is through before the consumer looks. -/
def carefulSchedule : List Thread :=
  submitSchedule ++ (List.replicate 5 (.callback 0) ++ List.replicate 7 .main)

lemma careful_run :
    ((run (step (inlineEnv (fun p => UInt8.ofNat p) true).toEnv [⟨0, 4⟩]) careful
      carefulSchedule (pumpCall [⟨0, 4⟩] true false).startState).map (·.main.pc)) =
        some (.returned (.ok ())) := by
  decide +kernel

theorem pumpRanges_exactly_once_careful :
    ∃ pool writes, (pumpCall [⟨0, 4⟩] true false).Returns (fun s t => careful s t = true) (.ok ())
        pool writes ∧ ExactlyOnce (fun p => UInt8.ofNat p) [⟨0, 4⟩] writes ∧
      pool.freeQueue.Perm (List.range 1) := by
  obtain ⟨s, hrun, hpc⟩ := Option.map_eq_some_iff.mp careful_run
  have hreturns := PumpCall.Returns.staged (c := pumpCall [⟨0, 4⟩] true false) (.ok ()) s rfl rfl
    (reaches_of_run hrun) hpc
  have htransfer := pumpRanges_exactly_once _ _ (honest_inlineEnv true) (fresh_pumpCall _ _ _)
    (by simp [pumpCall]) (by simp [pumpCall, DisjointRanges]) hreturns
  exact ⟨_, _, hreturns, (htransfer.1 rfl).mpr (fun hdirect => nomatch hdirect),
    htransfer.2 fun _ _ h => h⟩

end TensorCast.Pump
