import TensorCast.Pump.Direct

/-!
# What the direct pump writes

The loops of the direct pump keep one account: the bytes that are written and the bytes that the
batch still asks for are those of the ranges so far.  A range whose end is `2 ^ 64` or lies behind
it contributes nothing, since its end wraps around to an offset that is not behind its start.
-/

namespace TensorCast.Pump

open Core Lib Sink Source List UInt64 Nat

variable {content : ℕ → UInt8} {env : DirectEnv}

/-- What an operation asks for. -/
def opCells (content : ℕ → UInt8) (op : DirectWriteOp) : List (ℕ × UInt8) :=
  (List.range op.bytes.toNat).map fun k =>
    (op.destVaOffset.toNat + k, content (op.srcOffset.toNat + k))

lemma opCells_of_eq {op : DirectWriteOp} (h : op.srcOffset = op.destVaOffset) :
    opCells content op = slice (cellOf content) op.destVaOffset.toNat op.bytes.toNat := by
  rw [opCells, h]
  rfl

/-- A read returns bytes of the source, no more than it is asked for, and a direct write that reports
the whole size of its operations has carried them out. -/
structure DirectEnv.Honest (env : DirectEnv) (content : ℕ → UInt8) : Prop where
  reads : env.toEnv.Reads content
  short : ∀ tick offset bytes data, env.readAt tick offset bytes = .ok data →
    data.length ≤ bytes.toNat
  readv : ∀ tick ops writes,
    env.readvIntoAt tick ops = (.ok (ops.map (·.bytes)).sum, writes) →
      (written writes).Perm (ops.flatMap (opCells content))

lemma exists_of_next {first : Option (StatusOr Unit × Direct)}
    {next : Direct → Option (StatusOr Unit × Direct)} {d' : Direct}
    (h : (match first with
      | none => none
      | some (.error status, d) => some (.error status, d)
      | some (.ok (), d) => next d) = some (.ok (), d')) :
    ∃ d, first = some (.ok (), d) ∧ next d = some (.ok (), d') := by
  rcases first with _ | ⟨status | ⟨⟩, d⟩
  · cases h
  · cases h
  · exact ⟨d, rfl, h⟩

/-! ## The staging buffer -/

/-- The loop over one operation writes what the operation asks for. -/
lemma stagedCopyOp_spec (henv : env.Honest content) {stagingBytes : UInt64} {fuel : ℕ}
    {off remaining : UInt64} {d d' : Direct} (hspace : off.toNat + remaining.toNat < 2 ^ 64)
    (h : stagedCopyOp env stagingBytes fuel off off remaining d = some (.ok (), d')) :
    written d'.writes = written d.writes ++ slice (cellOf content) off.toNat remaining.toNat := by
  induction fuel generalizing off remaining d with
  | zero =>
    obtain ⟨rfl, ⟨⟩⟩ | ⟨-, ⟨⟩⟩ := ite_eq_iff.mp h
    exact (append_nil _).symm
  | succ fuel ih =>
    obtain ⟨rfl, ⟨⟩⟩ | ⟨-, h⟩ := ite_eq_iff.mp h
    · exact (append_nil _).symm
    rcases hread : env.readAt d.tick off (min remaining stagingBytes) with status | data
    · simp only [hread] at h
      cases h
    simp only [hread] at h
    obtain ⟨-, ⟨⟩⟩ | ⟨-, h⟩ := ite_eq_iff.mp h
    rcases hwrite : env.writeAt (d.tick + 1) off data with status | ⟨⟩
    · simp only [hwrite] at h
      cases h
    simp only [hwrite] at h
    -- a round writes what it has read, and leaves the rest
    have hle : data.length ≤ remaining.toNat := by
      have := henv.short _ _ _ _ hread
      rw [toNat_min] at this
      omega
    have hgot : (ofNat data.length).toNat = data.length :=
      toNat_ofNat_of_lt' (lt_of_le_of_lt hle remaining.toNat_lt)
    have hoff : (off + ofNat data.length).toNat = off.toNat + data.length := by
      rw [toNat_add_of_lt (by omega), hgot]
    have hrest : (remaining - ofNat data.length).toNat = remaining.toNat - data.length := by
      rw [toNat_sub_of_le (by omega), hgot]
    have hwritten := ih (by omega) h
    have hcells : written [⟨off, data⟩] = slice (cellOf content) off.toNat data.length := by
      have hdata := henv.reads _ _ _ _ hread
      rw [written, flatMap_cons, flatMap_nil, append_nil, hdata]
      rw [cells_slice fun k _ => rfl, length_slice]
    rw [hwritten, written_append, hcells, hoff, hrest, append_assoc, slice_append hle]

lemma stagedCopyOps_spec (henv : env.Honest content) {stagingBytes : UInt64}
    {ops : List DirectWriteOp} {d d' : Direct}
    (hops : ∀ op ∈ ops, op.srcOffset = op.destVaOffset ∧
      op.srcOffset.toNat + op.bytes.toNat < 2 ^ 64)
    (h : stagedCopyOps env stagingBytes ops d = some (.ok (), d')) :
    written d'.writes = written d.writes ++ ops.flatMap (opCells content) := by
  induction ops generalizing d with
  | nil =>
    cases h
    exact (append_nil _).symm
  | cons op rest ih =>
    obtain ⟨hsame, hspace⟩ := hops op mem_cons_self
    obtain ⟨_, hop, h⟩ := exists_of_next h
    have hrest := ih (fun op' hop' => hops op' (mem_cons_of_mem _ hop')) h
    rw [← hsame] at hop
    have hwritten := stagedCopyOp_spec henv hspace hop
    rw [hrest, hwritten, flatMap_cons, opCells_of_eq hsame, hsame, append_assoc]

/-! ## Batches -/

/-- **The account of the direct pump**: what is written, with what the batch asks for. -/
structure Batched (content : ℕ → UInt8) (d : Direct) (cells : List (ℕ × UInt8)) : Prop where
  account : (written d.writes ++ d.batchOps.flatMap (opCells content)).Perm cells
  bytes : d.batchBytes = (d.batchOps.map (·.bytes)).sum
  ops : ∀ op ∈ d.batchOps, op.srcOffset = op.destVaOffset ∧
    op.srcOffset.toNat + op.bytes.toNat < 2 ^ 64

variable {cells : List (ℕ × UInt8)} {d d' : Direct}

lemma Batched.clear (h : ((written d.writes).Perm cells)) : Batched content d.clearBatch cells where
  account := by
    rw [show d.clearBatch.batchOps = [] from rfl, flatMap_nil, append_nil]
    exact h
  bytes := rfl
  ops _ hop := nomatch hop

lemma Batched.flush (henv : env.Honest content) {windowBytes : UInt64}
    (hd : Batched content d cells) (h : flushBatch env windowBytes d = some (.ok (), d')) :
    Batched content d' cells ∧ d'.batchOps = [] := by
  obtain ⟨hempty, ⟨⟩⟩ | ⟨hempty, h⟩ := ite_eq_iff.mp h
  · exact ⟨hd, hempty⟩
  rcases hplan : env.planDirectWrite d.tick d.batchRanges with status | ⟨⟩
  · -- no grant: the batch goes through the staging buffer
    simp only [hplan, stagedCopyDirectWriteBatch, if_neg hempty, Option.map_eq_some_iff,
      Prod.exists] at h
    obtain ⟨-, _, hcopy, rfl, rfl⟩ := h
    obtain ⟨-, ⟨⟩⟩ | ⟨-, hcopy⟩ := ite_eq_iff.mp hcopy
    have hwritten := stagedCopyOps_spec henv hd.ops hcopy
    exact ⟨.clear (hwritten ▸ hd.account), rfl⟩
  · simp only [hplan] at h
    rcases hreadv : env.readvIntoAt (d.tick + 1) d.batchOps with ⟨status | _, writes⟩
    · simp only [hreadv] at h
      cases h
    simp only [hreadv] at h
    obtain ⟨-, ⟨⟩⟩ | ⟨hgot, ⟨⟩⟩ := ite_eq_iff.mp h
    rw [not_not.mp hgot, hd.bytes] at hreadv
    refine ⟨.clear ?_, rfl⟩
    show (written (d.writes ++ writes)).Perm cells
    rw [written_append]
    exact ((henv.readv _ _ _ hreadv).append_left _).trans hd.account

lemma Batched.push {off step : UInt64} (hd : Batched content d cells)
    (hspace : off.toNat + step.toNat < 2 ^ 64) :
    Batched content (d.push off step) (cells ++ slice (cellOf content) off.toNat step.toNat) where
  account := by
    have hop : opCells content ⟨off, off, step⟩ = slice (cellOf content) off.toNat step.toNat :=
      opCells_of_eq rfl
    have hperm := hd.account.append_right (slice (cellOf content) off.toNat step.toNat)
    simpa [Direct.push, hop] using hperm
  bytes := by
    simp [Direct.push, hd.bytes]
  ops := forall_mem_append.mpr ⟨hd.ops, forall_mem_singleton.mpr ⟨rfl, hspace⟩⟩

/-! ## The loops -/

section Loops

variable {windowBytes batchBytesLimit batchOpsLimit rangeEnd : UInt64}

lemma batchRange_spec (henv : env.Honest content) (hwindow : windowBytes ≠ 0) {fuel : ℕ}
    {off : UInt64} (hfuel : rangeEnd.toNat - off.toNat ≤ fuel) (hd : Batched content d cells)
    (h : batchRange env windowBytes batchBytesLimit batchOpsLimit rangeEnd fuel off d =
      some (.ok (), d')) :
    Batched content d'
      (cells ++ slice (cellOf content) off.toNat (rangeEnd.toNat - off.toNat)) := by
  induction fuel generalizing off d cells with
  | zero =>
    cases h
    rw [le_zero.mp hfuel, slice_zero, append_nil]
    exact hd
  | succ fuel ih =>
    obtain ⟨hlt, h⟩ | ⟨hlt, ⟨⟩⟩ := ite_eq_iff.mp h
    swap
    · rw [lt_iff_toNat_lt] at hlt
      rw [Nat.sub_eq_zero_of_le (not_lt.mp hlt), slice_zero, append_nil]
      exact hd
    rw [lt_iff_toNat_lt] at hlt
    have hend := rangeEnd.toNat_lt
    have hpos : 0 < windowBytes.toNat := toNat_pos hwindow
    have hstep : (min windowBytes (rangeEnd - off)).toNat =
        min windowBytes.toNat (rangeEnd.toNat - off.toNat) := by
      rw [toNat_min, toNat_sub_of_le hlt.le]
    have hoff : (off + min windowBytes (rangeEnd - off)).toNat =
        off.toNat + (min windowBytes (rangeEnd - off)).toNat :=
      toNat_add_of_lt (by omega)
    -- what a round asks for, and what it leaves for the next ones
    have hround {d₁ : Direct} (hd₁ : Batched content d₁ cells)
        (h₁ : batchRange env windowBytes batchBytesLimit batchOpsLimit rangeEnd fuel
          (off + min windowBytes (rangeEnd - off))
          (d₁.push off (min windowBytes (rangeEnd - off))) = some (.ok (), d')) :
        Batched content d'
          (cells ++ slice (cellOf content) off.toNat (rangeEnd.toNat - off.toNat)) := by
      have hrest := ih (by omega) (hd₁.push (by omega)) h₁
      rw [append_assoc, hoff] at hrest
      have hsplit : rangeEnd.toNat -
          (off.toNat + (min windowBytes (rangeEnd - off)).toNat) =
            rangeEnd.toNat - off.toNat - (min windowBytes (rangeEnd - off)).toNat := by omega
      rw [hsplit, slice_append (by omega)] at hrest
      exact hrest
    obtain ⟨-, h⟩ | ⟨-, h⟩ := ite_eq_iff.mp h
    · obtain ⟨d₁, hflush, h⟩ := exists_of_next h
      exact hround (hd.flush henv hflush).1 h
    · exact hround hd h

/-- What the direct pump asks for of a range: all of it, unless its end wraps around. -/
def Range.reachedCells (content : ℕ → UInt8) (r : Range) : List (ℕ × UInt8) :=
  slice (cellOf content) r.offset.toNat ((r.offset + r.size).toNat - r.offset.toNat)

/-- The range is not empty, and its end is not an offset. -/
def Range.Wraps (r : Range) : Prop := r.size ≠ 0 ∧ 2 ^ 64 ≤ r.offset.toNat + r.size.toNat

instance (r : Range) : Decidable r.Wraps := inferInstanceAs (Decidable (_ ∧ _))

lemma reachedCells_of_not_wraps {r : Range} (h : ¬ r.Wraps) :
    r.reachedCells content = r.cells content := by
  by_cases hsize : r.size = 0
  · rw [Range.reachedCells, Range.cells, hsize, add_zero, Nat.sub_self]
    rfl
  · have hlt : r.offset.toNat + r.size.toNat < 2 ^ 64 := by
      by_contra hge
      exact h ⟨hsize, not_lt.mp hge⟩
    rw [Range.reachedCells, Range.cells, toNat_add_of_lt hlt, Nat.add_sub_cancel_left]

lemma reachedCells_of_wraps {r : Range} (h : r.Wraps) : r.reachedCells content = [] := by
  have hsize := r.size.toNat_lt
  have hend : (r.offset + r.size).toNat ≤ r.offset.toNat := by
    have hge := h.2
    rw [UInt64.toNat_add]
    omega
  rw [Range.reachedCells, Nat.sub_eq_zero_of_le hend, slice_zero]

lemma batchRanges_spec (henv : env.Honest content) (hwindow : windowBytes ≠ 0)
    {ranges : List Range} (hd : Batched content d cells)
    (h : batchRanges env windowBytes batchBytesLimit batchOpsLimit ranges d = some (.ok (), d')) :
    Batched content d' (cells ++ ranges.flatMap (Range.reachedCells content)) := by
  induction ranges generalizing d cells with
  | nil =>
    cases h
    rw [flatMap_nil, append_nil]
    exact hd
  | cons r rest ih =>
    obtain ⟨_, hrange, h⟩ := exists_of_next h
    have hfuel : (r.offset + r.size).toNat - r.offset.toNat ≤
        (r.offset + r.size - r.offset).toNat := by
      rcases le_total r.offset.toNat (r.offset + r.size).toNat with hle | hle
      · rw [toNat_sub_of_le hle]
      · omega
    have hrest := ih (batchRange_spec henv hwindow hfuel hd hrange) h
    rw [append_assoc] at hrest
    exact hrest

end Loops

lemma direct_delivers (henv : env.Honest content) {ranges : List Range} {windowBytes : UInt64}
    {options : PumpDirectWriteOptions}
    (h : pumpRangesDirectWrite env ranges windowBytes options = some (.ok (), d)) :
    (written d.writes).Perm (ranges.flatMap (Range.reachedCells content)) := by
  obtain ⟨-, ⟨⟩⟩ | ⟨hwindow, h⟩ := ite_eq_iff.mp h
  obtain ⟨_, hranges, h⟩ := exists_of_next h
  have hstart : Batched content ({} : Direct) [] := ⟨.rfl, rfl, fun _ hop => nomatch hop⟩
  have hbatched := batchRanges_spec henv hwindow hstart hranges
  obtain ⟨hflushed, hops⟩ := hbatched.flush henv h
  have haccount := hflushed.account
  rw [hops, flatMap_nil, append_nil] at haccount
  exact haccount

end TensorCast.Pump
