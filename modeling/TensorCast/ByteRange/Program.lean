import TensorCast.ByteRange.Canonical

/-!
# Compiling a byte-range map into runs

A normalized map is compiled into runs: padding, one contiguous range of a source, or a strided run
that takes rows of equal length at a fixed stride.  Strided runs are found greedily; when the
configuration does not allow a candidate, its segments become contiguous runs.  The runs denote what
the map denotes.
-/

namespace TensorCast.ByteRange

open Core Lib ByteRangeSegment ByteRangeSegment List

/-! ## The code -/

/-- The options of byte mapping that compilation reads, with the defaults of the engine. -/
structure ByteMappingConfig where
  enableStridedExecution : Bool := true
  programCacheEntries : UInt32 := 256
  stridedRunMinRanges : UInt32 := 128
  stridedMinRowLenBytes : UInt64 := 4096
  stridedMaxAmplification : UInt32 := 8
  stridedBlockTargetBytes : UInt64 := 16 * 1024 * 1024
  stridedBlockMaxBytes : UInt64 := 64 * 1024 * 1024
deriving DecidableEq, Repr

inductive RunKind
  | pad
  | contiguous
  | strided
deriving DecidableEq, Repr

/-- A run of the program over the destination bytes from `dstBegin` up to `dstEnd`. -/
structure ByteRangeRun where
  kind : RunKind := .pad
  dstBegin : UInt64 := 0
  dstEnd : UInt64 := 0
  sourceIndex : UInt32 := 0
  srcBegin : UInt64 := 0
  srcBase : UInt64 := 0
  rowLen : UInt64 := 0
  stride : UInt64 := 0
  rows : UInt64 := 0
  rowsPerBlock : UInt64 := 0
deriving DecidableEq, Repr

/-- For the rows of a strided run and for the windows of the source-ordered scheduler. -/
def amplificationWithinLimit (stride rowLen : UInt64) (maxAmplification : UInt32) : Bool :=
  if rowLen = 0 ∨ maxAmplification = 0 then false
  else if (UInt64.ofNat (2 ^ 64 - 1)) / maxAmplification.toUInt64 < rowLen then false
  else stride ≤ maxAmplification.toUInt64 * rowLen

def shouldEnableStrided (run : ByteRangeRun) (cfg : ByteMappingConfig) : Bool :=
  if run.rows < cfg.stridedRunMinRanges.toUInt64 then false
  else if run.rowLen < cfg.stridedMinRowLenBytes then false
  else if cfg.stridedBlockMaxBytes < run.rowLen then false
  else amplificationWithinLimit run.stride run.rowLen cfg.stridedMaxAmplification

def computeRowsPerBlock (run : ByteRangeRun) (cfg : ByteMappingConfig) : UInt64 :=
  if run.stride = 0 then 1
  else
    let rowsPerBlock := cfg.stridedBlockTargetBytes / run.stride
    let rowsPerBlock := if rowsPerBlock = 0 then 1 else rowsPerBlock
    let maxRows :=
      if run.rowLen < cfg.stridedBlockMaxBytes then
        1 + (cfg.stridedBlockMaxBytes - run.rowLen) / run.stride
      else 1
    let rowsPerBlock := if maxRows < rowsPerBlock then maxRows else rowsPerBlock
    max rowsPerBlock 1

/-- The end of the padding run that reaches `dstEnd` so far, and the segments after it. -/
def padRunEnd : UInt64 → List ByteRangeSegment → UInt64 × List ByteRangeSegment
  | dstEnd, [] => (dstEnd, [])
  | dstEnd, next :: rest =>
    if next.kind ≠ .pad ∨ next.length = 0 ∨ next.dstOffset ≠ dstEnd then (dstEnd, next :: rest)
    else padRunEnd (dstEnd + next.length) rest

def contiguousRunEnd (sourceIndex : UInt32) :
    UInt64 → UInt64 → List ByteRangeSegment → UInt64 × List ByteRangeSegment
  | dstEnd, _, [] => (dstEnd, [])
  | dstEnd, srcEnd, next :: rest =>
    if next.kind ≠ .data ∨ next.sourceIndex ≠ sourceIndex ∨ next.dstOffset ≠ dstEnd ∨
        next.srcOffset ≠ srcEnd then (dstEnd, next :: rest)
    else contiguousRunEnd sourceIndex (dstEnd + next.length) (srcEnd + next.length) rest

def stridedRows (sourceIndex : UInt32) (rowLen stride : UInt64) :
    UInt64 → UInt64 → List ByteRangeSegment → List ByteRangeSegment × List ByteRangeSegment
  | _, _, [] => ([], [])
  | expectedDst, expectedSrc, current :: rest =>
    if current.kind ≠ .data ∨ current.sourceIndex ≠ sourceIndex ∨ current.length ≠ rowLen ∨
        current.dstOffset ≠ expectedDst ∨ current.srcOffset ≠ expectedSrc then
      ([], current :: rest)
    else
      let (pieces, after) :=
        stridedRows sourceIndex rowLen stride (expectedDst + rowLen) (expectedSrc + stride) rest
      (current :: pieces, after)

def stridedCandidate (seg : ByteRangeSegment) (rest : List ByteRangeSegment) : Option UInt64 :=
  match rest with
  | [] => none
  | next :: _ =>
    if next.kind = .data ∧ next.sourceIndex = seg.sourceIndex ∧ next.length = seg.length ∧
        next.dstOffset = seg.dstOffset + seg.length ∧ seg.srcOffset < next.srcOffset ∧
        seg.length < next.srcOffset - seg.srcOffset then
      some (next.srcOffset - seg.srcOffset)
    else none

/-- The run of a segment that could not be made part of a strided run. -/
def fallbackRun (piece : ByteRangeSegment) : ByteRangeRun :=
  { kind := .contiguous, dstBegin := piece.dstOffset, dstEnd := piece.dstOffset + piece.length,
    sourceIndex := piece.sourceIndex, srcBegin := piece.srcOffset }

/-- The run of a strided candidate, its block size still to be chosen. -/
def stridedRun (seg : ByteRangeSegment) (stride rows : UInt64) : ByteRangeRun :=
  { kind := .strided, dstBegin := seg.dstOffset, dstEnd := seg.dstOffset + seg.length * rows,
    sourceIndex := seg.sourceIndex, srcBase := seg.srcOffset, rowLen := seg.length,
    stride := stride, rows := rows }

/-- What the compilation loop has built so far. -/
structure Emitted where
  runs : List ByteRangeRun := []
  stridedCandidateRuns : UInt64 := 0
  stridedCompileFallbackRuns : UInt64 := 0
  hasStridedRuns : Bool := false
deriving DecidableEq, Repr

/-- One round at a nonempty segment: what it adds, and the segments it leaves. -/
def compileRound (cfg : ByteMappingConfig) (seg : ByteRangeSegment)
    (rest : List ByteRangeSegment) (out : Emitted) : Emitted × List ByteRangeSegment :=
  match seg.kind with
  | .pad =>
    let (dstEnd, after) := padRunEnd (seg.dstOffset + seg.length) rest
    let run : ByteRangeRun := { kind := .pad, dstBegin := seg.dstOffset, dstEnd := dstEnd }
    ({ out with runs := out.runs ++ [run] }, after)
  | .data =>
    match stridedCandidate seg rest with
    | some stride =>
      let (pieces, after) := stridedRows seg.sourceIndex seg.length stride seg.dstOffset
        seg.srcOffset (seg :: rest)
      let run := stridedRun seg stride (UInt64.ofNat pieces.length)
      let candidates := out.stridedCandidateRuns + 1
      if cfg.enableStridedExecution && shouldEnableStrided run cfg then
        ({ out with
            runs := out.runs ++ [{ run with rowsPerBlock := computeRowsPerBlock run cfg }]
            stridedCandidateRuns := candidates
            hasStridedRuns := true }, after)
      else
        ({ out with
            runs := out.runs ++ pieces.map fallbackRun
            stridedCandidateRuns := candidates
            stridedCompileFallbackRuns := out.stridedCompileFallbackRuns + 1 }, after)
    | none =>
      let (dstEnd, after) := contiguousRunEnd seg.sourceIndex (seg.dstOffset + seg.length)
        (seg.srcOffset + seg.length) rest
      let run : ByteRangeRun :=
        { kind := .contiguous, dstBegin := seg.dstOffset, dstEnd := dstEnd,
          sourceIndex := seg.sourceIndex, srcBegin := seg.srcOffset }
      ({ out with runs := out.runs ++ [run] }, after)

/-- A round consumes at least one segment, so their number is enough fuel. -/
def compileLoop (cfg : ByteMappingConfig) : ℕ → List ByteRangeSegment → Emitted → Emitted
  | 0, _, out => out
  | _ + 1, [], out => out
  | fuel + 1, seg :: rest, out =>
    if seg.length = 0 then compileLoop cfg fuel rest out
    else
      let (out, after) := compileRound cfg seg rest out
      compileLoop cfg fuel after out

/-- The runs of a normalized map. -/
def compileRuns (cfg : ByteMappingConfig) (segments : List ByteRangeSegment) : Emitted :=
  compileLoop cfg segments.length segments {}

/-! ## What a run denotes -/

namespace ByteRangeRun

/-- The destination interval of a run. -/
def extent : Extent ByteRangeRun where
  lo r := r.dstBegin.toNat
  hi r := r.dstEnd.toNat

@[simp] lemma extent_lo (r : ByteRangeRun) : extent.lo r = r.dstBegin.toNat := rfl

@[simp] lemma extent_hi (r : ByteRangeRun) : extent.hi r = r.dstEnd.toNat := rfl

def rowOffset (srcBase rowLen stride : UInt64) (i : ℕ) : UInt64 :=
  srcBase + UInt64.ofNat (i / rowLen.toNat) * stride + UInt64.ofNat (i % rowLen.toNat)

def cell (r : ByteRangeRun) (d : ℕ) : Cell :=
  let i := d - r.dstBegin.toNat
  match r.kind with
  | .pad => .pad
  | .contiguous => .data r.sourceIndex (r.srcBegin + UInt64.ofNat i)
  | .strided => .data r.sourceIndex (rowOffset r.srcBase r.rowLen r.stride i)

/-- What compilation guarantees of a strided run. -/
structure WellFormed (cfg : ByteMappingConfig) (r : ByteRangeRun) : Prop where
  two_le_rows : 2 ≤ r.rows.toNat
  rowLen_pos : 0 < r.rowLen.toNat
  rowLen_lt_stride : r.rowLen.toNat < r.stride.toNat
  dstEnd_eq : r.dstEnd.toNat = r.dstBegin.toNat + r.rowLen.toNat * r.rows.toNat
  rowsPerBlock_pos : 0 < r.rowsPerBlock.toNat
  block_le : (r.rowsPerBlock.toNat - 1) * r.stride.toNat + r.rowLen.toNat ≤
    cfg.stridedBlockMaxBytes.toNat

end ByteRangeRun

/-! ## Rows per block -/

lemma toNat_computeRowsPerBlock_pos (run : ByteRangeRun) (cfg : ByteMappingConfig) :
    0 < (computeRowsPerBlock run cfg).toNat := by
  unfold computeRowsPerBlock
  split
  · decide
  · simp only [UInt64.toNat_max]
    exact lt_of_lt_of_le (by decide : 0 < (1 : UInt64).toNat) (le_max_right _ _)

variable {run : ByteRangeRun} {cfg : ByteMappingConfig}

lemma computeRowsPerBlock_block_le
    (hrow : run.rowLen ≤ cfg.stridedBlockMaxBytes) (hstride : 1 < run.stride.toNat) :
    ((computeRowsPerBlock run cfg).toNat - 1) * run.stride.toNat + run.rowLen.toNat ≤
      cfg.stridedBlockMaxBytes.toNat := by
  have hrow' := UInt64.le_iff_toNat_le.mp hrow
  have hs0 : run.stride ≠ 0 := ne_zero_of_pos (by omega)
  generalize hr : cfg.stridedBlockTargetBytes / run.stride = target
  generalize hm : (if run.rowLen < cfg.stridedBlockMaxBytes then
    1 + (cfg.stridedBlockMaxBytes - run.rowLen) / run.stride else 1) = maxRows
  have hmax : (maxRows.toNat - 1) * run.stride.toNat + run.rowLen.toNat ≤
      cfg.stridedBlockMaxBytes.toNat := by
    rw [← hm]
    split
    · have hroom := toNat_sub_of_le hrow'
      generalize cfg.stridedBlockMaxBytes - run.rowLen = room at hroom ⊢
      -- a stride of two or more leaves room for the first row
      have hhalf : room.toNat / run.stride.toNat ≤ room.toNat / 2 :=
        Nat.div_le_div_left hstride (by decide)
      have hlt := room.toNat_lt
      have hone : (1 : UInt64).toNat = 1 := rfl
      rw [toNat_add_of_lt (by rw [UInt64.toNat_div]; omega), UInt64.toNat_div, hone,
        Nat.add_sub_cancel_left]
      have := Nat.div_mul_le_self room.toNat run.stride.toNat
      omega
    · simpa using hrow'
  have hle : (computeRowsPerBlock run cfg).toNat ≤ max maxRows.toNat 1 := by
    unfold computeRowsPerBlock
    simp only [hs0, if_false, hr, hm, UInt64.toNat_max]
    generalize (if target = 0 then 1 else target) = wanted
    have hcap : (if maxRows < wanted then maxRows else wanted).toNat ≤ maxRows.toNat := by
      split
      · exact le_rfl
      · rename_i h
        exact UInt64.le_iff_toNat_le.mp (UInt64.not_lt.mp h)
    have hone : (1 : UInt64).toNat = 1 := rfl
    omega
  calc ((computeRowsPerBlock run cfg).toNat - 1) * run.stride.toNat + run.rowLen.toNat
      ≤ (maxRows.toNat - 1) * run.stride.toNat + run.rowLen.toNat := by
        have : (computeRowsPerBlock run cfg).toNat - 1 ≤ maxRows.toNat - 1 := by omega
        exact Nat.add_le_add_right (Nat.mul_le_mul_right _ this) _
    _ ≤ cfg.stridedBlockMaxBytes.toNat := hmax

/-! ## The segments that a round consumes -/

/-- The loop leaves a tiling behind, and what it has walked over paints `f`. -/
def Walks (f : ℕ → Cell) (a : ℕ) (segs : List ByteRangeSegment) (b : ℕ)
    (after : List ByteRangeSegment) (c : ℕ) : Prop :=
  ∃ consumed, segs = consumed ++ after ∧
    Extent.Paints extent cell f a consumed c ∧
    extent.Tiled c after b

variable {f : ℕ → Cell} {segs : List ByteRangeSegment}

lemma Walks.nil {a b : ℕ} (h : extent.Tiled a segs b) : Walks f a segs b segs a :=
  ⟨[], rfl, Extent.Paints.nil a, h⟩

variable {s : ByteRangeSegment} {segs after : List ByteRangeSegment}

lemma Walks.cons {b c : ℕ} (hs : extent.lo s < extent.hi s)
    (hf : ∀ d, extent.Covers s d → s.cell d = f d) (h : Walks f (extent.hi s) segs b after c) :
    Walks f (extent.lo s) (s :: segs) b after c := by
  obtain ⟨consumed, rfl, hp, hrest⟩ := h
  exact ⟨s :: consumed, rfl, hp.cons hs hf, hrest⟩

variable {b : ℕ} {src rowLen stride : UInt64}

lemma toNat_segment_end (hb : b < 2 ^ 64) (h : extent.hi s ≤ b) :
    (s.dstOffset + s.length).toNat = extent.hi s :=
  toNat_add_of_lt (lt_of_le_of_lt h hb)

lemma padRunEnd_walks (hb : b < 2 ^ 64) :
    ∀ {dstEnd : UInt64}, extent.Tiled dstEnd.toNat segs b →
      Walks (fun _ => .pad) dstEnd.toNat segs b (padRunEnd dstEnd segs).2
        (padRunEnd dstEnd segs).1.toNat := by
  induction segs with
  | nil => intro dstEnd h; exact .nil h
  | cons next rest ih =>
    intro dstEnd h
    rw [padRunEnd]
    split_ifs with hstop
    · exact .nil h
    · simp only [not_or, not_not] at hstop
      obtain ⟨hk, -, hdst⟩ := hstop
      obtain ⟨-, hlt, hrest⟩ := h
      have hend := toNat_segment_end hb hrest.le
      rw [← hdst] at hlt ⊢
      rw [← hend] at hrest
      refine Walks.cons hlt (fun d _ => ?_) ?_
      · simp [cell, firstCell, hk, Cell.advance]
      · rw [← hend]
        exact ih hrest

lemma cell_eq_of_data (hk : s.kind = .data) (d : ℕ) :
    s.cell d = .data s.sourceIndex (s.srcOffset + UInt64.ofNat (d - s.dstOffset.toNat)) := by
  simp [cell, firstCell, hk, Cell.advance]

lemma ofNat_toNat_add (a : UInt64) (n : ℕ) : UInt64.ofNat (a.toNat + n) = a + UInt64.ofNat n := by
  rw [UInt64.ofNat_add, UInt64.ofNat_toNat]

/-- The contiguous loop, with the position `a` and source offset `src` where the run started. -/
lemma contiguousRunEnd_walks (a : ℕ) (idx : UInt32) (src : UInt64) (hb : b < 2 ^ 64) :
    ∀ {dstEnd srcEnd : UInt64}, a ≤ dstEnd.toNat → srcEnd = src + UInt64.ofNat (dstEnd.toNat - a) →
      extent.Tiled dstEnd.toNat segs b →
      Walks (fun d => .data idx (src + UInt64.ofNat (d - a))) dstEnd.toNat segs b
        (contiguousRunEnd idx dstEnd srcEnd segs).2
        (contiguousRunEnd idx dstEnd srcEnd segs).1.toNat := by
  induction segs with
  | nil => intro dstEnd srcEnd _ _ h; exact .nil h
  | cons next rest ih =>
    intro dstEnd srcEnd ha hsrc h
    rw [contiguousRunEnd]
    split_ifs with hstop
    · exact .nil h
    · simp only [not_or, not_not] at hstop
      obtain ⟨hk, _, hdst, hnsrc⟩ := hstop
      obtain ⟨-, hlt, hrest⟩ := h
      have hend := toNat_segment_end hb hrest.le
      rw [← hdst] at hlt ha hsrc ⊢
      rw [← hend] at hrest
      refine Walks.cons hlt (fun d hd => ?_) ?_
      · have h1 : next.dstOffset.toNat ≤ d := hd.1
        rw [cell_eq_of_data hk, hnsrc, hsrc, add_assoc, ← UInt64.ofNat_add]
        congr 3
        omega
      · rw [← hend]
        have hlen : (next.dstOffset + next.length).toNat - a =
            next.length.toNat + (next.dstOffset.toNat - a) := by
          rw [hend, extent_hi]
          omega
        refine ih (by rw [hend]; simp only [extent_hi]; omega) ?_ hrest
        rw [hlen, ofNat_toNat_add, hsrc, add_assoc, add_comm next.length]

lemma rowOffset_next {i : ℕ} (hpos : 0 < rowLen.toNat) (hi : rowLen.toNat ≤ i) :
    ByteRangeRun.rowOffset src rowLen stride i =
      ByteRangeRun.rowOffset (src + stride) rowLen stride (i - rowLen.toNat) := by
  have hdiv : i / rowLen.toNat = (i - rowLen.toNat) / rowLen.toNat + 1 :=
    Nat.div_eq_sub_div hpos hi
  have hmod : i % rowLen.toNat = (i - rowLen.toNat) % rowLen.toNat := Nat.mod_eq_sub_mod hi
  unfold ByteRangeRun.rowOffset
  rw [hdiv, hmod, UInt64.ofNat_add, add_mul, UInt64.ofNat_one, one_mul]
  congr 1
  rw [add_comm _ stride, add_assoc]

lemma rowOffset_first {i : ℕ} (hi : i < rowLen.toNat) :
    ByteRangeRun.rowOffset src rowLen stride i = src + UInt64.ofNat i := by
  unfold ByteRangeRun.rowOffset
  rw [Nat.div_eq_of_lt hi, Nat.mod_eq_of_lt hi]
  show src + 0 * stride + UInt64.ofNat i = src + UInt64.ofNat i
  rw [zero_mul, add_zero]

/-- What the row loop of a strided candidate finds. -/
structure RowsSpec (idx : UInt32) (rowLen stride src : UInt64) (a b : ℕ)
    (segs pieces after : List ByteRangeSegment) : Prop where
  split : segs = pieces ++ after
  data : ∀ s ∈ pieces, s.kind = .data
  paints : Extent.Paints extent cell
    (fun d => .data idx (ByteRangeRun.rowOffset src rowLen stride (d - a))) a pieces
    (a + rowLen.toNat * pieces.length)
  rest : extent.Tiled (a + rowLen.toNat * pieces.length) after b

lemma stridedRows_spec {idx : UInt32} {rowLen stride : UInt64} (hb : b < 2 ^ 64) :
    ∀ {dst : UInt64} (src : UInt64), extent.Tiled dst.toNat segs b →
      RowsSpec idx rowLen stride src dst.toNat b segs
        (stridedRows idx rowLen stride dst src segs).1
        (stridedRows idx rowLen stride dst src segs).2 := by
  induction segs with
  | nil => intro dst src h; exact ⟨rfl, by simp [stridedRows], Extent.Paints.nil _, h⟩
  | cons current rest ih =>
    intro dst src h
    rw [stridedRows]
    split_ifs with hstop
    · exact ⟨rfl, by simp, Extent.Paints.nil _, h⟩
    · simp only [not_or, not_not] at hstop
      obtain ⟨hk, hidx, hlen, hdst, hsrc⟩ := hstop
      obtain ⟨hlo, hlt, hrest⟩ := h
      have hend := toNat_segment_end hb hrest.le
      rw [hdst, hlen] at hend
      have hhi : extent.hi current = dst.toNat + rowLen.toNat := by
        rw [extent_hi, hdst, hlen]
      have hpos : 0 < rowLen.toNat := by omega
      rw [← hend] at hrest
      have hih := ih (src + stride) hrest
      generalize hr : stridedRows idx rowLen stride (dst + rowLen) (src + stride) rest = r at hih
      obtain ⟨pieces, _⟩ := r
      rw [hend, hhi] at hih
      have hcount : dst.toNat + rowLen.toNat + rowLen.toNat * pieces.length =
          dst.toNat + rowLen.toNat * (current :: pieces).length := by
        rw [length_cons, Nat.mul_succ]
        omega
      have hpaint := hih.paints.congr (g := fun d => .data idx
        (ByteRangeRun.rowOffset src rowLen stride (d - dst.toNat))) (by
          intro d h1 _
          rw [rowOffset_next hpos (by omega : rowLen.toNat ≤ d - dst.toNat), Nat.sub_sub])
      rw [hcount] at hpaint
      have hrest' := hih.rest
      rw [hcount] at hrest'
      refine ⟨by rw [cons_append, ← hih.split], ?_, ?_, hrest'⟩
      · exact forall_mem_cons.mpr ⟨hk, hih.data⟩
      · rw [← hhi] at hpaint
        have hcons := hpaint.cons (by rw [hlo]; exact hlt) (fun d hd => by
          have h2 := hd.2
          rw [cell_eq_of_data hk, hidx, hsrc, hdst, rowOffset_first (by omega)])
        rwa [hlo] at hcons

variable {seg : ByteRangeSegment} {rest : List ByteRangeSegment}

lemma two_le_length_stridedRows
    {stride : UInt64} (hk : seg.kind = .data) (h : stridedCandidate seg rest = some stride) :
    seg.length < stride ∧ 2 ≤ (stridedRows seg.sourceIndex seg.length stride seg.dstOffset
      seg.srcOffset (seg :: rest)).1.length := by
  cases rest with
  | nil => simp [stridedCandidate] at h
  | cons next rest =>
    simp only [stridedCandidate] at h
    split_ifs at h with hc
    obtain ⟨hnk, hidx, hlen, hdst, -, hlt⟩ := hc
    obtain rfl : next.srcOffset - seg.srcOffset = stride := Option.some.inj h
    refine ⟨hlt, ?_⟩
    rw [stridedRows, if_neg (by simp [hk]), stridedRows, if_neg (by simp [hnk, hidx, hlen, hdst])]
    simp

/-! ## One round -/

/-- A round on a tiling of `[a, b)` consumes the segments of `[a, c)` and emits runs that denote the
same bytes. -/
structure RoundSpec (cfg : ByteMappingConfig) (a b c : ℕ) (segs after : List ByteRangeSegment)
    (runs : List ByteRangeRun) : Prop where
  consumed : ∃ consumed f, segs = consumed ++ after ∧ consumed ≠ [] ∧
    Extent.Paints extent cell f a consumed c ∧
    Extent.Paints ByteRangeRun.extent ByteRangeRun.cell f a runs c
  rest : extent.Tiled c after b
  wellFormed : ∀ r ∈ runs, r.kind = .strided → r.WellFormed cfg

lemma paints_run {a c : ℕ} (hlo : ByteRangeRun.extent.lo run = a)
    (hhi : ByteRangeRun.extent.hi run = c) (hlt : a < c) (hf : ∀ d, run.cell d = f d) :
    Extent.Paints ByteRangeRun.extent ByteRangeRun.cell f a [run] c := by
  subst hlo hhi
  exact .singleton hlt fun d _ => hf d

lemma RoundSpec.of_walks {b c : ℕ} {rest after : List ByteRangeSegment}
    (hseg : extent.lo seg < extent.hi seg) (hf : ∀ d, extent.Covers seg d → seg.cell d = f d)
    (hwalk : Walks f (extent.hi seg) rest b after c)
    (hlo : ByteRangeRun.extent.lo run = extent.lo seg) (hhi : ByteRangeRun.extent.hi run = c)
    (hrun : ∀ d, run.cell d = f d) (hwf : run.kind = .strided → run.WellFormed cfg) :
    RoundSpec cfg (extent.lo seg) b c (seg :: rest) after [run] := by
  obtain ⟨consumed, rfl, hpaint, hrest⟩ := hwalk
  have hle := hpaint.tiled.le
  have hpaintRun := paints_run hlo hhi (by omega) hrun
  exact ⟨⟨seg :: consumed, f, rfl, by simp, hpaint.cons hseg hf, hpaintRun⟩, hrest,
    by simpa using hwf⟩

lemma paints_map_fallbackRun {a c : ℕ} {pieces : List ByteRangeSegment} (hc : c < 2 ^ 64)
    (hdata : ∀ s ∈ pieces, s.kind = .data) (h : Extent.Paints extent cell f a pieces c) :
    Extent.Paints ByteRangeRun.extent ByteRangeRun.cell f a (pieces.map fallbackRun) c := by
  refine h.map (fun s _ => rfl) (fun s hs => ?_) fun s hs d => ?_
  · exact toNat_segment_end hc (h.tiled.inside hs).2.2
  · rw [cell_eq_of_data (hdata s hs)]
    rfl

lemma shouldEnableStrided_rowLen_le
    (h : shouldEnableStrided run cfg = true) : run.rowLen ≤ cfg.stridedBlockMaxBytes := by
  unfold shouldEnableStrided at h
  split_ifs at h with h1 h2 h3
  exact UInt64.not_lt.mp h3

lemma toNat_stridedRun {stride : UInt64} {n : ℕ} (hpos : 0 < seg.length.toNat)
    (hlt : seg.dstOffset.toNat + seg.length.toNat * n < 2 ^ 64) :
    (stridedRun seg stride (UInt64.ofNat n)).rows.toNat = n ∧
      (stridedRun seg stride (UInt64.ofNat n)).dstEnd.toNat =
        seg.dstOffset.toNat + seg.length.toNat * n := by
  have hn : n ≤ seg.length.toNat * n := Nat.le_mul_of_pos_left _ hpos
  have hrows : (UInt64.ofNat n).toNat = n := by
    rw [UInt64.toNat_ofNat', Nat.mod_eq_of_lt (by omega)]
  have hmul : (seg.length * UInt64.ofNat n).toNat = seg.length.toNat * n := by
    rw [UInt64.toNat_mul, hrows, Nat.mod_eq_of_lt (by omega)]
  refine ⟨hrows, ?_⟩
  show (seg.dstOffset + seg.length * UInt64.ofNat n).toNat = _
  rw [toNat_add_of_lt (by omega), hmul]

lemma compileRound_spec (cfg : ByteMappingConfig) {a b : ℕ} (out : Emitted) (hb : b < 2 ^ 64)
    (h : extent.Tiled a (seg :: rest) b) :
    ∃ c runs, (compileRound cfg seg rest out).1.runs = out.runs ++ runs ∧
      RoundSpec cfg a b c (seg :: rest) (compileRound cfg seg rest out).2 runs := by
  have hall := h
  obtain ⟨rfl, hlt, hrest⟩ := h
  have hend := toNat_segment_end hb hrest.le
  have hrest' := hrest
  rw [← hend] at hrest'
  unfold compileRound
  cases hk : seg.kind with
  | pad =>
    have hwalk := padRunEnd_walks hb hrest'
    rw [hend] at hwalk
    generalize padRunEnd (seg.dstOffset + seg.length) rest = r at hwalk ⊢
    refine ⟨r.1.toNat, _, rfl, RoundSpec.of_walks hlt (fun d _ => ?_) hwalk rfl rfl
      (fun d => rfl) (by simp)⟩
    simp [cell, firstCell, hk, Cell.advance]
  | data =>
    cases hcand : stridedCandidate seg rest with
    | none =>
      have hwalk := contiguousRunEnd_walks seg.dstOffset.toNat seg.sourceIndex seg.srcOffset hb
        (by rw [hend, extent_hi]; omega)
        (by rw [hend, extent_hi, Nat.add_sub_cancel_left, UInt64.ofNat_toNat])
        hrest'
      rw [hend] at hwalk
      generalize contiguousRunEnd seg.sourceIndex (seg.dstOffset + seg.length)
        (seg.srcOffset + seg.length) rest = r at hwalk ⊢
      exact ⟨r.1.toNat, _, rfl, RoundSpec.of_walks hlt (fun d _ => cell_eq_of_data hk d) hwalk
        rfl rfl (fun d => rfl) (by simp)⟩
    | some stride =>
      obtain ⟨hstride, htwo⟩ := two_le_length_stridedRows hk hcand
      have hspec : RowsSpec seg.sourceIndex seg.length stride seg.srcOffset seg.dstOffset.toNat b
        (seg :: rest) _ _ := stridedRows_spec hb _ hall
      simp only
      generalize stridedRows seg.sourceIndex seg.length stride seg.dstOffset seg.srcOffset
        (seg :: rest) = r at hspec htwo ⊢
      obtain ⟨pieces, _⟩ := r
      have hle := hspec.rest.le
      have hne : pieces ≠ [] := by
        rintro rfl
        simp at htwo
      have hpos : 0 < seg.length.toNat := by
        rw [extent_lo, extent_hi] at hlt
        omega
      obtain ⟨hrows, hdst⟩ := toNat_stridedRun hpos (lt_of_le_of_lt hle hb)
      split
      · rename_i hen
        refine ⟨_, _, rfl, ⟨pieces, _, hspec.split, hne, hspec.paints, ?_⟩, hspec.rest, ?_⟩
        · have := mul_pos hpos (Nat.zero_lt_of_lt htwo)
          refine paints_run rfl hdst ?_ fun d => rfl
          rw [extent_lo]
          omega
        · simp only [mem_singleton, forall_eq]
          intro _
          rw [Bool.and_eq_true] at hen
          have hrowLen := shouldEnableStrided_rowLen_le hen.2
          have hstride' := UInt64.lt_iff_toNat_lt.mp hstride
          exact {
            two_le_rows := by rw [hrows]; exact htwo
            rowLen_pos := hpos
            rowLen_lt_stride := hstride'
            dstEnd_eq := by rw [hdst, hrows]; rfl
            rowsPerBlock_pos := toNat_computeRowsPerBlock_pos _ _
            block_le := computeRowsPerBlock_block_le hrowLen (by simp only [stridedRun]; omega) }
      · refine ⟨_, _, rfl, ⟨pieces, _, hspec.split, hne, hspec.paints, ?_⟩, hspec.rest, ?_⟩
        · exact paints_map_fallbackRun (by omega) hspec.data hspec.paints
        · intro r hr hstrided
          obtain ⟨s, -, rfl⟩ := mem_map.mp hr
          simp [fallbackRun] at hstrided

/-! ## The loop -/

structure CompileSpec (cfg : ByteMappingConfig) (a b : ℕ) (segs : List ByteRangeSegment)
    (runs : List ByteRangeRun) : Prop where
  tiled : ByteRangeRun.extent.Tiled a runs b
  denote_eq : ∀ d, ByteRangeRun.extent.denote ByteRangeRun.cell runs d =
    extent.denote cell segs d
  wellFormed : ∀ r ∈ runs, r.kind = .strided → r.WellFormed cfg

lemma RoundSpec.append {a b c : ℕ} {runs later : List ByteRangeRun}
    (h : RoundSpec cfg a b c segs after runs) (hrest : CompileSpec cfg c b after later) :
    CompileSpec cfg a b segs (runs ++ later) := by
  obtain ⟨⟨_, f, rfl, -, hsegs, hruns⟩, -, hwf⟩ := h
  refine ⟨Extent.tiled_append.mpr ⟨c, hruns.tiled, hrest.tiled⟩, fun d => ?_,
    forall_mem_append.mpr ⟨hwf, hrest.wellFormed⟩⟩
  rw [Extent.denote_append, Extent.denote_append, hruns.denote_eq hsegs d, hrest.denote_eq]

lemma compileLoop_spec (cfg : ByteMappingConfig) (hb : b < 2 ^ 64) {fuel a : ℕ}
    (hfuel : segs.length ≤ fuel) (h : extent.Tiled a segs b) (out : Emitted) :
    ∃ runs, (compileLoop cfg fuel segs out).runs = out.runs ++ runs ∧
      CompileSpec cfg a b segs runs := by
  induction fuel generalizing a segs out with
  | zero =>
    obtain rfl : segs = [] := eq_nil_of_length_eq_zero (Nat.le_zero.mp hfuel)
    exact ⟨[], by simp [compileLoop], h, fun d => rfl, by simp⟩
  | succ fuel ih =>
    cases segs with
    | nil => exact ⟨[], by simp [compileLoop], h, fun d => rfl, by simp⟩
    | cons seg rest =>
      have hpos := length_pos_iff.mp (h.inside mem_cons_self).2.1
      obtain ⟨c, runs, hruns, hround⟩ := compileRound_spec cfg out hb h
      rw [compileLoop, if_neg hpos]
      generalize compileRound cfg seg rest out = r at hruns hround
      obtain ⟨out', after⟩ := r
      simp only at hruns hround ⊢
      obtain ⟨consumed, -, hsplit, hne, -⟩ := hround.consumed
      have hlen : after.length ≤ fuel := by
        have h1 := congrArg List.length hsplit
        have h2 := length_pos_iff.mpr hne
        rw [length_append] at h1
        omega
      obtain ⟨later, hlater, hspec⟩ := ih hlen hround.rest out'
      exact ⟨runs ++ later, by rw [hlater, hruns, append_assoc], hround.append hspec⟩

/-- **Compilation refines the map**: the runs of a normalized map follow each other through the
destination, denote what its segments denote, and every strided run is well formed. -/
lemma compileRuns_spec (cfg : ByteMappingConfig) (hb : b < 2 ^ 64) (h : extent.Tiled 0 segs b) :
    CompileSpec cfg 0 b segs (compileRuns cfg segs).runs := by
  obtain ⟨runs, hruns, hspec⟩ := compileLoop_spec cfg hb le_rfl h {}
  rw [compileRuns, hruns]
  exact hspec

end TensorCast.ByteRange
