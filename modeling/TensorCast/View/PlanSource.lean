import TensorCast.Source.MappedRead
import TensorCast.ByteRange.Compose

/-!
# Views and the memory of their base

A view plan is a byte-range map into one base source, and `ViewPlanSource` is the source of the bytes
that the plan selects.  Its reads go through a mapped source over the base; its `cpu_base_ptr` is the
pointer of the base, a memory in the coordinates of the base.

A mapped source takes the pointer of one of its sources for that source's own bytes.  So a source that
has a pointer owes its users that the bytes behind it are those that its reads deliver.  A view keeps
this contract exactly when it selects every byte at the offset where the base has it, or the base has
no pointer.
-/

namespace TensorCast.View

open Core Lib ByteRange Source ByteRangeMappedSource UInt64 List Option Nat

/-! ## Sources with a memory -/

/-- `SafetensorsSource` over a shared segment of an open file: its data from `dataStart` on, mapped
into memory or read from the file. -/
def safetensorsSource (mappedBase : Option (ℕ → UInt8))
    (preadFully : ℕ → ℕ → UInt64 → StatusOr (List UInt8)) (dataStart dataSize : UInt64) :
    BaseSource where
  totalBytes := dataSize
  readAt tick offset bytes :=
    if dataSize ≤ offset then .ok []
    else
      let toRead := min bytes (dataSize - offset)
      match mappedBase with
      | some base => .ok (slice base (dataStart.toNat + offset.toNat) toRead.toNat)
      | none =>
        match preadFully tick (dataStart.toNat + offset.toNat) toRead with
        | .error status => .error status
        | .ok got =>
          if got.length ≠ toRead.toNat then
            .error (.dataLoss "SafetensorsSource short read before expected EOF")
          else .ok got
  cpuBasePtr := mappedBase.map fun base o => base (dataStart.toNat + o)

/-- A source that hands every call on, as `LocalReplicaSource` and `SharedSeekableSource` do. -/
def forwardingSource (source : BaseSource) : BaseSource where
  totalBytes := source.totalBytes
  readAt := source.readAt
  cpuBasePtr := source.cpuBasePtr

/-- The source holds `totalBytes` bytes of `memory`, serves every read inside them in full, and gives
out a pointer to them if it is `mapped`. -/
structure Backed (mapped : Bool) (totalBytes : UInt64) (memory : ℕ → UInt8) (source : BaseSource) :
    Prop where
  total : source.totalBytes = totalBytes
  exact : source.Exact memory
  complete : ∀ tick offset bytes, bytes ≠ 0 →
    offset.toNat + bytes.toNat ≤ source.totalBytes.toNat →
    ∃ data, source.readAt tick offset bytes = .ok data ∧ data.length = bytes.toNat
  pointer : source.cpuBasePtr = if mapped then some memory else none

lemma toNat_min_sub_of_le {offset bytes total : UInt64}
    (h : offset.toNat + bytes.toNat ≤ total.toNat) :
    (min bytes (total - offset)).toNat = bytes.toNat := by
  rw [toNat_min_sub _ (by omega)]
  omega

lemma backed_cpuMemorySource (memory : ℕ → UInt8) (totalSize : UInt64) :
    Backed true totalSize memory (cpuMemorySource memory totalSize) where
  total := rfl
  exact := exact_cpuMemorySource memory totalSize
  complete tick offset bytes h0 h := by
    change _ ≤ totalSize.toNat at h
    have hpos := toNat_pos h0
    have hlt : ¬ (totalSize ≤ offset ∨ bytes = 0) := by
      rw [le_iff_toNat_le]
      rintro (hle | h0')
      · omega
      · exact h0 h0'
    refine ⟨_, if_neg hlt, ?_⟩
    rw [length_slice, toNat_min_sub_of_le h]
  pointer := rfl

lemma backed_safetensorsSource (base : ℕ → UInt8)
    (preadFully : ℕ → ℕ → UInt64 → StatusOr (List UInt8)) (dataStart dataSize : UInt64) :
    Backed true dataSize (fun o => base (dataStart.toNat + o))
      (safetensorsSource (some base) preadFully dataStart dataSize) where
  total := rfl
  exact := by
    refine BaseSource.exact_of_cut (fun base h => (some.inj h).symm) ?_
    intro tick offset bytes data h
    simp only [safetensorsSource] at h
    split_ifs at h with hle
    · exact .inl (Except.ok.inj h).symm
    · refine .inr ⟨hle, ?_⟩
      rw [← Except.ok.inj h]
      refine eq_slice_of_getElem? length_slice fun k hk => (getElem?_slice hk).trans ?_
      rw [add_assoc]
  complete tick offset bytes h0 h := by
    change _ ≤ dataSize.toNat at h
    have hpos := toNat_pos h0
    have hlt : ¬ dataSize ≤ offset := by
      rw [le_iff_toNat_le]
      omega
    refine ⟨_, if_neg hlt, ?_⟩
    rw [length_slice, toNat_min_sub_of_le h]
  pointer := rfl

lemma Backed.forwardingSource {mapped : Bool} {totalBytes : UInt64} {memory : ℕ → UInt8}
    {source : BaseSource} (h : Backed mapped totalBytes memory source) :
    Backed mapped totalBytes memory (forwardingSource source) := h

/-! ## Reads of one byte

Without memory for blocks a read of one byte comes down to one read of the base, so over a base
that serves every read it succeeds. -/

section OneByte

variable {m : ByteRangeMappedSource} {run : ByteRangeRun} {config : ByteMappingConfig}

/-- Every origin lies inside the source that it names, and that source serves it. -/
def ServesByte (m : ByteRangeMappedSource) : Cell → Prop
  | .pad => True
  | .data sourceIndex offset => ∃ source, m.sources[sourceIndex.toNat]? = some source ∧
      ∀ tick, ∃ byte, source.readAt tick offset 1 = .ok [byte]

lemma readBase_one {sourceIndex : UInt32} {offset : UInt64}
    (h : ServesByte m (.data sourceIndex offset)) (s : ReadState) :
    ∃ byte, m.readBase sourceIndex offset 1 s = (.ok [byte], s.next) := by
  obtain ⟨_, hsource, hread⟩ := h
  obtain ⟨byte, hbyte⟩ := hread s.tick
  refine ⟨byte, ?_⟩
  rw [readBase, hsource]
  simp only [hbyte]
  rfl

variable {runOffset : UInt64}

lemma loadRows_exhausted (halloc : ∀ tick n, m.allocates tick n = false)
    (hwf : run.WellFormed config) {runIndex : ℕ} {firstRow : UInt64} {fuel : ℕ} :
    ∀ {blockRows : UInt64} {s : ReadState}, s.block = none →
      blockRows.toNat ≤ run.rowsPerBlock.toNat →
      ∃ s', m.loadRows runIndex run firstRow fuel blockRows s =
        (.error (.resourceExhausted "unable to allocate strided block buffer"), s') := by
  induction fuel with
  | zero => exact fun _ _ => ⟨_, rfl⟩
  | succ fuel ih =>
    intro blockRows s hblock hle
    have hhalf : (blockRows / 2).toNat ≤ run.rowsPerBlock.toNat := by
      exact (div_le_self _ _).trans hle
    rw [loadRows]
    by_cases h0 : blockRows = 0
    · exact ⟨s, if_pos h0⟩
    rw [if_neg h0]
    simp only
    split
    · exact ih hblock hhalf
    · have hfit : blockLen run blockRows.toNat < 2 ^ 64 :=
        lt_of_le_of_lt ((blockLen_mono run hle).trans hwf.block_le)
          config.stridedBlockMaxBytes.toNat_lt
      have hbytes := toNat_blockBytes h0 hfit
      have hneeded : 0 < (blockRows - 1) * run.stride + run.rowLen := by
        have := hwf.rowLen_pos
        rw [lt_iff_toNat_lt, UInt64.toNat_zero, hbytes, blockLen]
        omega
      rw [hblock, if_pos ⟨hneeded, halloc _ _⟩]
      exact ih rfl hhalf

section

variable (hwf : run.WellFormed config) (hin : runOffset.toNat < run.rowLen.toNat * run.rows.toNat)
  (h : ServesByte m (.data run.sourceIndex
    (ByteRangeRun.rowOffset run.srcBase run.rowLen run.stride runOffset.toNat)))

include hwf hin h

lemma copyFromStridedRows_one (s : ReadState) :
    ∃ byte, m.copyFromStridedRows run runOffset 1 s = (.ok [byte], s.next) := by
  obtain ⟨_, hsource, hread⟩ := h
  obtain ⟨byte, hbyte⟩ := hread s.tick
  have hpos := hwf.rowLen_pos
  have hrow : (runOffset / run.rowLen).toNat < run.rows.toNat := by
    exact Nat.div_lt_of_lt_mul hin
  have hmod : (runOffset % run.rowLen).toNat < run.rowLen.toNat := by
    exact Nat.mod_lt _ hpos
  have hone : min 1 (run.rowLen - runOffset % run.rowLen) = 1 :=
    UInt64.toNat_inj.mp (toNat_min_sub_of_le hmod)
  have hoffset : run.srcBase + runOffset / run.rowLen * run.stride + runOffset % run.rowLen =
      ByteRangeRun.rowOffset run.srcBase run.rowLen run.stride runOffset.toNat := by
    rw [ByteRangeRun.rowOffset, ← UInt64.toNat_div, ← UInt64.toNat_mod, UInt64.ofNat_toNat,
      UInt64.ofNat_toNat]
  have hstop : ¬ ((1 : UInt64) = 0 ∨ run.rows ≤ runOffset / run.rowLen) := by
    rw [le_iff_toNat_le]
    rintro (h | h)
    · exact absurd h (by decide)
    · omega
  refine ⟨byte, ?_⟩
  rw [copyFromStridedRows, hsource]
  simp only
  rw [if_neg (ne_zero_of_pos hpos), show (1 : UInt64).toNat = 0 + 1 from rfl, copyRows,
    if_neg hstop]
  simp only [hone, hoffset, readRow, hbyte]
  rfl

variable {s : ReadState} (halloc : ∀ tick n, m.allocates tick n = false)
  (hgather : 1 < m.options.directGatherMinTotalBytes)

include halloc hgather

lemma fillStridedRun_one {runIndex : ℕ} (fuel : ℕ) (hblock : s.block = none) :
    ∃ byte s', m.fillStridedRun (fuel + 1) runIndex run runOffset 1 s = some (.ok [byte], s') := by
  have hcopy := copyFromStridedRows_one hwf hin h
  have hrow : (runOffset / run.rowLen).toNat < run.rows.toNat := by
    exact Nat.div_lt_of_lt_mul hin
  obtain ⟨hmax, -, _⟩ := firstRow_facts hwf hrow
  -- the loop over blocks falls back to the row copy in its first round
  have hblocks : ∃ byte s',
      m.fillBlocks runIndex run (fuel + 1) runOffset 1 s = some (.ok [byte], s') := by
    have hload : ∃ s', m.loadBlock runIndex run (runOffset / run.rowLen) s =
        (.error (.resourceExhausted "unable to allocate strided block buffer"), s') := by
      rw [loadBlock]
      simp only [hblock, hmax]
      exact loadRows_exhausted halloc hwf hblock (by omega)
    obtain ⟨s₁, hload⟩ := hload
    obtain ⟨byte, hbyte⟩ := hcopy { s₁ with disabled := runIndex :: s₁.disabled }
    refine ⟨byte, ReadState.next { s₁ with disabled := runIndex :: s₁.disabled }, ?_⟩
    rw [fillBlocks, if_neg (by decide)]
    rw [if_neg (by rw [le_iff_toNat_le]; omega), hload]
    exact (if_pos rfl).trans (congrArg some hbyte)
  have hcandidate : ¬ m.directGatherCandidate run runOffset 1 := by
    rintro ⟨-, -, hle, -⟩
    exact UInt64.not_le.mpr hgather hle
  obtain ⟨byte, hbyte⟩ := hcopy s
  obtain ⟨source, hsource, -⟩ := h
  have hvalid : ¬ (run.rowLen = 0 ∨ run.rows = 0) :=
    not_or.mpr ⟨ne_zero_of_pos hwf.rowLen_pos, ne_zero_of_pos (by have := hwf.two_le_rows; omega)⟩
  rw [fillStridedRun, if_neg (by decide)]
  by_cases hstrided : m.program.hasStridedRuns = false
  · exact ⟨byte, _, by rw [if_pos hstrided, hbyte]⟩
  by_cases hdisabled : runIndex ∈ s.disabled
  · exact ⟨byte, _, by rw [if_neg hstrided, if_pos hdisabled, hbyte]⟩
  rw [if_neg hstrided, if_neg hdisabled, if_neg hvalid, hsource]
  simp only
  cases source.cpuBasePtr with
  | none => exact hblocks
  | some base =>
    simp only
    rw [if_neg hcandidate]
    exact hblocks

end

section

variable {s : ReadState} (halloc : ∀ tick n, m.allocates tick n = false)
  (hgather : 1 < m.options.directGatherMinTotalBytes)

include halloc hgather

lemma readRun_one (hwf : run.kind = .strided → run.WellFormed config) (runIndex : ℕ)
    (hin : run.dstBegin.toNat + runOffset.toNat < run.dstEnd.toNat)
    (h : ServesByte m (run.cell (run.dstBegin.toNat + runOffset.toNat)))
    (fuel : ℕ) (hblock : s.block = none) :
    ∃ byte s', m.readRun (fuel + 1) runIndex run runOffset 1 s = some (.ok [byte], s') := by
  simp only [ByteRangeRun.cell, Nat.add_sub_cancel_left] at h
  unfold readRun
  cases hk : run.kind with
  | pad => exact ⟨0, s, rfl⟩
  | contiguous =>
    rw [hk] at h
    simp only [UInt64.ofNat_toNat] at h
    obtain ⟨byte, hbyte⟩ := readBase_one h s
    exact ⟨byte, s.next, by simp only [hbyte]⟩
  | strided =>
    rw [hk] at h
    have hend := (hwf hk).dstEnd_eq
    exact fillStridedRun_one (hwf hk) (by omega) h halloc hgather fuel hblock

lemma readAt_one {map : ByteRangeMap} (href : m.program.Refines config map)
    {offset : UInt64} (hlt : offset.toNat < map.totalBytes.toNat)
    (h : ∀ c, map.denote offset.toNat = some c → ServesByte m c) (fuel : ℕ)
    (hblock : s.block = none) :
    ∃ byte s', m.readAt (fuel + 1) offset 1 s = some (.ok [byte], s') := by
  obtain ⟨pre, run, post, hsplit, hidx, hcov, -, -⟩ := findRunIndex_split href hlt
  have hmem : run ∈ m.program.runs := by simp [hsplit]
  have hdrop : m.program.runs.drop pre.length = run :: post := by
    rw [hsplit, drop_left]
  obtain ⟨hlo, hhi⟩ := hcov
  rw [ByteRangeRun.extent_lo] at hlo
  rw [ByteRangeRun.extent_hi] at hhi
  have hoff : (offset - run.dstBegin).toNat = offset.toNat - run.dstBegin.toNat :=
    toNat_sub_of_le hlo
  have hpos : run.dstBegin.toNat + (offset - run.dstBegin).toNat = offset.toNat := by omega
  have hcell : map.denote offset.toNat = some (run.cell offset.toNat) := by
    rw [← href.denote_eq]
    exact href.tiled.denote_of_mem hmem ⟨hlo, hhi⟩
  obtain ⟨byte, s₁, hread⟩ := readRun_one halloc hgather (href.wellFormed run hmem) pre.length
    (by rw [hpos]; exact hhi) (by rw [hpos]; exact h _ hcell) fuel hblock
  have hmin : ∀ e : UInt64, offset.toNat < e.toNat → min 1 (e - offset) = 1 := fun e he =>
    UInt64.toNat_inj.mp (toNat_min_sub_of_le he)
  refine ⟨byte, s₁, ?_⟩
  rw [readAt, href.totalBytes, if_neg (by
    rw [le_iff_toNat_le]
    rintro (h | h)
    · omega
    · exact absurd h (by decide)), hidx, hdrop]
  simp only [hmin _ hlt]
  rw [readRuns, if_neg (by decide),
    if_neg (by rw [le_iff_toNat_le]; omega),
    if_neg (by rw [lt_iff_toNat_lt]; omega)]
  simp only [hmin _ hhi, hread]
  rw [length_singleton, show (1 : UInt64) - ofNat 1 = 0 from rfl, readRuns_zero]
  rfl

end

end OneByte

/-! ## The view -/

structure ViewPlanSource where
  base : BaseSource
  mappedSource : ByteRangeMappedSource
  totalBytes : UInt64

/-- The constructor aborts the process on an error.  The program comes from the shared cache. -/
def viewPlanSource (sha256 : Sha256) (config : ByteMappingConfig) (cache : ByteRangeProgramCache)
    (map : ByteRangeMap) (base : BaseSource) (allocates : ℕ → UInt64 → Bool) :
    StatusOr ViewPlanSource := do
  let program ← (compile sha256 config cache map).1
  let mapped ← create map program [base] {} allocates
  .ok { base := base, mappedSource := mapped, totalBytes := map.totalBytes }

namespace ViewPlanSource

def readAt (v : ViewPlanSource) (fuel : ℕ) (offset bytes : UInt64) (s : ReadState) :
    Option (StatusOr (List UInt8) × ReadState) :=
  v.mappedSource.readAt fuel offset bytes s

def cpuBasePtr (v : ViewPlanSource) : Option (ℕ → UInt8) := v.base.cpuBasePtr

/-- At some point of some sequence of calls, a read of the view delivers `data`. -/
def Reads (v : ViewPlanSource) (offset bytes : UInt64) (data : List UInt8) : Prop :=
  v.mappedSource.Reads offset bytes data

/-- What a read delivers is what the view delivers at some point, and the pointer is the view's. -/
structure Presents (v : ViewPlanSource) (source : BaseSource) : Prop where
  totalBytes : source.totalBytes = v.totalBytes
  cpuBasePtr : source.cpuBasePtr = v.cpuBasePtr
  reads : ∀ tick offset bytes data, source.readAt tick offset bytes = .ok data →
    v.Reads offset bytes data

structure PointerContract (v : ViewPlanSource) (content : ℕ → UInt8) : Prop where
  /-- The byte behind the pointer is the byte that a read of one byte delivers. -/
  pointer : ∀ p, v.cpuBasePtr = some p → ∀ o data, o < v.totalBytes → v.Reads o 1 data →
    data = [p o.toNat]
  /-- A mapped source over the view delivers the bytes of the view, on every path. -/
  mapped : ∀ source, v.Presents source →
    ∀ (config : ByteMappingConfig) (map : ByteRangeMap) (program : ByteRangeProgram)
      (options : Options) (allocates : ℕ → UInt64 → Bool) (m : ByteRangeMappedSource),
    program.Refines config map → create map program [source] options allocates = .ok m →
    ∀ (fuel : ℕ) (calls : List (UInt64 × UInt64)) (i : ℕ) (data : List UInt8),
      (m.readAtCalls fuel calls {})[i]? = some (.ok data) →
      ∃ offset bytes, calls[i]? = some (offset, bytes) ∧
        data = slice (denotedByte (fun _ => content) map.denote) offset.toNat
          (min bytes.toNat (map.totalBytes.toNat - offset.toNat))

end ViewPlanSource

/-- Every byte of the view is the byte of the base at the same offset. -/
def SelectsInPlace (map : ByteRangeMap) : Prop :=
  ∀ o < map.totalBytes.toNat, map.denote o = some (.data 0 (UInt64.ofNat o))

section View

variable {sha256 : Sha256} {config : ByteMappingConfig} {cache : ByteRangeProgramCache}
  {map : ByteRangeMap} {base : BaseSource} {allocates : ℕ → UInt64 → Bool} {v : ViewPlanSource}

abbrev viewOf (map : ByteRangeMap) (program : ByteRangeProgram) (base : BaseSource)
    (allocates : ℕ → UInt64 → Bool) : ViewPlanSource :=
  { base := base, totalBytes := map.totalBytes
    mappedSource :=
      { program := program, sources := [base], options := {}, allocates := allocates } }

lemma viewPlanSource_eq_ok (h : viewPlanSource sha256 config cache map base allocates = .ok v) :
    ∃ program, (compile sha256 config cache map).1 = .ok program ∧
      map.numSources.toNat ≤ 1 ∧ validateSources [base] map.segments = .ok () ∧
      v = viewOf map program base allocates := by
  rw [viewPlanSource, bind_eq_ok] at h
  obtain ⟨program, hcompile, h⟩ := h
  rw [bind_eq_ok] at h
  obtain ⟨_, hcreate, h⟩ := h
  obtain ⟨hnum, hvalid⟩ := valid_of_create hcreate
  obtain rfl := create_eq_ok hcreate
  exact ⟨program, hcompile, hnum, hvalid, (Except.ok.inj h).symm⟩

variable {program : ByteRangeProgram}

section

variable {memory : ℕ → UInt8} (hex : base.Exact memory) (href : program.Refines config map)

include hex href

lemma eq_slice_of_view_reads {offset bytes : UInt64} {data : List UInt8}
    (h : (viewOf map program base allocates).Reads offset bytes data) :
    data = slice (denotedByte (fun _ => memory) map.denote) offset.toNat
      (min bytes.toNat (map.totalBytes.toNat - offset.toNat)) := by
  have hsources : ExactSources [base] fun _ => memory := exactSources_singleton hex
  exact eq_slice_of_reads hsources href h

lemma pointerContract_of_pointer (hptr : ∀ p, base.cpuBasePtr = some p → ∀ o < map.totalBytes.toNat,
      p o = denotedByte (fun _ => memory) map.denote o) :
    (viewOf map program base allocates).PointerContract
      (denotedByte (fun _ => memory) map.denote) where
  pointer p hp o data ho hreads := by
    have hlt : o.toNat < map.totalBytes.toNat := lt_iff_toNat_lt.mp ho
    have hone : min (1 : UInt64).toNat (map.totalBytes.toNat - o.toNat) = 1 := by
      rw [toNat_one]
      omega
    rw [eq_slice_of_view_reads hex href hreads, hone, hptr p hp o.toNat hlt]
    rfl
  mapped source hpres config' map' program' options' allocates' m href' hcreate fuel calls i data
      hread := by
    -- the view is an exact source of the bytes that its plan selects
    have hsource : source.Exact (denotedByte (fun _ => memory) map.denote) := by
      refine ⟨fun tick offset bytes data h hne => ?_, fun tick offset bytes data h => ?_,
        fun p hp o ho => ?_⟩
      · have hdata := eq_slice_of_view_reads hex href (hpres.reads _ _ _ _ h)
        have hlen : 0 < data.length := length_pos_iff.mpr hne
        rw [hpres.totalBytes]
        rw [hdata, length_slice] at hlen ⊢
        show _ ≤ map.totalBytes.toNat
        omega
      · have hdata := eq_slice_of_view_reads hex href (hpres.reads _ _ _ _ h)
        rw [hdata, length_slice]
      · rw [hpres.cpuBasePtr] at hp
        rw [hpres.totalBytes] at ho
        exact hptr p hp o ho
    obtain rfl := create_eq_ok hcreate
    exact (readAtCalls_spec (exactSources_singleton hsource) href' fuel calls (cacheOk_of_none rfl)).1 i
      data hread

end

/-- A byte that the plan takes from the base lies inside it. -/
lemma inside_of_denote (hvalid : validateSources [base] map.segments = .ok ()) {d : ℕ}
    {idx : UInt32} {offset : UInt64} (h : map.denote d = some (.data idx offset)) :
    idx = 0 ∧ offset.toNat < base.totalBytes.toNat := by
  obtain ⟨seg, hmem, hcov, hcell⟩ := Extent.exists_mem_of_denote_eq_some h
  cases hk : seg.kind with
  | pad => simp [ByteRangeSegment.cell, ByteRangeSegment.firstCell, hk, Cell.advance] at hcell
  | data =>
    rw [cell_eq_of_data hk] at hcell
    obtain ⟨rfl, rfl⟩ := Cell.data.inj hcell
    obtain ⟨_, hsource, _⟩ := inside_of_validateSources hvalid hmem hk
    have hidx : seg.sourceIndex.toNat = 0 := by
      by_contra hne
      obtain ⟨n, hn⟩ := exists_eq_succ_of_ne_zero hne
      rw [hn] at hsource
      simp at hsource
    rw [hidx] at hsource
    cases hsource
    refine ⟨UInt32.toNat_inj.mp hidx, ?_⟩
    obtain ⟨hlo, hhi⟩ := hcov
    rw [ByteRangeSegment.extent_lo] at hlo
    rw [ByteRangeSegment.extent_hi] at hhi
    have := base.totalBytes.toNat_lt
    rw [toNat_add_ofNat (by omega)]
    omega

lemma validateSources_congr {base' : BaseSource} (h : base.totalBytes = base'.totalBytes)
    (segs : List ByteRangeSegment) :
    validateSources [base] segs = validateSources [base'] segs := by
  induction segs with
  | nil => rfl
  | cons seg rest ih =>
    rw [validateSources, validateSources, ih]
    cases seg.kind with
    | pad => rfl
    | data =>
      cases seg.sourceIndex.toNat with
      | zero =>
        simp only [getElem?_cons_zero]
        rw [h]
      | succ n => simp

lemma viewPlanSource_of_valid (allocates : ℕ → UInt64 → Bool)
    (hcompile : (compile sha256 config cache map).1 = .ok program)
    (htotal : map.totalBytes = program.totalBytes) (hnum : map.numSources.toNat ≤ 1)
    (hvalid : validateSources [base] map.segments = .ok ()) :
    viewPlanSource sha256 config cache map base allocates =
      .ok (viewOf map program base allocates) := by
  have hcreate := create_of_valid {} allocates htotal (show _ ≤ [base].length from hnum) hvalid
  rw [viewPlanSource, hcompile, ok_bind, hcreate, ok_bind]

/-- A view whose pointer may be taken for its own bytes, whatever the memory holds, selects every
byte in place: a byte that it took from elsewhere, or padded, could differ. -/
lemma selectsInPlace_of_pointer {totalBytes : UInt64} {base : (ℕ → UInt8) → BaseSource}
    (hbase : ∀ memory, Backed true totalBytes memory (base memory))
    (href : program.Refines config map)
    (hvalid : ∀ memory, validateSources [base memory] map.segments = .ok ())
    (h : ∀ (memory : ℕ → UInt8) o data, o < map.totalBytes →
      (viewOf map program (base memory) fun _ _ => false).Reads o 1 data →
      data = [memory o.toNat]) :
    SelectsInPlace map := by
  intro o ho
  -- what the view delivers at `o` is the byte of the memory at `o`, for every memory
  have hbyte : ∀ memory, memory o = denotedByte (fun _ => memory) map.denote o := by
    intro memory
    have hoff : (ofNat o).toNat = o :=
      toNat_ofNat_of_lt' (ho.trans map.totalBytes.toNat_lt)
    let v := viewOf map program (base memory) fun _ _ => false
    have hserves : ∀ c, map.denote (ofNat o).toNat = some c →
        ServesByte v.mappedSource c := by
      intro c hc
      cases c with
      | pad => exact trivial
      | data idx offset =>
        obtain ⟨rfl, _⟩ := inside_of_denote (hvalid memory) hc
        refine ⟨base memory, rfl, fun tick => ?_⟩
        obtain ⟨data, hread, hlen⟩ := (hbase memory).complete tick offset 1 (by decide)
          (by rw [toNat_one]; omega)
        obtain ⟨byte, rfl⟩ := length_eq_one_iff.mp hlen
        exact ⟨byte, hread⟩
    have hlt : (ofNat o).toNat < map.totalBytes.toNat := by rw [hoff]; exact ho
    obtain ⟨byte, _, hread⟩ := readAt_one (fun _ _ => rfl)
      (show 1 < ({} : Options).directGatherMinTotalBytes by decide) href hlt hserves 0 (s := {}) rfl
    have hreads : v.Reads (ofNat o) 1 [byte] := by
      refine ⟨1, [(ofNat o, 1)], 0, rfl, ?_⟩
      rw [readAtCalls, hread]
      rfl
    have hplan := eq_slice_of_view_reads (hbase memory).exact href hreads
    rw [h memory _ _ (lt_iff_toNat_lt.mpr hlt) hreads, hoff,
      show min (1 : UInt64).toNat (map.totalBytes.toNat - o) = 1 by
        rw [toNat_one]; omega] at hplan
    exact (cons.inj hplan).1
  cases hden : map.denote o with
  | none =>
    have hsome : (program.denote o).isSome :=
      href.tiled.denote_isSome_iff.mpr ⟨zero_le o, ho⟩
    rw [href.denote_eq, hden] at hsome
    exact absurd hsome (by simp)
  | some c =>
    cases c with
    | pad =>
      have := hbyte fun _ => 1
      rw [denotedByte, hden] at this
      exact absurd this (by decide)
    | data idx offset =>
      obtain ⟨rfl, -⟩ := inside_of_denote (hvalid fun _ => 0) hden
      have hone := hbyte fun k => if k = offset.toNat then 1 else 0
      rw [denotedByte, hden] at hone
      simp only [map_some, byteOf] at hone
      have heq : o = offset.toNat := by
        by_contra hne
        rw [if_neg hne] at hone
        exact absurd hone (by decide)
      rw [heq, UInt64.ofNat_toNat]

end View

/-- **When the pointer of a view may be taken for its bytes.**  For any plan that a view accepts, over a
base with a memory of `totalBytes` bytes, the pointer of the view is right for every contents of the
memory exactly when the base gives out no pointer or the plan selects every byte in place. -/
theorem viewPlanSource_pointerContract_iff (sha256 : Sha256) (history : List CacheStep)
    (config : ByteMappingConfig) (map : ByteRangeMap)
    (hfree : CollisionFree sha256 (⟨config, map⟩ :: history.map CacheStep.call))
    (mapped : Bool) (totalBytes : UInt64) (base : (ℕ → UInt8) → BaseSource)
    (hbase : ∀ memory, Backed mapped totalBytes memory (base memory))
    (memory₀ : ℕ → UInt8) (allocates₀ : ℕ → UInt64 → Bool) (v₀ : ViewPlanSource)
    (hok : viewPlanSource sha256 config (cacheAfter sha256 history) map (base memory₀) allocates₀ =
      .ok v₀) :
    (∀ memory allocates v,
      viewPlanSource sha256 config (cacheAfter sha256 history) map (base memory) allocates = .ok v →
      v.PointerContract (denotedByte (fun _ => memory) map.denote)) ↔
    mapped = false ∨ SelectsInPlace map := by
  obtain ⟨program, hcompile, hnum, hvalid, -⟩ := viewPlanSource_eq_ok hok
  have href := refines_of_compile hfree hcompile
  have hvalid' : ∀ memory, validateSources [base memory] map.segments = .ok () := by
    intro memory
    rw [← hvalid]
    exact validateSources_congr ((hbase memory).total.trans (hbase memory₀).total.symm) _
  constructor
  · intro h
    rw [or_iff_not_imp_left]
    intro hmapped
    obtain rfl : mapped = true := by simpa using hmapped
    refine selectsInPlace_of_pointer hbase href hvalid' fun memory o data ho hreads => ?_
    have hview := viewPlanSource_of_valid (fun _ _ => false) hcompile
      href.totalBytes.symm hnum (hvalid' memory)
    exact (h memory _ _ hview).pointer memory (hbase memory).pointer o data ho hreads
  · intro h memory allocates v hview
    obtain ⟨_, hcompile', -, -, rfl⟩ := viewPlanSource_eq_ok hview
    cases hcompile.symm.trans hcompile'
    refine pointerContract_of_pointer (hbase memory).exact href fun p hp o ho => ?_
    rw [(hbase memory).pointer] at hp
    rcases h with rfl | hplace
    · simp at hp
    · have hp : p = memory := by
        cases mapped with
        | false => simp at hp
        | true => simpa using hp.symm
      have hoff : (ofNat o).toNat = o :=
        toNat_ofNat_of_lt' (ho.trans map.totalBytes.toNat_lt)
      rw [hp, denotedByte, hplace o ho, map_some, getD_some, byteOf, hoff]

/-- A view of the whole of a memory, over a mapping that is there. -/
theorem viewPlanSource_pointerContract_whole :
    let sha256 : Sha256 := ⟨fun _ => List.replicate 32 0, fun _ => List.length_replicate⟩
    let map : ByteRangeMap :=
      { totalBytes := 4, numSources := 1
        segments := [{ kind := .data, dstOffset := 0, length := 4, srcOffset := 0 }] }
    ∃ v₀, viewPlanSource sha256 {} (cacheAfter sha256 []) map (cpuMemorySource (fun _ => 0) 4)
        (fun _ _ => true) = .ok v₀ ∧
      ((∀ memory allocates v, viewPlanSource sha256 {} (cacheAfter sha256 []) map
          (cpuMemorySource memory 4) allocates = .ok v →
        v.PointerContract (denotedByte (fun _ => memory) map.denote)) ↔
        true = false ∨ SelectsInPlace map) := by
  intro sha256 map
  let program := (compile sha256 {} (cacheAfter sha256 []) map).1.toOption.getD {}
  have hcompile : (compile sha256 {} (cacheAfter sha256 []) map).1 = .ok program := by
    decide +kernel
  have hok : viewPlanSource sha256 {} (cacheAfter sha256 []) map (cpuMemorySource (fun _ => 0) 4)
      (fun _ _ => true) = .ok _ :=
    viewPlanSource_of_valid (fun _ _ => true) hcompile (by decide +kernel) (by decide)
      (by decide +kernel)
  exact ⟨_, hok, viewPlanSource_pointerContract_iff sha256 [] {} map (collisionFree_singleton _ _)
    true 4 _ (fun memory => backed_cpuMemorySource memory 4) _ _ _ hok⟩

/-- A view of bytes 2 to 7 of a memory gives out the pointer to byte 0.  A mapped source that takes every
other byte of the view gathers them two bytes too early, and reads them in place. -/
theorem viewPlanSource_gather_reads_base :
    let sha256 : Sha256 := ⟨fun _ => List.replicate 32 0, fun _ => List.length_replicate⟩
    let memory : ℕ → UInt8 := fun o => UInt8.ofNat o
    let map : ByteRangeMap :=
      { totalBytes := 6, numSources := 1
        segments := [{ kind := .data, dstOffset := 0, length := 6, srcOffset := 2 }] }
    let everyOther : ByteRangeMap :=
      { totalBytes := 3, numSources := 1
        segments := [
          { kind := .data, dstOffset := 0, length := 1, srcOffset := 0 },
          { kind := .data, dstOffset := 1, length := 1, srcOffset := 2 },
          { kind := .data, dstOffset := 2, length := 1, srcOffset := 4 }] }
    let config : ByteMappingConfig :=
      { stridedRunMinRanges := 2, stridedMinRowLenBytes := 1, stridedBlockTargetBytes := 16,
        stridedBlockMaxBytes := 64 }
    let gathers : Options := { directGatherMinRowLenBytes := 1, directGatherMinTotalBytes := 1 }
    ∃ v, viewPlanSource sha256 {} (cacheAfter sha256 []) map (cpuMemorySource memory 8)
        (fun _ _ => true) = .ok v ∧
      v.cpuBasePtr = some memory ∧ memory 0 = 0 ∧ v.readAt 1 0 1 {} = some (.ok [2], { tick := 1 }) ∧
      ∃ source, v.Presents source ∧
      ∃ program, (compile sha256 config (cacheAfter sha256 []) everyOther).1 = .ok program ∧
      ∃ m, create everyOther program [source] {} (fun _ _ => true) = .ok m ∧
      ∃ m', create everyOther program [source] gathers (fun _ _ => true) = .ok m' ∧
        m.readAtCalls 3 [(0, 3)] {} = [.ok [2, 4, 6]] ∧
        m'.readAtCalls 3 [(0, 3)] {} = [.ok [0, 2, 4]] := by
  intro sha256 memory map everyOther config gathers
  let program := (compile sha256 {} (cacheAfter sha256 []) map).1.toOption.getD {}
  have hcompile : (compile sha256 {} (cacheAfter sha256 []) map).1 = .ok program := by
    decide +kernel
  let rows := (compile sha256 config (cacheAfter sha256 []) everyOther).1.toOption.getD {}
  have hrows : (compile sha256 config (cacheAfter sha256 []) everyOther).1 = .ok rows := by
    decide +kernel
  have hok : viewPlanSource sha256 {} (cacheAfter sha256 []) map (cpuMemorySource memory 8)
      (fun _ _ => true) = .ok _ :=
    viewPlanSource_of_valid (fun _ _ => true) hcompile (by decide +kernel) (by decide)
      (by decide +kernel)
  let v := viewOf map program (cpuMemorySource memory 8) fun _ _ => true
  -- the view, read from its first state again and again
  let source : BaseSource :=
    { totalBytes := 6
      readAt := fun _ offset bytes =>
        ((v.mappedSource.readAtCalls 6 [(offset, bytes)] {})[0]?).getD
          (.error (.internal "the view does not return"))
      cpuBasePtr := some memory }
  have hsource : v.Presents source := by
    refine ⟨rfl, rfl, fun tick offset bytes data h => ⟨6, [(offset, bytes)], 0, rfl, ?_⟩⟩
    change ((v.mappedSource.readAtCalls 6 [(offset, bytes)] {})[0]?).getD _ = .ok data at h
    cases hread : (v.mappedSource.readAtCalls 6 [(offset, bytes)] {})[0]? with
    | none =>
      rw [hread] at h
      exact absurd h (by simp)
    | some result =>
      rw [hread] at h
      exact congrArg some h
  exact ⟨v, hok, rfl, rfl, by decide +kernel, source, hsource, rows, hrows,
    _, create_of_valid _ _ (by decide +kernel) (by decide) (by decide +kernel),
    _, create_of_valid _ _ (by decide +kernel) (by decide) (by decide +kernel), by decide +kernel,
    by decide +kernel⟩

/-! ## Views of a mapped layout -/

/-- A mapped source as the base of another one.  It gives out no pointer; its answer to a read depends on
the calls before. -/
def layoutSource (m : ByteRangeMappedSource) (fuel : ℕ) (history : ℕ → List (UInt64 × UInt64)) :
    BaseSource where
  totalBytes := m.program.totalBytes
  readAt tick offset bytes :=
    (m.readAtCalls fuel (history tick ++ [(offset, bytes)]) {})[(history tick).length]?.getD
      (.error (.internal "out of fuel"))

section Composed

variable {layout selection composed : ByteRangeMap} {mapped fused : ByteRangeMappedSource}
  {contents : ℕ → ℕ → UInt8} {fuel : ℕ} {history : ℕ → List (UInt64 × UInt64)}
  {config config₁ config₂ : ByteMappingConfig}

lemma layoutSource_exact (hex : ExactSources mapped.sources contents)
    (href : mapped.program.Refines config layout) :
    (layoutSource mapped fuel history).Exact (denotedByte contents layout.denote) := by
  have hread {tick offset bytes data}
      (h : (layoutSource mapped fuel history).readAt tick offset bytes = .ok data) :
      mapped.Reads offset bytes data :=
    ⟨fuel, history tick ++ [(offset, bytes)], (history tick).length, by simp,
      (getD_eq_iff.1 h).resolve_right (by simp)⟩
  refine ⟨fun _ _ _ _ h hne => ?_, fun _ _ _ _ h => ?_, nofun⟩
  all_goals have hdata := eq_slice_of_reads hex href (hread h)
  · have hpos := length_pos_iff.2 hne
    change _ ≤ mapped.program.totalBytes.toNat
    rw [hdata, length_slice] at hpos ⊢
    rw [href.totalBytes]
    omega
  · rw [hdata, length_slice]

/-- **A composed view reads what the view over the mapped layout reads.**  A load from disk composes the
selection of the view with the layout of the file and reads through one mapped source; a read that
succeeds delivers the bytes of the same read of a view plan source over the mapped layout. -/
theorem composed_view_reads_nested
    (hcompose : composeByteRangeMaps selection layout = .ok composed)
    (hne : selection.totalBytes ≠ 0) (hex : ExactSources mapped.sources contents)
    (hlayout : mapped.program.Refines config layout) {program : ByteRangeProgram}
    (hselection : program.Refines config₁ selection) (hsources : fused.sources = mapped.sources)
    (hcomposed : fused.program.Refines config₂ composed) {allocates : ℕ → UInt64 → Bool}
    {offset bytes : UInt64} {data data' : List UInt8} (hnested :
      (viewOf selection program (layoutSource mapped fuel history) allocates).Reads offset bytes data)
    (hfused : fused.Reads offset bytes data') : data' = data := by
  obtain ⟨-, hspec⟩ := composeSpec_of_eq_ok hne hcompose
  rw [eq_slice_of_view_reads (layoutSource_exact hex hlayout) hselection hnested,
    eq_slice_of_reads (hsources ▸ hex) hcomposed hfused, hspec.totalBytes]
  congr 1
  funext d
  rw [denotedByte, hspec.denote_eq, denotedByte]
  rcases selection.denote d with _ | _ | _ <;> rfl

end Composed

/-- Bytes 1 and 2 of a layout that starts at byte 2 of the file. -/
theorem composed_view_reads_nested_shifted :
    let sha256 : Sha256 := ⟨fun _ => List.replicate 32 0, fun _ => List.length_replicate⟩
    let shift (total srcOffset : UInt64) : ByteRangeMap :=
      { totalBytes := total, numSources := 1
        segments := [{ kind := .data, dstOffset := 0, length := total, srcOffset }] }
    let mapped map : ByteRangeMappedSource :=
      { program := (compile sha256 {} programCache map).1.toOption.getD {}
        sources := [cpuMemorySource UInt8.ofNat 8] }
    let nested := viewOf (shift 2 1) (mapped (shift 2 1)).program
      (layoutSource (mapped (shift 4 2)) 4 fun _ => []) fun _ _ => true
    nested.Reads 0 2 [3, 4] ∧ ∀ data, (mapped (shift 2 3)).Reads 0 2 data → data = [3, 4] := by
  intro sha256 shift mapped nested
  have hread : nested.Reads 0 2 [3, 4] := ⟨4, [(0, 2)], 0, rfl, by decide +kernel⟩
  have hrefines map (h : (compile sha256 {} programCache map).1 = .ok (mapped map).program) :=
    refines_of_compile_cold h
  have hcompose : composeByteRangeMaps (shift 2 1) (shift 4 2) = .ok (shift 2 3) := by
    decide +kernel
  have hex : ExactSources (mapped (shift 4 2)).sources fun _ => UInt8.ofNat :=
    exactSources_singleton (exact_cpuMemorySource _ _)
  exact ⟨hread, fun data => composed_view_reads_nested hcompose (by decide) hex
    (hrefines (shift 4 2) (by decide +kernel)) (hrefines (shift 2 1) (by decide +kernel)) (by rfl)
    (hrefines (shift 2 3) (by decide +kernel)) hread⟩

end TensorCast.View
