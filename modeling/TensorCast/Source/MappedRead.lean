import TensorCast.Source.MappedSource

/-!
# A mapped source delivers what its map denotes

The row loops are right because a row is a slice of the base source (`slice_row`); the kept block is
right because of an invariant of the state (`CacheOk`) that every call preserves, whether it succeeds
or not.  A read that succeeds has not wrapped around.
-/

namespace TensorCast.Source

open Core Lib ByteRange ByteRangeRun ByteRangeMappedSource List UInt64 Nat Except

/-! ## Exact base sources -/

/-- What a successful read returns, in full or in part, lies inside the source and is right, and so is
its memory, if it has one. -/
structure BaseSource.Exact (source : BaseSource) (content : ℕ → UInt8) : Prop where
  inside : ∀ tick offset bytes data, source.readAt tick offset bytes = .ok data → data ≠ [] →
    offset.toNat + data.length ≤ source.totalBytes.toNat
  read : ∀ tick offset bytes data, source.readAt tick offset bytes = .ok data →
    data = slice content offset.toNat data.length
  memory : ∀ base, source.cpuBasePtr = some base → ∀ o < source.totalBytes.toNat, base o = content o

lemma BaseSource.Exact.full {source : BaseSource} {content : ℕ → UInt8} (h : source.Exact content)
    {tick : ℕ} {offset bytes : UInt64} {data : List UInt8}
    (hread : source.readAt tick offset bytes = .ok data) (hlen : data.length = bytes.toNat) :
    data = slice content offset.toNat bytes.toNat ∧
      (0 < bytes.toNat → offset.toNat + bytes.toNat < 2 ^ 64) := by
  rw [← hlen]
  refine ⟨h.read _ _ _ _ hread, fun hpos => ?_⟩
  have hin := h.inside _ _ _ _ hread (length_pos_iff.mp hpos)
  have hlt := source.totalBytes.toNat_lt
  omega

lemma BaseSource.exact_of_cut {source : BaseSource} {content : ℕ → UInt8}
    (hmemory : ∀ base, source.cpuBasePtr = some base → base = content)
    (hread : ∀ tick offset bytes data, source.readAt tick offset bytes = .ok data →
      data = [] ∨ ¬ source.totalBytes ≤ offset ∧
        data = slice content offset.toNat (min bytes (source.totalBytes - offset)).toNat) :
    source.Exact content where
  inside tick offset bytes data h hne := by
    obtain ⟨hlt, rfl⟩ := (hread _ _ _ _ h).resolve_left hne
    rw [le_iff_toNat_le, not_le] at hlt
    rw [length_slice, toNat_min_sub _ hlt.le]
    omega
  read tick offset bytes data h := by
    rcases hread _ _ _ _ h with rfl | ⟨-, rfl⟩
    · rfl
    · rw [length_slice]
  memory base h o _ := by rw [hmemory base h]

lemma exact_cpuMemorySource (memory : ℕ → UInt8) (totalSize : UInt64) :
    (cpuMemorySource memory totalSize).Exact memory := by
  refine BaseSource.exact_of_cut (fun base h => (Option.some.inj h).symm) ?_
  intro tick offset bytes data h
  simp only [cpuMemorySource] at h
  split_ifs at h with htriv
  · exact .inl (ok.inj h).symm
  · exact .inr ⟨(not_or.mp htriv).1, (ok.inj h).symm⟩

def ExactSources (sources : List BaseSource) (contents : ℕ → ℕ → UInt8) : Prop :=
  ∀ (i : ℕ) (source : BaseSource), sources[i]? = some source → source.Exact (contents i)

variable {source : BaseSource}

lemma exactSources_singleton {contents : ℕ → ℕ → UInt8}
    (h : source.Exact (contents 0)) : ExactSources [source] contents := by
  intro i source' hi
  cases i with
  | zero =>
    rw [← Option.some.inj hi]
    exact h
  | succ i => simp at hi

def byteOf (contents : ℕ → ℕ → UInt8) : Cell → UInt8
  | .pad => 0
  | .data source offset => contents source.toNat offset.toNat

/-- The byte that a map or a program denotes at a destination byte. -/
def denotedByte (contents : ℕ → ℕ → UInt8) (origin : ℕ → Option Cell) (d : ℕ) : UInt8 :=
  ((origin d).map (byteOf contents)).getD 0

def stridedByte (run : ByteRangeRun) (content : ℕ → UInt8) (i : ℕ) : UInt8 :=
  content (rowOffset run.srcBase run.rowLen run.stride i).toNat

/-! ## Outcomes -/

/-- An outcome leaves a state with `I`, and its value, if there is one, satisfies `P`. -/
structure Ends {α : Type} (I : ReadState → Prop) (P : α → Prop) (outcome : StatusOr α × ReadState) :
    Prop where
  state : I outcome.2
  value : ∀ x, outcome.1 = .ok x → P x

namespace Ends

variable {α : Type} {I J : ReadState → Prop} {P Q : α → Prop} {s : ReadState}
  {outcome : StatusOr α × ReadState}

lemma ok {x : α} (hs : I s) (hx : P x) : Ends I P (.ok x, s) :=
  ⟨hs, fun _ h => ok.inj h ▸ hx⟩

lemma error {status : Status} (hs : I s) : Ends I P (.error status, s) :=
  ⟨hs, fun _ h => by cases h⟩

@[elab_as_elim] lemma elim {motive : StatusOr α × ReadState → Prop} (h : Ends I P outcome)
    (error : ∀ status s, I s → motive (.error status, s))
    (ok : ∀ x s, I s → P x → motive (.ok x, s)) : motive outcome := by
  obtain ⟨_ | x, s⟩ := outcome
  · exact error _ s h.state
  · exact ok x s h.state (h.value x rfl)

lemma imp (h : Ends I P outcome) (hI : ∀ s, I s → J s) (hP : ∀ x, P x → Q x) : Ends J Q outcome :=
  ⟨hI _ h.state, fun x hx => hP x (h.value x hx)⟩

end Ends

/-! ## Rows -/

variable {run : ByteRangeRun} {content : ℕ → UInt8}

lemma slice_row {row rowOffset : UInt64} {take : ℕ}
    (hin : rowOffset.toNat + take ≤ run.rowLen.toNat)
    (hfit : (run.srcBase + row * run.stride + rowOffset).toNat + take < 2 ^ 64) :
    slice content (run.srcBase + row * run.stride + rowOffset).toNat take =
      slice (stridedByte run content) (row.toNat * run.rowLen.toNat + rowOffset.toNat) take := by
  refine slice_congr fun k hk => ?_
  have hpos : 0 < run.rowLen.toNat := by omega
  have hdiv : (row.toNat * run.rowLen.toNat + rowOffset.toNat + k) / run.rowLen.toNat =
      row.toNat := by
    rw [add_assoc, mul_comm, mul_add_div hpos, div_eq_of_lt (by omega), add_zero]
  have hmod : (row.toNat * run.rowLen.toNat + rowOffset.toNat + k) % run.rowLen.toNat =
      rowOffset.toNat + k := by
    rw [add_assoc, mul_comm, mul_add_mod, mod_eq_of_lt (by omega)]
  rw [stridedByte, ByteRangeRun.rowOffset, hdiv, hmod, UInt64.ofNat_toNat, ofNat_toNat_add,
    ← add_assoc, toNat_add_ofNat (by omega)]

/-- What a round of a row loop takes. -/
structure RowTake (run : ByteRangeRun) (rowOffset remaining take : UInt64) : Prop where
  pos : 0 < take.toNat
  le : take.toNat ≤ remaining.toNat
  within : rowOffset.toNat + take.toNat ≤ run.rowLen.toNat
  ends : take.toNat = remaining.toNat ∨ rowOffset.toNat + take.toNat = run.rowLen.toNat
  toNat_remaining : (remaining - take).toNat = remaining.toNat - take.toNat

lemma rowTake_min {rowOffset remaining : UInt64}
    (hoff : rowOffset.toNat < run.rowLen.toNat) (hr : remaining ≠ 0) :
    RowTake run rowOffset remaining (min remaining (run.rowLen - rowOffset)) := by
  have hr' := toNat_pos hr
  have hmin := toNat_min_sub remaining hoff.le
  refine ⟨by omega, by omega, by omega, by omega, toNat_sub_of_le (by omega)⟩

variable {row rowOffset remaining take : UInt64}

lemma RowTake.rest_eq_zero (h : RowTake run rowOffset remaining take)
    (hdone : take.toNat = remaining.toNat) : remaining - take = 0 := by
  refine UInt64.toNat_inj.mp ?_
  rw [h.toNat_remaining, hdone, Nat.sub_self, UInt64.toNat_zero]

lemma next_row (hfull : rowOffset.toNat + take.toNat = run.rowLen.toNat)
    (hrow : row.toNat < run.rows.toNat) :
    row.toNat * run.rowLen.toNat + rowOffset.toNat + take.toNat =
      (row + 1).toNat * run.rowLen.toNat + (0 : UInt64).toNat := by
  have hlt := run.rows.toNat_lt
  rw [toNat_succ (by omega), add_mul, UInt64.toNat_zero]
  omega

/-- The kept block is left alone, and a success delivers a slice of the source that does not wrap. -/
def Fetches (content : ℕ → UInt8)
    (fetch : UInt64 → UInt64 → ReadState → StatusOr (List UInt8) × ReadState) : Prop :=
  ∀ srcOffset take s r s', fetch srcOffset take s = (r, s') → s'.block = s.block ∧
    ∀ data, r = .ok data → 0 < take.toNat → srcOffset.toNat + take.toNat < 2 ^ 64 ∧
      data = slice content srcOffset.toNat take.toNat

lemma fetches_of {fetch : UInt64 → UInt64 → ReadState → StatusOr (List UInt8) × ReadState}
    (h : ∀ srcOffset take s, Ends (·.block = s.block) (fun data => 0 < take.toNat →
      srcOffset.toNat + take.toNat < 2 ^ 64 ∧ data = slice content srcOffset.toNat take.toNat)
      (fetch srcOffset take s)) : Fetches content fetch := by
  intro srcOffset take s r s' hr
  have hends := h srcOffset take s
  rw [hr] at hends
  exact ⟨hends.state, hends.value⟩

lemma fetches_readRow (h : source.Exact content) : Fetches content (readRow source) := by
  refine fetches_of fun srcOffset take s => ?_
  unfold readRow
  split
  · exact .error rfl
  rename_i data hread
  split
  · exact .error rfl
  rename_i hlen
  obtain ⟨hdata, hlt⟩ := h.full hread (not_not.mp hlen)
  exact .ok rfl fun hpos => ⟨hlt hpos, hdata⟩

lemma fetches_gatherRow {content base : ℕ → UInt8}
    (h : source.Exact content) (hbase : source.cpuBasePtr = some base) :
    Fetches content (gatherRow source base) := by
  refine fetches_of fun srcOffset take s => ?_
  unfold gatherRow
  split
  · exact .error rfl
  rename_i hcheck
  refine .ok rfl fun hpos => ?_
  rw [not_or, lt_iff_toNat_lt, lt_iff_toNat_lt] at hcheck
  obtain ⟨_, h2⟩ := hcheck
  rw [toNat_sub_of_le (by omega)] at h2
  have hlt := source.totalBytes.toNat_lt
  exact ⟨by omega, slice_congr fun k hk => h.memory base hbase _ (by omega)⟩

section Rows

variable {fetch : UInt64 → UInt64 → ReadState → StatusOr (List UInt8) × ReadState}

lemma copyRows_zero (fuel : ℕ) (row rowOffset : UInt64) (s : ReadState) :
    copyRows fetch run fuel row rowOffset 0 s = (.ok [], s) := by
  cases fuel with
  | zero => rfl
  | succ fuel => rw [copyRows, if_pos (.inl rfl)]

lemma copyRows_spec (hfetch : Fetches content fetch) {fuel : ℕ} :
    ∀ (row rowOffset remaining : UInt64) (s : ReadState), rowOffset.toNat < run.rowLen.toNat →
      row.toNat * run.rowLen.toNat + rowOffset.toNat + remaining.toNat ≤
        run.rowLen.toNat * run.rows.toNat →
      remaining.toNat ≤ fuel →
      Ends (·.block = s.block) (· = slice (stridedByte run content)
          (row.toNat * run.rowLen.toNat + rowOffset.toNat) remaining.toNat)
        (copyRows fetch run fuel row rowOffset remaining s) := by
  induction fuel with
  | zero =>
    intro row rowOffset remaining s _ _ hfuel
    rw [le_zero.mp hfuel]
    exact .ok rfl rfl
  | succ fuel ih =>
    intro row rowOffset remaining s hoff hin hfuel
    by_cases h0 : remaining = 0
    · rw [h0]
      exact .ok rfl rfl
    have ht := rowTake_min hoff h0
    have hle := ht.le
    have hrow : row.toNat < run.rows.toNat := by
      have hpos := ht.pos
      refine Nat.lt_of_mul_lt_mul_left (a := run.rowLen.toNat) ?_
      rw [mul_comm]
      omega
    rw [copyRows, if_neg (by rw [not_or, UInt64.not_le]; exact ⟨h0, hrow⟩)]
    simp only
    generalize min remaining (run.rowLen - rowOffset) = take at ht hle
    generalize hf : fetch (run.srcBase + row * run.stride + rowOffset) take s = fr
    obtain ⟨fr, s₁⟩ := fr
    obtain ⟨hblock, hdata⟩ := hfetch _ _ _ _ _ hf
    cases fr with
    | error status => exact .error hblock
    | ok first =>
      obtain ⟨hfit, hfirst⟩ := hdata first rfl ht.pos
      rw [slice_row ht.within hfit] at hfirst
      simp only
      -- the loop goes on at the start of the next row, or it is done
      rcases ht.ends with hend | hend
      · rw [ht.rest_eq_zero hend, copyRows_zero]
        exact .ok hblock (by rw [append_nil, hfirst, hend])
      · have hpos' := next_row hend hrow
        have hrest := ih (row + 1) 0 (remaining - take) s₁ (by rw [UInt64.toNat_zero]; omega)
          (by rw [ht.toNat_remaining]; omega)
          (by rw [ht.toNat_remaining]; have := ht.pos; omega)
        rw [← hpos', ht.toNat_remaining] at hrest
        refine hrest.elim (fun status s₂ hs₂ => .error (hs₂.trans hblock)) ?_
        rintro rest s₂ hs₂ rfl
        exact .ok (hs₂.trans hblock) (by rw [hfirst, slice_append hle])

lemma toNat_div_mul_add_mod (a b : UInt64) : (a / b).toNat * b.toNat + (a % b).toNat = a.toNat := by
  rw [mul_comm]
  exact div_add_mod _ _

lemma copyRows_from (hfetch : Fetches content fetch) {runOffset bytes : UInt64} {s : ReadState}
    (hpos : 0 < run.rowLen.toNat)
    (hin : runOffset.toNat + bytes.toNat ≤ run.rowLen.toNat * run.rows.toNat) :
    Ends (·.block = s.block) (· = slice (stridedByte run content) runOffset.toNat bytes.toNat)
      (copyRows fetch run bytes.toNat (runOffset / run.rowLen)
        (runOffset % run.rowLen) bytes s) := by
  have hspec := copyRows_spec hfetch (runOffset / run.rowLen) (runOffset % run.rowLen) bytes s
    (mod_lt _ hpos)
    (by rw [toNat_div_mul_add_mod]; exact hin) le_rfl
  rwa [toNat_div_mul_add_mod] at hspec

end Rows

section Reads

variable {m : ByteRangeMappedSource} {contents : ℕ → ℕ → UInt8}

variable {run : ByteRangeRun} {s s' : ReadState}

section Base

variable (hex : ExactSources m.sources contents)

include hex

lemma copyFromStridedRows_spec {runOffset bytes : UInt64} (hpos : 0 < run.rowLen.toNat)
    (hin : runOffset.toNat + bytes.toNat ≤ run.rowLen.toNat * run.rows.toNat) :
    Ends (·.block = s.block)
      (· = slice (stridedByte run (contents run.sourceIndex.toNat)) runOffset.toNat bytes.toNat)
      (m.copyFromStridedRows run runOffset bytes s) := by
  have hrl : run.rowLen ≠ 0 := ne_zero_of_pos hpos
  rw [copyFromStridedRows]
  by_cases h0 : bytes = 0
  · rw [h0]
    exact .ok rfl rfl
  rw [if_neg h0]
  split
  · exact .error rfl
  · rename_i source hsource
    rw [if_neg hrl]
    exact copyRows_from (fetches_readRow (hex _ _ hsource)) hpos hin

lemma readBase_spec (idx : UInt32) (offset bytes : UInt64) (s : ReadState) :
    Ends (·.block = s.block) (fun data => data = slice (contents idx.toNat) offset.toNat bytes.toNat ∧
        (0 < bytes.toNat → offset.toNat + bytes.toNat < 2 ^ 64)) (m.readBase idx offset bytes s) := by
  rw [readBase]
  split_ifs with h0
  · rw [h0]
    exact .ok rfl ⟨rfl, fun hpos => absurd hpos (by simp)⟩
  split
  · exact .error rfl
  rename_i source hsource
  split
  · exact .error rfl
  rename_i data hread
  split_ifs with hlen
  · exact .error rfl
  · exact .ok rfl ((hex _ _ hsource).full hread (not_not.mp hlen))

end Base

/-! ## Blocks -/

def blockLen (run : ByteRangeRun) (rows : ℕ) : ℕ :=
  (rows - 1) * run.stride.toNat + run.rowLen.toNat

/-- A block holds rows of its run, as one slice of the source. -/
structure BlockOk (content : ℕ → UInt8) (run : ByteRangeRun) (block : StridedBlock) : Prop where
  inside : block.firstRow.toNat + block.rows.toNat ≤ run.rows.toNat
  srcBegin : block.srcBegin = run.srcBase + block.firstRow * run.stride
  fits : block.srcBegin.toNat + blockLen run block.rows.toNat < 2 ^ 64
  data : block.data = slice content block.srcBegin.toNat (blockLen run block.rows.toNat)

/-- The kept block, if there is one, is a block of the run it names. -/
def CacheOk (m : ByteRangeMappedSource) (contents : ℕ → ℕ → UInt8) (s : ReadState) : Prop :=
  ∀ block, s.block = some block → ∃ run, m.program.runs[block.runIndex]? = some run ∧
    BlockOk (contents run.sourceIndex.toNat) run block

lemma CacheOk.of_block_eq (h : CacheOk m contents s)
    (heq : s'.block = s.block) : CacheOk m contents s' := by
  intro block hb
  exact h block (by rw [← heq, hb])

variable {s : ReadState}

lemma cacheOk_of_none (h : s.block = none) : CacheOk m contents s := by
  intro block hb
  rw [h] at hb
  simp at hb

lemma toNat_blockBytes {rows : UInt64} (hrows : rows ≠ 0)
    (hfit : blockLen run rows.toNat < 2 ^ 64) :
    ((rows - 1) * run.stride + run.rowLen).toNat = blockLen run rows.toNat := by
  have hpos : 1 ≤ rows.toNat := toNat_pos hrows
  have hsub : (rows - 1).toNat = rows.toNat - 1 := toNat_sub_of_le hpos
  have hmul : ((rows - 1) * run.stride).toNat = (rows.toNat - 1) * run.stride.toNat := by
    rw [UInt64.toNat_mul, hsub]
    unfold blockLen at hfit
    omega
  rw [toNat_add_of_lt (by rw [hmul]; exact hfit), hmul, blockLen]

lemma blockLen_mono (run : ByteRangeRun) {a b : ℕ} (h : a ≤ b) : blockLen run a ≤ blockLen run b :=
  Nat.add_le_add_right (mul_le_mul_right _ (Nat.sub_le_sub_right h 1)) _

variable {config : ByteMappingConfig} {runIndex : ℕ} {content : ℕ → UInt8}

/-- The rows that a miss loads. -/
lemma firstRow_facts (hwf : run.WellFormed config)
    {row : UInt64} (hrow : row.toNat < run.rows.toNat) :
    (max run.rowsPerBlock 1) = run.rowsPerBlock ∧
    (row - row % run.rowsPerBlock).toNat = row.toNat - row.toNat % run.rowsPerBlock.toNat ∧
    (min run.rowsPerBlock (run.rows - (row - row % run.rowsPerBlock))).toNat =
      min run.rowsPerBlock.toNat
        (run.rows.toNat - (row.toNat - row.toNat % run.rowsPerBlock.toNat)) := by
  have hpos := hwf.rowsPerBlock_pos
  have hone : (1 : UInt64).toNat = 1 := rfl
  have hmod : (row % run.rowsPerBlock).toNat = row.toNat % run.rowsPerBlock.toNat :=
    UInt64.toNat_mod _ _
  have hle := mod_le row.toNat run.rowsPerBlock.toNat
  have hfirst : (row - row % run.rowsPerBlock).toNat =
      row.toNat - row.toNat % run.rowsPerBlock.toNat := by
    rw [toNat_sub_of_le (by exact hle), hmod]
  refine ⟨UInt64.toNat_inj.mp ?_, hfirst, ?_⟩
  · rw [toNat_max]
    omega
  · rw [toNat_min_sub _ (by omega), hfirst]

/-! ## Packing rows out of a block -/

lemma blockOffset_facts {block : StridedBlock} (hb : BlockOk content run block)
    {activeRow rowOffset : UInt64} {take : ℕ} (hfirst : block.firstRow.toNat ≤ activeRow.toNat)
    (hlast : activeRow.toNat < block.firstRow.toNat + block.rows.toNat)
    (hin : rowOffset.toNat + take ≤ run.rowLen.toNat) :
    (block.data.drop ((activeRow - block.firstRow) * run.stride + rowOffset).toNat).take take =
      slice (stridedByte run content) (activeRow.toNat * run.rowLen.toNat + rowOffset.toNat)
        take := by
  have hsub : (activeRow - block.firstRow).toNat = activeRow.toNat - block.firstRow.toNat :=
    toNat_sub_of_le hfirst
  have hfits := hb.fits
  have hrows : (activeRow.toNat - block.firstRow.toNat) * run.stride.toNat ≤
      (block.rows.toNat - 1) * run.stride.toNat := mul_le_mul_right _ (by omega)
  unfold blockLen at hfits
  have hmul : ((activeRow - block.firstRow) * run.stride).toNat =
      (activeRow.toNat - block.firstRow.toNat) * run.stride.toNat := by
    rw [UInt64.toNat_mul, hsub, mod_eq_of_lt (by omega)]
  have hoff : ((activeRow - block.firstRow) * run.stride + rowOffset).toNat =
      (activeRow.toNat - block.firstRow.toNat) * run.stride.toNat + rowOffset.toNat := by
    rw [toNat_add_of_lt (by omega), hmul]
  -- the row of the block is the row of the run
  have hsrc : run.srcBase + activeRow * run.stride + rowOffset =
      block.srcBegin + ((activeRow - block.firstRow) * run.stride + rowOffset) := by
    rw [hb.srcBegin]
    grind
  generalize (activeRow - block.firstRow) * run.stride + rowOffset = off at hoff hsrc ⊢
  have hsrcNat : (run.srcBase + activeRow * run.stride + rowOffset).toNat =
      block.srcBegin.toNat + off.toNat := by
    rw [hsrc, toNat_add_of_lt (by omega)]
  rw [hb.data, take_drop_slice (by rw [blockLen]; omega), ← hsrcNat]
  exact slice_row hin (by omega)

lemma packRows_zero (block : StridedBlock) (fuel : ℕ) (activeRow rowOffset : UInt64) :
    packRows block run fuel activeRow rowOffset 0 = [] := by
  cases fuel with
  | zero => rfl
  | succ fuel => rw [packRows, if_pos (.inl rfl)]

lemma packRows_spec {block : StridedBlock} (hb : BlockOk content run block) {fuel : ℕ} :
    ∀ (activeRow rowOffset remaining : UInt64), rowOffset.toNat < run.rowLen.toNat →
      block.firstRow.toNat ≤ activeRow.toNat → remaining.toNat ≤ fuel →
      ∃ n ≤ remaining.toNat,
        packRows block run fuel activeRow rowOffset remaining =
          slice (stridedByte run content) (activeRow.toNat * run.rowLen.toNat + rowOffset.toNat) n ∧
        (remaining ≠ 0 → activeRow.toNat < block.firstRow.toNat + block.rows.toNat → 0 < n) := by
  have hend : (block.firstRow + block.rows).toNat = block.firstRow.toNat + block.rows.toNat :=
    toNat_add_of_le hb.inside
  induction fuel with
  | zero =>
    intro activeRow rowOffset remaining _ _ hfuel
    refine ⟨0, zero_le _, rfl, fun h => absurd (UInt64.toNat_inj.mp ?_) h⟩
    exact le_zero.mp hfuel
  | succ fuel ih =>
    intro activeRow rowOffset remaining hoff hfirst hfuel
    rw [packRows]
    by_cases hstop : remaining = 0 ∨ block.firstRow + block.rows ≤ activeRow
    · rw [if_pos hstop]
      refine ⟨0, zero_le _, rfl, fun h hlt => ?_⟩
      rcases hstop with h0 | hle
      · exact absurd h0 h
      · rw [le_iff_toNat_le] at hle
        omega
    · rw [if_neg hstop]
      obtain ⟨h0, hlast⟩ := not_or.mp hstop
      rw [UInt64.not_le, lt_iff_toNat_lt, hend] at hlast
      have ht := rowTake_min hoff h0
      simp only
      generalize min remaining (run.rowLen - rowOffset) = take at ht
      have hpos := ht.pos
      have hle := ht.le
      rw [blockOffset_facts hb hfirst hlast ht.within]
      have hoff' : (rowOffset + take).toNat = rowOffset.toNat + take.toNat :=
        toNat_add_of_le ht.within
      split
      · rename_i hrow
        have hfull : rowOffset.toNat + take.toNat = run.rowLen.toNat := by rw [← hoff', hrow]
        have hrow' := hlast.trans_le hb.inside
        have hlt := run.rows.toNat_lt
        have hnext : (activeRow + 1).toNat = activeRow.toNat + 1 := toNat_succ (by omega)
        have hpos' := next_row hfull hrow'
        obtain ⟨n, hn, hpack, -⟩ := ih (activeRow + 1) 0 (remaining - take)
          (by rw [UInt64.toNat_zero]; omega) (by omega)
          (by rw [ht.toNat_remaining]; omega)
        rw [ht.toNat_remaining] at hn
        refine ⟨take.toNat + n, by omega, ?_, fun _ _ => by omega⟩
        rw [hpack, ← hpos', slice_add]
      · rename_i hrow
        -- the row is not used up, so the request is
        have hdone : take.toNat = remaining.toNat := by
          rcases ht.ends with h | h
          · exact h
          · exact absurd (UInt64.toNat_inj.mp (hoff'.trans h)) hrow
        refine ⟨take.toNat, hle, ?_, fun _ _ => hpos⟩
        rw [ht.rest_eq_zero hdone, packRows_zero, append_nil]

/-! ## Parts of a call -/

/-- The bytes that a call has delivered so far and the state it leaves are right. -/
def Delivers (m : ByteRangeMappedSource) (contents : ℕ → ℕ → UInt8) (f : ℕ → UInt8) (a n : ℕ)
    (outcome : Option (StatusOr (List UInt8) × ReadState)) : Prop :=
  ∀ r s', outcome = some (r, s') → CacheOk m contents s' ∧ ∀ data, r = .ok data → data = slice f a n

variable {f : ℕ → UInt8}

/-- A part of a call that asks for `n` bytes is right, and without an allocation failure it ends
within `n` rounds. -/
structure Serves (m : ByteRangeMappedSource) (contents : ℕ → ℕ → UInt8) (fuel : ℕ)
    (f : ℕ → UInt8) (a n : ℕ) (outcome : Option (StatusOr (List UInt8) × ReadState)) : Prop where
  delivers : Delivers m contents f a n outcome
  returns : (∀ tick k, m.allocates tick k = true) → n ≤ fuel → outcome ≠ none

namespace Serves

variable {fuel : ℕ} {f : ℕ → UInt8} {a n : ℕ} {s : ReadState}

lemma of_ends {outcome : StatusOr (List UInt8) × ReadState}
    (h : Ends (CacheOk m contents) (· = slice f a n) outcome) :
    Serves m contents fuel f a n (some outcome) := by
  refine ⟨fun r s' hr => ?_, fun _ _ => by simp⟩
  cases hr
  exact ⟨h.state, h.value⟩

lemma of_ok {data : List UInt8} (hs : CacheOk m contents s) (hd : data = slice f a n) :
    Serves m contents fuel f a n (some (.ok data, s)) := .of_ends (.ok hs hd)

lemma of_error {status : Status} (hs : CacheOk m contents s) :
    Serves m contents fuel f a n (some (.error status, s)) := .of_ends (.error hs)

lemma append {k fuel' : ℕ} {first : List UInt8}
    {outcome : Option (StatusOr (List UInt8) × ReadState)} (hk : k ≤ n)
    (hfirst : first = slice f a k) (h : Serves m contents fuel' f (a + k) (n - k) outcome)
    (hfuel : (∀ tick k, m.allocates tick k = true) → n ≤ fuel → n - k ≤ fuel') :
    Serves m contents fuel f a n (prepend first outcome) := by
  rcases outcome with _ | ⟨r, s⟩
  · exact ⟨nofun, fun halloc hle => absurd rfl (h.returns halloc (hfuel halloc hle))⟩
  · obtain ⟨hs, hd⟩ := h.delivers r s rfl
    cases r with
    | error status => exact .of_error hs
    | ok rest => exact .of_ok hs (by rw [hfirst, hd rest rfl, slice_append hk])

end Serves

/-! ## Filling a strided run -/

section Strided

variable (hex : ExactSources m.sources contents)
  (hmax : m.program.stridedBlockMaxBytes = config.stridedBlockMaxBytes)
  (hrun : m.program.runs[runIndex]? = some run) (hwf : run.WellFormed config)
  {runOffset bytes : UInt64}

include hex in
lemma serves_copyFromStridedRows (hpos : 0 < run.rowLen.toNat) (fuel : ℕ)
    (hin : runOffset.toNat + bytes.toNat ≤ run.rowLen.toNat * run.rows.toNat)
    (hs : CacheOk m contents s) :
    Serves m contents fuel (stridedByte run (contents run.sourceIndex.toNat)) runOffset.toNat
      bytes.toNat (some (m.copyFromStridedRows run runOffset bytes s)) :=
  .of_ends ((copyFromStridedRows_spec hex hpos hin).imp (fun _ => hs.of_block_eq) fun _ => id)

include hex hmax hrun hwf

/-- What loading rows leaves behind: the state stays right, and a block that is returned is a
block of the run.  The compiled block size is within the limit, so without an allocation failure
all the rows that were asked for are loaded. -/
lemma loadRows_spec (firstRow : UInt64) (fuel : ℕ) :
    ∀ {blockRows : UInt64} {s : ReadState}, blockRows.toNat ≤ run.rowsPerBlock.toNat →
      firstRow.toNat + blockRows.toNat ≤ run.rows.toNat → CacheOk m contents s →
      Ends (CacheOk m contents) (fun block => block.firstRow = firstRow ∧
          BlockOk (contents run.sourceIndex.toNat) run block ∧
          ((∀ tick n, m.allocates tick n = true) → block.rows = blockRows))
        (m.loadRows runIndex run firstRow fuel blockRows s) := by
  induction fuel with
  | zero =>
    intro blockRows s _ _ hs
    exact .error hs
  | succ fuel ih =>
    intro blockRows s hle hin hs
    have hhalf : (blockRows / 2).toNat ≤ blockRows.toNat := by
      exact div_le_self _ _
    rw [loadRows]
    by_cases h0 : blockRows = 0
    · rw [if_pos h0]
      exact .error hs
    have hlen := (blockLen_mono run hle).trans hwf.block_le
    have hbytes := toNat_blockBytes h0 (lt_of_le_of_lt hlen config.stridedBlockMaxBytes.toNat_lt)
    have hbig : ¬ m.program.stridedBlockMaxBytes < (blockRows - 1) * run.stride + run.rowLen := by
      rw [hmax, lt_iff_toNat_lt]
      omega
    simp only [if_neg h0, if_neg hbig]
    have hnone : CacheOk m contents { s with block := none } := cacheOk_of_none rfl
    split
    · rename_i hfail
      refine (ih (by omega) (by omega) (cacheOk_of_none rfl)).imp (fun _ => id) ?_
      rintro block ⟨hfirst, hok, -⟩
      exact ⟨hfirst, hok, fun halloc => absurd hfail.2 (by rw [halloc]; simp)⟩
    · generalize (blockRows - 1) * run.stride + run.rowLen = blockBytes at hbytes
      have hread := readBase_spec hex run.sourceIndex (run.srcBase + firstRow * run.stride) blockBytes
        { s with block := none }
      refine hread.elim (fun _ s₁ hs₁ => .error (hnone.of_block_eq hs₁)) ?_
      rintro data s₁ - ⟨hdata, hlt⟩
      have hpos : 0 < blockBytes.toNat := by
        rw [hbytes, blockLen]
        have := hwf.rowLen_pos
        omega
      have hok : BlockOk (contents run.sourceIndex.toNat) run
          { runIndex := runIndex, firstRow := firstRow, rows := blockRows,
            srcBegin := run.srcBase + firstRow * run.stride, data := data,
            capacity := max ((s.block.map (·.capacity)).getD 0) blockBytes } :=
        ⟨hin, rfl, by rw [← hbytes]; exact hlt hpos, by rw [← hbytes]; exact hdata⟩
      refine .ok (fun block hb => ?_) ⟨rfl, hok, fun _ => rfl⟩
      cases hb
      exact ⟨run, hrun, hok⟩

/-- The block that a row is read from starts at the row or before, and without an allocation
failure it holds the row. -/
lemma loadBlock_spec {row : UInt64} (hrow : row.toNat < run.rows.toNat) (hs : CacheOk m contents s) :
    Ends (CacheOk m contents) (fun block => block.firstRow.toNat ≤ row.toNat ∧
        BlockOk (contents run.sourceIndex.toNat) run block ∧
        ((∀ tick n, m.allocates tick n = true) →
          row.toNat < block.firstRow.toNat + block.rows.toNat))
      (m.loadBlock runIndex run row s) := by
  set P : StridedBlock → Prop := fun block => block.firstRow.toNat ≤ row.toNat ∧ _
  obtain ⟨hmax1, _, hrows⟩ := firstRow_facts hwf hrow
  have hmodlt := mod_lt row.toNat hwf.rowsPerBlock_pos
  have hmiss := (loadRows_spec hex hmax hrun hwf (row - row % run.rowsPerBlock)
    ((min run.rowsPerBlock (run.rows - (row - row % run.rowsPerBlock))).toNat + 1)
    (by rw [hrows]; omega) (by omega) hs).imp (Q := P) (fun _ => id) (by
      rintro block ⟨hf, hok, hall⟩
      refine ⟨by rw [hf]; omega, hok, fun halloc => ?_⟩
      rw [hf, hall halloc]
      omega)
  simp only [loadBlock, hmax1]
  split
  · rename_i cached hcached
    split_ifs with hhit
    · obtain ⟨_, hrun', hok⟩ := hs cached hcached
      rw [hhit.1, hrun] at hrun'
      cases hrun'
      refine .ok hs ⟨le_iff_toNat_le.mp hhit.2.1, hok, fun _ => ?_⟩
      have hlt := lt_iff_toNat_lt.mp hhit.2.2
      rwa [toNat_add_of_le hok.inside] at hlt
    · exact hmiss
  · exact hmiss

/-- **The block loop** delivers the bytes of the run, whatever block was kept.  Without an
allocation failure each round packs at least one byte. -/
lemma serves_fillBlocks (fuel : ℕ) :
    ∀ (localOffset remaining : UInt64) {s : ReadState},
      localOffset.toNat + remaining.toNat ≤ run.rowLen.toNat * run.rows.toNat →
      CacheOk m contents s →
      Serves m contents fuel (stridedByte run (contents run.sourceIndex.toNat)) localOffset.toNat
        remaining.toNat (m.fillBlocks runIndex run fuel localOffset remaining s) := by
  induction fuel with
  | zero =>
    intro localOffset remaining s _ hs
    rw [fillBlocks]
    by_cases h0 : remaining = 0
    · rw [h0]
      exact .of_ok hs rfl
    · rw [if_neg h0]
      refine ⟨fun r s' h => by simp at h, fun _ hle => ?_⟩
      exact absurd hle (toNat_pos h0).not_ge
  | succ fuel ih =>
    intro localOffset remaining s hin hs
    rw [fillBlocks]
    by_cases h0 : remaining = 0
    · rw [h0]
      exact .of_ok hs rfl
    rw [if_neg h0]
    simp only
    split
    · exact .of_error hs
    rename_i hrow
    rw [UInt64.not_le] at hrow
    refine (loadBlock_spec hex hmax hrun hwf hrow hs).elim ?_ ?_
    · intro status s₁ hs₁
      simp only
      split
      · exact serves_copyFromStridedRows hex hwf.rowLen_pos _ hin (hs₁.of_block_eq rfl)
      · exact .of_error hs₁
    · rintro block s₁ hs₁ ⟨hfirst, hok, hlast⟩
      obtain ⟨n, hn, hpack, hprogress⟩ := packRows_spec hok _ (localOffset % run.rowLen) remaining
        (mod_lt _ hwf.rowLen_pos) hfirst le_rfl
      rw [toNat_div_mul_add_mod] at hpack
      simp only
      rw [hpack, length_slice]
      have htaken : (ofNat n).toNat = n :=
        toNat_ofNat_of_lt' (hn.trans_lt remaining.toNat_lt)
      have hbound : localOffset.toNat + n < 2 ^ 64 := by
        have hend := hwf.dstEnd_eq
        have := run.dstEnd.toNat_lt
        omega
      have hoffset : (localOffset + ofNat n).toNat = localOffset.toNat + n :=
        toNat_add_ofNat hbound
      have hrem : (remaining - ofNat n).toNat = remaining.toNat - n := by
        rw [toNat_sub_of_le (by rw [htaken]; exact hn), htaken]
      have hrest := ih (localOffset + ofNat n) (remaining - ofNat n) (by omega) hs₁
      rw [hoffset, hrem] at hrest
      refine hrest.append hn rfl fun halloc hle => ?_
      have hpos := hprogress h0 (hlast halloc)
      omega

lemma serves_fillStridedRun (fuel : ℕ)
    (hin : runOffset.toNat + bytes.toNat ≤ run.rowLen.toNat * run.rows.toNat)
    (hs : CacheOk m contents s) :
    Serves m contents fuel (stridedByte run (contents run.sourceIndex.toNat)) runOffset.toNat
      bytes.toNat (m.fillStridedRun fuel runIndex run runOffset bytes s) := by
  have hblocks := serves_fillBlocks hex hmax hrun hwf fuel runOffset bytes hin hs
  have hcopy := serves_copyFromStridedRows hex hwf.rowLen_pos fuel hin hs
  unfold fillStridedRun
  by_cases h0 : bytes = 0
  · rw [h0]
    exact .of_ok hs rfl
  rw [if_neg h0]
  split
  · exact hcopy
  split
  · exact hcopy
  split
  · exact .of_error hs
  split
  · exact .of_error hs
  rename_i source hsource
  split
  · rename_i base hbase
    split
    · -- the direct gather
      refine (copyRows_from (fetches_gatherRow (hex _ _ hsource) hbase)
        hwf.rowLen_pos hin).elim (fun _ s₁ hs₁ => .of_error (hs.of_block_eq hs₁)) ?_
      intro copied s₁ hs₁ hcopied
      simp only
      split
      · exact .of_error (hs.of_block_eq hs₁)
      · exact .of_ok (hs.of_block_eq hs₁) hcopied
    · exact hblocks
  · exact hblocks

end Strided

/-! ## Reading over the runs -/

def runByte (contents : ℕ → ℕ → UInt8) (run : ByteRangeRun) (i : ℕ) : UInt8 :=
  byteOf contents (run.cell (run.dstBegin.toNat + i))

lemma cell_dstBegin_add (run : ByteRangeRun) (i : ℕ) :
    run.cell (run.dstBegin.toNat + i) = match run.kind with
      | .pad => .pad
      | .contiguous => .data run.sourceIndex (run.srcBegin + ofNat i)
      | .strided =>
        .data run.sourceIndex (ByteRangeRun.rowOffset run.srcBase run.rowLen run.stride i) := by
  rewrite [cell, Nat.add_sub_cancel_left]
  rfl

lemma serves_readRun (hex : ExactSources m.sources contents)
    (hmax : m.program.stridedBlockMaxBytes = config.stridedBlockMaxBytes)
    (hrun : m.program.runs[runIndex]? = some run)
    (hwf : run.kind = .strided → run.WellFormed config) (fuel : ℕ) (runOffset chunk : UInt64)
    (hin : run.dstBegin.toNat + runOffset.toNat + chunk.toNat ≤ run.dstEnd.toNat)
    (hs : CacheOk m contents s) :
    Serves m contents fuel (runByte contents run) runOffset.toNat chunk.toNat
      (m.readRun fuel runIndex run runOffset chunk s) := by
  unfold readRun
  cases hk : run.kind with
  | pad =>
    refine .of_ok hs (eq_slice_of_getElem? (length_replicate ..) fun k hkc => ?_)
    rw [runByte, cell_dstBegin_add, hk, getElem?_replicate, if_pos hkc]
    rfl
  | contiguous =>
    refine .of_ends ((readBase_spec hex run.sourceIndex _ chunk s).imp (fun _ => hs.of_block_eq) ?_)
    rintro data ⟨rfl, _⟩
    refine slice_congr fun k hkc => ?_
    rw [runByte, cell_dstBegin_add, hk]
    show _ = contents run.sourceIndex.toNat (run.srcBegin + ofNat (runOffset.toNat + k)).toNat
    rw [ofNat_toNat_add, ← add_assoc, toNat_add_ofNat (by omega)]
  | strided =>
    have hwf := hwf hk
    have hend := hwf.dstEnd_eq
    have hbytes : runByte contents run =
        stridedByte run (contents run.sourceIndex.toNat) := by
      funext i
      rw [runByte, cell_dstBegin_add, hk]
      rfl
    rw [hbytes]
    exact serves_fillStridedRun hex hmax hrun hwf fuel (by omega) hs

variable {runs : List ByteRangeRun}

lemma denotedByte_of_mem {a b : ℕ} (ht : extent.Tiled a runs b) (hmem : run ∈ runs) {d : ℕ}
    (hd : extent.Covers run d) :
    denotedByte contents (extent.denote cell runs) d = byteOf contents (run.cell d) := by
  rw [denotedByte, ht.denote_of_mem hmem hd]
  rfl

lemma readRuns_zero (fuel : ℕ) (runs : List ByteRangeRun) (runIndex : ℕ) (cursor : UInt64)
    (s : ReadState) : m.readRuns fuel runs runIndex cursor 0 s = some (.ok [], s) := by
  cases runs with
  | nil => rfl
  | cons run rest => rw [readRuns, if_pos rfl]

variable {map : ByteRangeMap}

lemma serves_readRuns (hex : ExactSources m.sources contents) (href : m.program.Refines config map)
    (fuel : ℕ) {b : ℕ} :
    ∀ {a runIndex : ℕ} {cursor : UInt64} (remaining : UInt64) {s : ReadState},
      m.program.runs.drop runIndex = runs → extent.Tiled a runs b →
      a ≤ cursor.toNat → cursor.toNat + remaining.toNat ≤ b → b < 2 ^ 64 →
      CacheOk m contents s →
      Serves m contents fuel (denotedByte contents m.program.denote) cursor.toNat
        remaining.toNat (m.readRuns fuel runs runIndex cursor remaining s) := by
  induction runs with
  | nil =>
    intro a runIndex cursor remaining s _ htiled ha hb _ hs
    have hab : a = b := htiled
    have h0 : remaining.toNat = 0 := by omega
    rw [h0]
    exact .of_ok hs rfl
  | cons run rest ih =>
    intro a runIndex cursor remaining s hdrop htiled ha hb hlt hs
    obtain ⟨hlo, -, hrest⟩ := htiled
    rw [extent_lo] at hlo
    have hget : m.program.runs[runIndex]? = some run := by
      have h := congrArg head? hdrop
      rwa [head?_drop] at h
    have hmem : run ∈ m.program.runs := mem_of_getElem? hget
    have hdrop' : m.program.runs.drop (runIndex + 1) = rest := by
      have h := congrArg tail hdrop
      rwa [tail_drop] at h
    rw [readRuns]
    by_cases h0 : remaining = 0
    · rw [h0]
      exact .of_ok hs rfl
    rw [if_neg h0]
    by_cases hskip : run.dstEnd ≤ cursor
    · rw [if_pos hskip]
      exact ih _ hdrop' hrest (le_iff_toNat_le.mp hskip) hb hlt hs
    rw [if_neg hskip]
    by_cases hgap : cursor < run.dstBegin
    · rw [if_pos hgap]
      exact .of_error hs
    rw [if_neg hgap]
    rw [le_iff_toNat_le] at hskip
    have h0' := toNat_pos h0
    have hoff : (cursor - run.dstBegin).toNat = cursor.toNat - run.dstBegin.toNat :=
      toNat_sub_of_le (by omega)
    have hchunk := toNat_min_sub remaining (Nat.le_of_not_le hskip)
    simp only
    generalize min remaining (run.dstEnd - cursor) = chunk at hchunk
    have hpos : chunk ≠ 0 := ne_zero_of_pos (by omega)
    have hread := serves_readRun hex href.blockMax hget (href.wellFormed run hmem) fuel
      (cursor - run.dstBegin) chunk (by omega) hs
    generalize m.readRun fuel runIndex run (cursor - run.dstBegin) chunk s = outcome at hread
    rcases outcome with _ | ⟨r, s₁⟩
    · refine ⟨fun r s' h => by simp at h, fun halloc hle => ?_⟩
      exact absurd rfl (hread.returns halloc (by omega))
    obtain ⟨hs₁, hdata⟩ := hread.delivers r s₁ rfl
    cases r with
    | error status => exact .of_error hs₁
    | ok bytes =>
      have hbytes : bytes = slice (denotedByte contents m.program.denote) cursor.toNat
          chunk.toNat := by
        rw [hdata bytes rfl]
        refine slice_congr fun k hk => ?_
        rw [show m.program.denote = extent.denote cell m.program.runs
          from rfl, denotedByte_of_mem href.tiled hmem ⟨by rw [extent_lo]; omega,
            by rw [extent_hi]; omega⟩, runByte]
        congr 2
        omega
      have hne : bytes ≠ [] := by
        intro hnil
        have := congrArg length hbytes
        rw [hnil, length_slice] at this
        exact hpos (UInt64.toNat_inj.mp this.symm)
      simp only
      rw [if_neg hne, show ofNat bytes.length = chunk by
        rw [hbytes, length_slice, UInt64.ofNat_toNat]]
      have hcur : (cursor + chunk).toNat = cursor.toNat + chunk.toNat :=
        toNat_add_of_lt (by omega)
      have hrem : (remaining - chunk).toNat = remaining.toNat - chunk.toNat :=
        toNat_sub_of_le (by omega)
      by_cases hfin : remaining.toNat ≤ run.dstEnd.toNat - cursor.toNat
      · -- the request ends in this run
        have hzero : remaining - chunk = 0 := by
          refine UInt64.toNat_inj.mp ?_
          rw [UInt64.toNat_zero]
          omega
        rw [hzero, readRuns_zero]
        refine .of_ok hs₁ ?_
        rw [append_nil, hbytes]
        congr 1
        omega
      · have hnext := ih (remaining - chunk) hdrop' hrest
          (by rw [hcur, extent_hi]; omega) (by omega) hlt hs₁
        rw [hcur, hrem] at hnext
        exact hnext.append (by omega) hbytes fun _ hle => by omega

lemma findRunIndex_split (href : m.program.Refines config map)
    {offset : UInt64} (hlt : offset.toNat < map.totalBytes.toNat) :
    ∃ pre run post, m.program.runs = pre ++ run :: post ∧ m.findRunIndex offset = pre.length ∧
      extent.Covers run offset.toNat ∧
      extent.Tiled 0 pre (extent.lo run) ∧
      extent.Tiled (extent.lo run) (run :: post) map.totalBytes.toNat := by
  obtain ⟨pre, run, post, hsplit, hcov, hub⟩ := href.tiled.upperBound_split
    (·.dstBegin) (fun s => lt_iff_toNat_lt) (zero_le _) hlt
  have htiled := href.tiled
  rw [hsplit, Extent.tiled_append] at htiled
  obtain ⟨c, hpre, hpost⟩ := htiled
  obtain rfl := hpost.1
  refine ⟨pre, run, post, hsplit, ?_, hcov, hpre, hpost⟩
  rw [findRunIndex, href.runStarts, hub, Nat.add_sub_cancel]

lemma serves_readAt (hex : ExactSources m.sources contents) (href : m.program.Refines config map)
    (fuel : ℕ) (offset bytes : UInt64) (hs : CacheOk m contents s) :
    Serves m contents fuel (denotedByte contents map.denote) offset.toNat
      (min bytes.toNat (map.totalBytes.toNat - offset.toNat))
      (m.readAt fuel offset bytes s) := by
  have hdenote : denotedByte contents map.denote = denotedByte contents m.program.denote := by
    funext d
    rw [denotedByte, denotedByte, href.denote_eq]
  rw [readAt, href.totalBytes, hdenote]
  by_cases htriv : map.totalBytes ≤ offset ∨ bytes = 0
  · rw [if_pos htriv]
    have hzero : min bytes.toNat (map.totalBytes.toNat - offset.toNat) = 0 := by
      rcases htriv with h | h
      · rw [le_iff_toNat_le] at h
        omega
      · rw [h, UInt64.toNat_zero, zero_min]
    rw [hzero]
    exact .of_ok hs rfl
  · rw [if_neg htriv]
    obtain ⟨hlt, -⟩ := not_or.mp htriv
    rw [le_iff_toNat_le, not_le] at hlt
    obtain ⟨pre, run, post, hsplit, hidx, hcov, -, htail⟩ := findRunIndex_split href hlt
    have hdrop : m.program.runs.drop pre.length = run :: post := by
      rw [hsplit, drop_left]
    have htotal := map.totalBytes.toNat_lt
    have hcount := toNat_min_sub bytes hlt.le
    rw [hidx, hdrop, ← hcount]
    exact serves_readRuns hex href fuel _ hdrop htail hcov.1 (by omega) htotal hs

end Reads

/-! ## Sequences of calls -/

variable {map : ByteRangeMap} {program : ByteRangeProgram} {sources : List BaseSource}

section

variable {options : Options} {allocates : ℕ → UInt64 → Bool} {m : ByteRangeMappedSource}
  (h : create map program sources options allocates = .ok m)

include h

lemma create_eq_ok :
    m = { program := program, sources := sources, options := options, allocates := allocates } := by
  unfold create at h
  split_ifs at h
  rw [bind_eq_ok] at h
  obtain ⟨_, -, h⟩ := h
  exact (ok.inj h).symm

lemma valid_of_create :
    map.numSources.toNat ≤ sources.length ∧ validateSources sources map.segments = .ok () := by
  unfold create at h
  split_ifs at h with htotal hnum
  rw [bind_eq_ok] at h
  obtain ⟨_, hvalid, -⟩ := h
  exact ⟨not_lt.mp hnum, hvalid⟩

end

lemma inside_of_validateSources {segs : List ByteRangeSegment}
    (h : validateSources sources segs = .ok ()) {seg : ByteRangeSegment} (hmem : seg ∈ segs)
    (hk : seg.kind = .data) : ∃ source, sources[seg.sourceIndex.toNat]? = some source ∧
      seg.srcOffset.toNat + seg.length.toNat ≤ source.totalBytes.toNat := by
  induction segs with
  | nil => simp at hmem
  | cons first rest ih =>
    rw [validateSources] at h
    rcases mem_cons.mp hmem with rfl | hrest
    · rw [hk] at h
      simp only at h
      split at h
      · simp at h
      · rename_i source hsource
        refine ⟨source, hsource, ?_⟩
        split_ifs at h with hbounds
        obtain ⟨h1, h2⟩ := not_or.mp hbounds
        rw [UInt64.not_lt, le_iff_toNat_le] at h1 h2
        rw [toNat_sub_of_le h1] at h2
        omega
    · refine ih ?_ hrest
      split at h
      · exact h
      · split at h
        · simp at h
        · split_ifs at h
          exact h

lemma create_of_valid (options : Options) (allocates : ℕ → UInt64 → Bool)
    (htotal : map.totalBytes = program.totalBytes) (hnum : map.numSources.toNat ≤ sources.length)
    (hvalid : validateSources sources map.segments = .ok ()) :
    create map program sources options allocates = .ok
      { program := program, sources := sources, options := options, allocates := allocates } := by
  rw [create, if_neg (not_not_intro htotal), if_neg (by omega), hvalid, ok_bind]

section Calls

variable {m : ByteRangeMappedSource} {contents : ℕ → ℕ → UInt8} {config : ByteMappingConfig}
  {map : ByteRangeMap}

/-- Every call of a sequence that succeeds is right, whatever the calls before it left behind, and
without an allocation failure every call returns. -/
lemma readAtCalls_spec (hex : ExactSources m.sources contents)
    (href : m.program.Refines config map) (fuel : ℕ) (calls : List (UInt64 × UInt64)) :
    ∀ {s : ReadState}, CacheOk m contents s →
      (∀ (i : ℕ) (data : List UInt8), (m.readAtCalls fuel calls s)[i]? = some (.ok data) →
        ∃ offset bytes, calls[i]? = some (offset, bytes) ∧
          data = slice (denotedByte contents map.denote) offset.toNat
            (min bytes.toNat (map.totalBytes.toNat - offset.toNat))) ∧
      ((∀ tick k, m.allocates tick k = true) → (∀ c ∈ calls, c.2.toNat ≤ fuel) →
        (m.readAtCalls fuel calls s).length = calls.length) := by
  induction calls with
  | nil => exact fun _ => ⟨by simp [readAtCalls], fun _ _ => rfl⟩
  | cons call rest ih =>
    intro s hs
    obtain ⟨offset, bytes⟩ := call
    have hserves := serves_readAt hex href fuel offset bytes hs
    rw [readAtCalls]
    generalize m.readAt fuel offset bytes s = outcome at hserves
    rcases outcome with _ | ⟨result, s₁⟩
    · refine ⟨by simp, fun halloc hfuel => absurd rfl (hserves.returns halloc ?_)⟩
      exact (min_le_left _ _).trans (hfuel _ mem_cons_self)
    obtain ⟨hs₁, hdata⟩ := hserves.delivers result s₁ rfl
    obtain ⟨hvalues, hlength⟩ := ih hs₁
    refine ⟨fun i data h => ?_, fun halloc hfuel => ?_⟩
    · cases i with
      | zero =>
        simp only [getElem?_cons_zero, Option.some.injEq] at h
        exact ⟨offset, bytes, by simp, hdata data h⟩
      | succ i => exact hvalues i data h
    · rw [length_cons, length_cons, hlength halloc (forall_mem_cons.mp hfuel).2]

/-- At some point of some sequence of calls, a read of the mapped source delivers `data`. -/
def ByteRangeMappedSource.Reads (m : ByteRangeMappedSource) (offset bytes : UInt64)
    (data : List UInt8) : Prop :=
  ∃ (fuel : ℕ) (calls : List (UInt64 × UInt64)) (i : ℕ), calls[i]? = some (offset, bytes) ∧
    (m.readAtCalls fuel calls {})[i]? = some (.ok data)

lemma eq_slice_of_reads (hex : ExactSources m.sources contents)
    (href : m.program.Refines config map) {offset bytes : UInt64} {data : List UInt8}
    (h : m.Reads offset bytes data) :
    data = slice (denotedByte contents map.denote) offset.toNat
      (min bytes.toNat (map.totalBytes.toNat - offset.toNat)) := by
  obtain ⟨fuel, calls, i, hcall, hread⟩ := h
  obtain ⟨_, _, hcall', hdata⟩ :=
    (readAtCalls_spec hex href fuel calls (cacheOk_of_none rfl)).1 i data hread
  cases hcall.symm.trans hcall'
  exact hdata

end Calls

/-- **A mapped source delivers what its map denotes**, for any map that compiles, under any
configuration and after any history of the program cache, over exact base sources.  Each read of a
sequence that succeeds returns as many bytes as were asked for up to the end of the map, those that the
map denotes; when no allocation fails, every read returns. -/
theorem mappedSource_reads_denoted_bytes (sha256 : Sha256) (history : List CacheStep)
    (config : ByteMappingConfig) (map : ByteRangeMap) (program : ByteRangeProgram)
    (hfree : CollisionFree sha256 (⟨config, map⟩ :: history.map CacheStep.call))
    (hcompile : (compile sha256 config (cacheAfter sha256 history) map).1 = .ok program)
    (sources : List BaseSource) (options : Options) (allocates : ℕ → UInt64 → Bool)
    (m : ByteRangeMappedSource) (hcreate : create map program sources options allocates = .ok m)
    (contents : ℕ → ℕ → UInt8) (hex : ExactSources sources contents) :
    (∀ (fuel : ℕ) (calls : List (UInt64 × UInt64)) (i : ℕ) (data : List UInt8),
      (m.readAtCalls fuel calls {})[i]? = some (.ok data) →
      ∃ offset bytes, calls[i]? = some (offset, bytes) ∧
        data.length = min bytes.toNat (map.totalBytes.toNat - offset.toNat) ∧
        ∀ k < data.length, data[k]? = some (denotedByte contents map.denote (offset.toNat + k))) ∧
    ((∀ tick n, allocates tick n = true) → ∀ (fuel : ℕ) (calls : List (UInt64 × UInt64)),
      (∀ c ∈ calls, c.2.toNat ≤ fuel) →
      (m.readAtCalls fuel calls {}).length = calls.length) := by
  have href := refines_of_compile hfree hcompile
  obtain rfl := create_eq_ok hcreate
  have hcalls (fuel calls) := readAtCalls_spec (m := { program, sources, options, allocates }) hex
    href fuel calls (cacheOk_of_none (s := {}) rfl)
  refine ⟨fun fuel calls i data h => ?_, fun halloc fuel calls => (hcalls fuel calls).2 halloc⟩
  obtain ⟨offset, bytes, hcall, rfl⟩ := (hcalls fuel calls).1 i data h
  refine ⟨offset, bytes, hcall, length_slice, fun k hk => ?_⟩
  rw [length_slice] at hk
  exact getElem?_slice hk

/-- A map of three rows of two bytes at stride four and two bytes of padding, read from memory
in two calls, the second of which finds its rows in the block that the first one left. -/
theorem mappedSource_reads_denoted_bytes_rows :
    let sha256 : Sha256 := ⟨fun _ => List.replicate 32 0, fun _ => List.length_replicate⟩
    let config : ByteMappingConfig :=
      { stridedRunMinRanges := 2, stridedMinRowLenBytes := 1, stridedBlockTargetBytes := 16,
        stridedBlockMaxBytes := 64 }
    let map : ByteRangeMap :=
      { totalBytes := 8, numSources := 1
        segments := [
          { kind := .pad, dstOffset := 6, length := 2 },
          { kind := .data, dstOffset := 0, length := 2, srcOffset := 1 },
          { kind := .data, dstOffset := 2, length := 2, srcOffset := 5 },
          { kind := .data, dstOffset := 4, length := 2, srcOffset := 9 }] }
    let contents : ℕ → ℕ → UInt8 := fun _ o => UInt8.ofNat o
    let sources := [cpuMemorySource (contents 0) 12]
    let program : ByteRangeProgram :=
      { runs := [
          { kind := .strided, dstBegin := 0, dstEnd := 6, srcBase := 1, rowLen := 2, stride := 4,
            rows := 3, rowsPerBlock := 4 },
          { kind := .pad, dstBegin := 6, dstEnd := 8 }]
        runStarts := [0, 6], totalBytes := 8, mapFingerprint := replicate 16 0
        configFingerprint := replicate 16 0, stridedCandidateRuns := 1
        stridedBlockMaxBytes := 64, hasStridedRuns := true }
    let m : ByteRangeMappedSource := { program := program, sources := sources }
    (compile sha256 config (cacheAfter sha256 []) map).1 = .ok program ∧
      create map program sources {} (fun _ _ => true) = .ok m ∧
      m.readAtCalls 8 [(1, 4), (3, 9)] {} = [.ok [2, 5, 6, 9], .ok [6, 9, 10, 0, 0]] ∧
      ∀ k < 5, [6, 9, 10, 0, 0][k]? = some (denotedByte contents map.denote (3 + k)) := by
  intro sha256 config map contents sources program m
  have hcompile : (compile sha256 config (cacheAfter sha256 []) map).1 = .ok program := by
    decide +kernel
  have hcreate : create map program sources {} (fun _ _ => true) = .ok m :=
    create_of_valid _ _ rfl (by decide) (by decide +kernel)
  have hreads : m.readAtCalls 8 [(1, 4), (3, 9)] {} =
      [.ok [2, 5, 6, 9], .ok [6, 9, 10, 0, 0]] := by
    decide +kernel
  refine ⟨hcompile, hcreate, hreads, ?_⟩
  have hfree := collisionFree_singleton sha256 ⟨config, map⟩
  have hex : ExactSources sources contents :=
    exactSources_singleton (exact_cpuMemorySource _ _)
  obtain ⟨_, bytes, hcall, -, hdata⟩ := (mappedSource_reads_denoted_bytes sha256 [] config map
    program hfree hcompile sources {} (fun _ _ => true) m hcreate contents hex).1 8
    [(1, 4), (3, 9)] 1 [6, 9, 10, 0, 0] (by rw [hreads]; rfl)
  cases hcall
  exact hdata

end TensorCast.Source
