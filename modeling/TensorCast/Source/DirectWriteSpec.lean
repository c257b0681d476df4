import TensorCast.Source.DirectWrite
import TensorCast.Source.MappedRead

/-!
# What direct writes leave in memory

The operations of a direct write denote a list of writes: for each byte of an operation, the address
that the grant gives to its va and the byte that the map denotes.  Lowering keeps that list, execution
makes the writes of the lowered steps, and a batch that cannot be served is refused before anything is
touched.  A base source may make the writes of a batch in any order; so the order must be kept, or no
address be written twice.
-/

namespace TensorCast.Source

open Core Lib ByteRange DirectMappedSource DirectWriteGrant ByteRangeRun List UInt64 Option Nat Except Prod

/-! ## Addresses -/

namespace Window

variable {w : Window} {va : UInt64}

lemma bounds_of_contains (h : w.Contains va) :
    w.vaOffset.toNat ≤ va.toNat ∧ va.toNat < w.vaOffset.toNat + w.length.toNat ∧
      w.vaOffset.toNat + w.length.toNat < 2 ^ 64 := by
  obtain ⟨hlo, hhi⟩ := h
  rw [le_iff_toNat_le] at hlo
  rw [lt_iff_toNat_lt, UInt64.toNat_add] at hhi
  have h2 := w.length.toNat_lt
  have hlt : w.vaOffset.toNat + w.length.toNat < 2 ^ 64 := by
    omega
  rw [mod_eq_of_lt hlt] at hhi
  exact ⟨hlo, hhi, hlt⟩

lemma toNat_available (h : w.Contains va) :
    (w.length - (va - w.vaOffset)).toNat = w.vaOffset.toNat + w.length.toNat - va.toNat := by
  obtain ⟨hlo, _, -⟩ := bounds_of_contains h
  have hsub : (va - w.vaOffset).toNat = va.toNat - w.vaOffset.toNat := toNat_sub_of_le hlo
  rw [toNat_sub_of_le (by omega)]
  omega

lemma contains_add (h : w.Contains va) {k : ℕ} (hk : k < (w.length - (va - w.vaOffset)).toNat) :
    w.Contains (va + ofNat k) ∧
      w.address (va + ofNat k) = w.localAddr + (va - w.vaOffset) + ofNat k := by
  obtain ⟨_, -, hlt⟩ := bounds_of_contains h
  rw [toNat_available h] at hk
  have hadd : (va + ofNat k).toNat = va.toNat + k := toNat_add_ofNat (by omega)
  refine ⟨⟨?_, ?_⟩, ?_⟩
  · rw [le_iff_toNat_le]
    omega
  · rw [lt_iff_toNat_lt, toNat_add_of_lt hlt]
    omega
  · rw [address]
    grind

end Window

namespace DirectWriteGrant

variable {grant : DirectWriteGrant}

/-- The local address of a va, where the grant covers it. -/
def addr (grant : DirectWriteGrant) (va : UInt64) : UInt64 :=
  ((grant.window? va).map (·.address va)).getD 0

def Covers (grant : DirectWriteGrant) (va : UInt64) (n : ℕ) : Prop :=
  ∀ k < n, (grant.window? (va + UInt64.ofNat k)).isSome

variable {va : UInt64} {w : Window}

lemma Covers.sub {a b n : ℕ} (h : grant.Covers va n) (hle : a + b ≤ n) :
    grant.Covers (va + ofNat a) b := by
  intro k hk
  rw [add_assoc, ← ofNat_add]
  exact h (a + k) (by omega)

lemma mem_of_window? (h : grant.window? va = some w) : w ∈ grant.windows ∧ w.Contains va :=
  ⟨mem_of_find?_eq_some h, by simpa using find?_some h⟩

lemma toNat_add_of_covers {va bytes : UInt64} (h : grant.Covers va bytes.toNat) :
    (va + bytes).toNat = va.toNat + bytes.toNat := by
  have hva := va.toNat_lt
  by_contra hne
  have hwrap : 2 ^ 64 ≤ va.toNat + bytes.toNat := by
    by_contra hlt
    exact hne (toNat_add_of_lt (by omega))
  obtain ⟨w, hw⟩ := isSome_iff_exists.mp (h (2 ^ 64 - 1 - va.toNat) (by omega))
  have hlast := Window.bounds_of_contains (mem_of_window? hw).2
  rw [toNat_add_ofNat (by omega)] at hlast
  omega

lemma window?_isSome (hw : w ∈ grant.windows) (h : w.Contains va) : (grant.window? va).isSome := by
  rw [window?, find?_isSome]
  exact ⟨w, hw, by simpa using h⟩

lemma addr_eq (hw : w ∈ grant.windows) (h : w.Contains va) : grant.addr va = w.address va := by
  obtain ⟨_, hw'⟩ := isSome_iff_exists.mp (window?_isSome hw h)
  obtain ⟨hmem, hcontains⟩ := mem_of_window? hw'
  rw [addr, hw']
  exact grant.coherent _ hmem _ hw va hcontains h

def writes (grant : DirectWriteGrant) (va : UInt64) (byte : ℕ → UInt8) (n : ℕ) :
    List (UInt64 × UInt8) :=
  (List.range n).map fun k => (grant.addr (va + UInt64.ofNat k), byte k)

@[simp] lemma writes_zero (va : UInt64) (byte : ℕ → UInt8) : grant.writes va byte 0 = [] := rfl

lemma writes_add (grant : DirectWriteGrant) (va : UInt64) (byte : ℕ → UInt8) (a b : ℕ) :
    grant.writes va byte (a + b) =
      grant.writes va byte a ++ grant.writes (va + ofNat a) (fun k => byte (a + k)) b := by
  simp only [writes, range_add, map_append, List.map_map]
  congr 1
  refine map_congr_left fun k _ => ?_
  simp only [Function.comp_apply, ofNat_add, add_assoc]

lemma writes_congr {byte byte' : ℕ → UInt8} {n : ℕ}
    (h : ∀ k < n, byte k = byte' k) : grant.writes va byte n = grant.writes va byte' n := by
  refine map_congr_left fun k hk => ?_
  rw [h k (mem_range.mp hk)]

/-! ## Walking over the windows -/

/-- A round of the loops over the windows: what is taken lies in one window. -/
structure Round (grant : DirectWriteGrant) (target : Window) (cursor remaining take : UInt64) :
    Prop where
  pos : 0 < take.toNat
  le : take.toNat ≤ remaining.toNat
  toNat_remaining : (remaining - take).toNat = remaining.toNat - take.toNat
  covers : grant.Covers cursor take.toNat
  writes_eq : ∀ byte : UInt8, (List.range take.toNat).map (fun k =>
    (target.localAddr + (cursor - target.vaOffset) + UInt64.ofNat k, byte)) =
      grant.writes cursor (fun _ => byte) take.toNat

variable {cursor remaining : UInt64} {destVaOffset bytes : UInt64}

lemma round_take {target : Window} (h : grant.window? cursor = some target) (hr : remaining ≠ 0) :
    Round grant target cursor remaining
      (min remaining (target.length - (cursor - target.vaOffset))) := by
  obtain ⟨hmem, hcontains⟩ := mem_of_window? h
  obtain ⟨-, _, -⟩ := Window.bounds_of_contains hcontains
  have havail := Window.toNat_available hcontains
  have hr' := toNat_pos hr
  have hmin := toNat_min remaining (target.length - (cursor - target.vaOffset))
  have hwithin : ∀ k < (min remaining (target.length - (cursor - target.vaOffset))).toNat,
      k < (target.length - (cursor - target.vaOffset)).toNat := by omega
  refine ⟨by omega, by omega, toNat_sub_of_le (by omega), fun k hk => ?_, fun byte => ?_⟩
  · exact window?_isSome hmem (Window.contains_add hcontains (hwithin k hk)).1
  · refine map_congr_left fun k hk => ?_
    obtain ⟨hc, haddr⟩ := Window.contains_add hcontains (hwithin k (mem_range.mp hk))
    rw [addr_eq hmem hc, haddr]

lemma Round.covers_iff {target : Window} {take : UInt64}
    (h : Round grant target cursor remaining take) :
    grant.Covers cursor remaining.toNat ↔ grant.Covers (cursor + take) (remaining - take).toNat := by
  have hle := h.le
  rw [h.toNat_remaining]
  constructor
  · intro hcov
    have hrest := hcov.sub (a := take.toNat) (b := remaining.toNat - take.toNat) (by omega)
    rwa [UInt64.ofNat_toNat] at hrest
  · intro hcov k hk
    by_cases hlt : k < take.toNat
    · exact h.covers k hlt
    · have hrest := hcov (k - take.toNat) (by omega)
      rwa [add_assoc, ← ofNat_toNat_add, Nat.add_sub_cancel' (by omega)] at hrest

lemma Covers.window?_ne_none (h : grant.Covers cursor remaining.toNat) (hr : remaining ≠ 0) :
    grant.window? cursor ≠ none := by
  have hsome := h 0 (toNat_pos hr)
  rw [show cursor + ofNat 0 = cursor from add_zero _] at hsome
  exact isSome_iff_ne_none.mp hsome

lemma validateRange_eq_ok_iff {fuel : ℕ} (hfuel : remaining.toNat ≤ fuel) :
    grant.validateRange fuel cursor remaining = .ok () ↔ grant.Covers cursor remaining.toNat := by
  induction fuel generalizing cursor remaining with
  | zero =>
    rw [le_zero.mp hfuel]
    exact ⟨fun _ k hk => absurd hk (not_lt_zero k), fun _ => rfl⟩
  | succ fuel ih =>
    rw [validateRange]
    by_cases h0 : remaining = 0
    · subst h0
      exact ⟨fun _ k hk => absurd hk (not_lt_zero k), fun _ => rfl⟩
    rw [if_neg h0]
    cases hw : grant.window? cursor with
    | none => exact ⟨nofun, fun h => absurd hw (h.window?_ne_none h0)⟩
    | some target =>
      have hround := round_take hw h0
      have hpos := hround.pos
      rw [hround.covers_iff, ih (by rw [hround.toNat_remaining]; omega)]

lemma validateDirectWriteGrantRange_eq_ok_iff :
    grant.validateDirectWriteGrantRange destVaOffset bytes = .ok () ↔
      grant.Covers destVaOffset bytes.toNat :=
  validateRange_eq_ok_iff le_rfl

lemma zeroFill_of_covers {fuel : ℕ} (hfuel : remaining.toNat ≤ fuel)
    (h : grant.Covers cursor remaining.toNat) (memory : Memory) :
    grant.zeroFill fuel cursor remaining memory =
      (.ok (), writeAll (grant.writes cursor (fun _ => 0) remaining.toNat) memory) := by
  induction fuel generalizing cursor remaining memory with
  | zero =>
    rw [le_zero.mp hfuel]
    rfl
  | succ fuel ih =>
    rw [zeroFill]
    by_cases h0 : remaining = 0
    · rw [h0]
      rfl
    rw [if_neg h0]
    cases hw : grant.window? cursor with
    | none => exact absurd hw (h.window?_ne_none h0)
    | some target =>
      have hround := round_take hw h0
      simp only
      generalize min remaining (target.length - (cursor - target.vaOffset)) = take at hround ⊢
      have hpos := hround.pos
      rw [ih (by rw [hround.toNat_remaining]; omega) (hround.covers_iff.mp h), hround.writes_eq,
        hround.toNat_remaining, ← writeAll_append]
      have hsplit := grant.writes_add cursor (fun _ => 0) take.toNat (remaining.toNat - take.toNat)
      rw [UInt64.ofNat_toNat, Nat.add_sub_cancel' hround.le] at hsplit
      rw [hsplit]

lemma zeroFillToGrant_of_covers (h : grant.Covers destVaOffset bytes.toNat) (memory : Memory) :
    grant.zeroFillToGrant destVaOffset bytes memory =
      (.ok (), writeAll (grant.writes destVaOffset (fun _ => 0) bytes.toNat) memory) :=
  zeroFill_of_covers le_rfl h memory

end DirectWriteGrant

/-! ## Base sources that write what they hold -/

/-- The writes of an operation on a base source. -/
def opWrites (grant : DirectWriteGrant) (content : ℕ → UInt8) (op : DirectWriteOp) :
    List (UInt64 × UInt8) :=
  grant.writes op.destVaOffset (fun k => content (op.srcOffset + UInt64.ofNat k).toNat)
    op.bytes.toNat

/-- **The contract of a base source that writes**, for ranges that the grant covers.  A write that
reports all of its bytes has made its writes, a batch in some order; and a batch that is refused has
touched nothing outside its operations. -/
structure DirectSource.Exact (source : DirectSource) (grant : DirectWriteGrant)
    (content : ℕ → UInt8) : Prop where
  base : source.toBaseSource.Exact content
  scalar : ∀ tick (op : DirectWriteOp) memory memory',
    grant.Covers op.destVaOffset op.bytes.toNat →
    source.readIntoAt tick op.srcOffset op.destVaOffset op.bytes grant memory =
      (.ok op.bytes, memory') →
    memory' = writeAll (opWrites grant content op) memory
  batched : source.supportsBatchedDirectWriteAt = true → ∀ tick (ops : List DirectWriteOp) memory memory',
    (∀ op ∈ ops, grant.Covers op.destVaOffset op.bytes.toNat) →
    source.readvIntoAt tick ops grant memory = (.ok (ops.map (·.bytes)).sum, memory') →
    ∃ made, made.Perm (ops.flatMap (opWrites grant content)) ∧ memory' = writeAll made memory
  refused : source.supportsBatchedDirectWriteAt = true → ∀ tick (ops : List DirectWriteOp) memory status memory',
    (∀ op ∈ ops, grant.Covers op.destVaOffset op.bytes.toNat) →
    source.readvIntoAt tick ops grant memory = (.error status, memory') →
    isPreIssueDirectWriteCapabilityMiss status →
    AgreeOff (ops.flatMap (opWrites grant content)) memory memory'

lemma exact_inlineSeekableSource (data : ℕ → UInt8) (size : UInt64) (grant : DirectWriteGrant) :
    (inlineSeekableSource data size).Exact grant data where
  base := ⟨(exact_cpuMemorySource data size).inside, (exact_cpuMemorySource data size).read,
    fun base h => by simp [inlineSeekableSource] at h⟩
  scalar tick op memory memory' hcov h := by
    simp only [inlineSeekableSource] at h
    obtain ⟨h0, h⟩ | ⟨h0, h⟩ := ite_eq_iff.mp h
    · obtain ⟨-, rfl⟩ := mk.inj h
      simp [opWrites, h0]
    split_ifs at h with hend
    · exact absurd (ok.inj (mk.inj h).1).symm h0
    rw [le_iff_toNat_le, not_le] at hend
    split at h
    · simp at h
    rename_i target htarget
    obtain ⟨hcount, rfl⟩ := mk.inj h
    have htake := ok.inj hcount
    rw [htake] at htarget ⊢
    have hin : op.srcOffset.toNat + op.bytes.toNat ≤ size.toNat := by
      have := congrArg toNat htake
      rw [toNat_min, toNat_sub_of_le hend.le] at this
      omega
    have hmem := mem_of_find?_eq_some htarget
    obtain ⟨hlo, hhi⟩ : target.vaOffset ≤ op.destVaOffset ∧
        op.destVaOffset + op.bytes ≤ target.vaOffset + target.length := by
      simpa using find?_some htarget
    have hva := toNat_add_of_covers hcov
    have hcontains : ∀ k < op.bytes.toNat, target.Contains (op.destVaOffset + ofNat k) := by
      intro k hk
      have hk' : (op.destVaOffset + ofNat k).toNat = op.destVaOffset.toNat + k :=
        toNat_add_ofNat (by have := (op.destVaOffset + op.bytes).toNat_lt; omega)
      rw [le_iff_toNat_le] at hlo hhi
      refine ⟨?_, ?_⟩
      · rw [le_iff_toNat_le]
        omega
      · rw [lt_iff_toNat_lt]
        omega
    congr 1
    refine map_congr_left fun k hk => ?_
    rw [mem_range] at hk
    have hsize := size.toNat_lt
    have hsrc : (op.srcOffset + ofNat k).toNat = op.srcOffset.toNat + k :=
      toNat_add_ofNat (by omega)
    simp only [addr_eq hmem (hcontains k hk), Window.address]
    grind
  batched h := by simp [inlineSeekableSource] at h
  refused h := by simp [inlineSeekableSource] at h

/-- The source makes the writes of a batch in the order of its operations. -/
def DirectSource.InOrder (source : DirectSource) (grant : DirectWriteGrant)
    (content : ℕ → UInt8) : Prop :=
  source.supportsBatchedDirectWriteAt = true → ∀ tick (ops : List DirectWriteOp) memory memory',
    (∀ op ∈ ops, grant.Covers op.destVaOffset op.bytes.toNat) →
    source.readvIntoAt tick ops grant memory = (.ok (ops.map (·.bytes)).sum, memory') →
    memory' = writeAll (ops.flatMap (opWrites grant content)) memory

/-- The memory changes by the given writes, in some order, or in their own if the sources keep it. -/
def Makes (inOrder : Prop) (writes : List (UInt64 × UInt8)) (memory memory' : Memory) : Prop :=
  ∃ made, made.Perm writes ∧ memory' = writeAll made memory ∧
    (inOrder → memory' = writeAll writes memory)

namespace Makes

variable {inOrder : Prop} {writes writes' : List (UInt64 × UInt8)}
  {memory memory₁ memory' : Memory}

lemma of_eq (h : memory' = writeAll writes memory) : Makes inOrder writes memory memory' :=
  ⟨writes, .rfl, h, fun _ => h⟩

lemma append (h : Makes inOrder writes memory memory₁) (h' : Makes inOrder writes' memory₁ memory') :
    Makes inOrder (writes ++ writes') memory memory' := by
  obtain ⟨made, hperm, rfl, hord⟩ := h
  obtain ⟨made', hperm', rfl, hord'⟩ := h'
  refine ⟨made ++ made', hperm.append hperm', (writeAll_append _ _ _).symm, fun h => ?_⟩
  rw [hord' h, hord h, writeAll_append]

lemma eq_writeAll (h : Makes inOrder writes memory memory')
    (hserial : inOrder ∨ (writes.map fst).Nodup) : memory' = writeAll writes memory := by
  obtain ⟨made, hperm, hmem, hord⟩ := h
  rcases hserial with hserial | hnodup
  · exact hord hserial
  · rw [hmem]
    exact writeAll_perm hperm ((hperm.map _).nodup_iff.mpr hnodup) memory

end Makes

/-! ## Execution -/

section Execution

variable {m : DirectMappedSource} {grant : DirectWriteGrant} {contents : ℕ → ℕ → UInt8}

/-- Every base source keeps the contract. -/
def DirectSources (sources : List DirectSource) (grant : DirectWriteGrant)
    (contents : ℕ → ℕ → UInt8) : Prop :=
  ∀ (i : ℕ) (source : DirectSource), sources[i]? = some source → source.Exact grant (contents i)

/-- Every base source makes the writes of a batch in order. -/
def InOrderSources (sources : List DirectSource) (grant : DirectWriteGrant)
    (contents : ℕ → ℕ → UInt8) : Prop :=
  ∀ (i : ℕ) (source : DirectSource), sources[i]? = some source → source.InOrder grant (contents i)

variable {ops : List DirectWriteOp}

/-- The operations one by one. -/
lemma executeFallback_spec {source : DirectSource} {content : ℕ → UInt8}
    (hex : source.Exact grant content) :
    ∀ {wroteBytes total : UInt64} {s s' : WriteState},
      (∀ op ∈ ops, grant.Covers op.destVaOffset op.bytes.toNat) →
      executeFallback source grant ops wroteBytes s = (.ok total, s') →
      s'.memory = writeAll (ops.flatMap (opWrites grant content)) s.memory := by
  induction ops with
  | nil =>
    intro wroteBytes total s s' _ h
    cases h
    rfl
  | cons op rest ih =>
    intro wroteBytes total s s' hcov h
    obtain ⟨hop, hrest⟩ := forall_mem_cons.mp hcov
    rw [executeFallback] at h
    split at h
    · simp at h
    · rename_i wrote memory hread
      obtain ⟨-, ⟨⟩⟩ | ⟨hshort, h⟩ := ite_eq_iff.mp h
      rw [not_not.mp hshort] at hread
      rw [ih hrest h, hex.scalar _ op _ _ hop hread, flatMap_cons, writeAll_append]

lemma executeGroupedDirectWrite_spec (hex : DirectSources m.sources grant contents)
    {sourceIndex : UInt32} (hcov : ∀ op ∈ ops, grant.Covers op.destVaOffset op.bytes.toNat)
    {total : UInt64} {s s' : WriteState}
    (h : m.executeGroupedDirectWrite sourceIndex ops grant s = (.ok total, s')) :
    Makes (InOrderSources m.sources grant contents)
      (ops.flatMap (opWrites grant (contents sourceIndex.toNat))) s.memory s'.memory := by
  obtain ⟨hnil, ⟨⟩⟩ | ⟨-, h⟩ := ite_eq_iff.mp h
  · exact .of_eq (by rw [hnil]; rfl)
  split at h
  · simp at h
  rename_i source hsource
  have hsrc := hex _ _ hsource
  obtain ⟨-, h⟩ | ⟨hbatch, h⟩ := ite_eq_iff.mp h
  · exact .of_eq (executeFallback_spec hsrc hcov h)
  rw [Bool.not_eq_false] at hbatch
  split at h
  · rename_i status memory hread
    obtain ⟨hmiss, h⟩ | ⟨-, ⟨⟩⟩ := ite_eq_iff.mp h
    -- what a refused batch has written is written over
    refine .of_eq ?_
    rw [executeFallback_spec hsrc hcov h]
    exact writeAll_of_agreeOff (hsrc.refused hbatch _ _ _ _ _ hcov hread hmiss)
  · rename_i wrote memory hread
    obtain ⟨-, ⟨⟩⟩ | ⟨hshort, ⟨⟩⟩ := ite_eq_iff.mp h
    rw [not_not.mp hshort] at hread
    obtain ⟨made, hperm, hmem⟩ := hsrc.batched hbatch _ _ _ _ hcov hread
    exact ⟨made, hperm, hmem, fun hord => hord _ _ hsource hbatch _ _ _ _ hcov hread⟩

end Execution

namespace LoweredDirectWriteStep

def writes (grant : DirectWriteGrant) (contents : ℕ → ℕ → UInt8) :
    LoweredDirectWriteStep → List (UInt64 × UInt8)
  | .pad destVaOffset bytes => grant.writes destVaOffset (fun _ => 0) bytes.toNat
  | .sourceGroup sourceIndex ops => ops.flatMap (opWrites grant (contents sourceIndex.toNat))

def Covered (grant : DirectWriteGrant) : LoweredDirectWriteStep → Prop
  | .pad destVaOffset bytes => grant.Covers destVaOffset bytes.toNat
  | .sourceGroup _ ops => ∀ op ∈ ops, grant.Covers op.destVaOffset op.bytes.toNat

end LoweredDirectWriteStep

variable {contents : ℕ → ℕ → UInt8} {grant : DirectWriteGrant}

lemma executeSteps_spec {m : DirectMappedSource} (hex : DirectSources m.sources grant contents)
    {steps : List LoweredDirectWriteStep} :
    ∀ {sourceBytes padBytes : UInt64} {counts : UInt64 × UInt64} {s s' : WriteState},
      (∀ step ∈ steps, step.Covered grant) →
      m.executeSteps grant steps sourceBytes padBytes s = (.ok counts, s') →
      Makes (InOrderSources m.sources grant contents) (steps.flatMap (·.writes grant contents))
        s.memory s'.memory := by
  induction steps with
  | nil =>
    intro sourceBytes padBytes counts s s' _ h
    cases h
    exact .of_eq rfl
  | cons step rest ih =>
    intro sourceBytes padBytes counts s s' hcov h
    obtain ⟨hstep, hrest⟩ := forall_mem_cons.mp hcov
    cases step with
    | pad destVaOffset bytes =>
      rw [executeSteps, zeroFillToGrant_of_covers hstep] at h
      exact (Makes.of_eq rfl).append (ih hrest h)
    | sourceGroup sourceIndex ops =>
      rw [executeSteps] at h
      split at h
      · simp at h
      · rename_i wrote s₁ hgroup
        exact (executeGroupedDirectWrite_spec hex hstep hgroup).append (ih hrest h)

/-! ## Lowering -/

namespace Lowering

variable {grant : DirectWriteGrant} {contents : ℕ → ℕ → UInt8} {l : Lowering}

def pendingWrites (grant : DirectWriteGrant) (contents : ℕ → ℕ → UInt8) (l : Lowering) :
    List (UInt64 × UInt8) :=
  match l.pendingSourceIndex with
  | none => []
  | some sourceIndex => l.pendingGroupOps.flatMap (opWrites grant (contents sourceIndex.toNat))

/-- The writes of the steps and of the pending group. -/
def writes (grant : DirectWriteGrant) (contents : ℕ → ℕ → UInt8) (l : Lowering) :
    List (UInt64 × UInt8) :=
  l.loweredSteps.flatMap (·.writes grant contents) ++ l.pendingWrites grant contents

/-- The invariant of lowering: a group without a source is empty, and the grant covers all that
has been lowered. -/
structure Ok (grant : DirectWriteGrant) (l : Lowering) : Prop where
  idle : l.pendingSourceIndex = none → l.pendingGroupOps = []
  steps : ∀ step ∈ l.loweredSteps, step.Covered grant
  pending : ∀ op ∈ l.pendingGroupOps, grant.Covers op.destVaOffset op.bytes.toNat

lemma ok_empty : Ok grant {} := ⟨fun _ => rfl, by simp, by simp⟩

section

variable (contents : ℕ → ℕ → UInt8) (h : Ok grant l)

include h

lemma flushPendingGroup_spec :
    Ok grant l.flushPendingGroup ∧ l.flushPendingGroup.pendingGroupOps = [] ∧
      l.flushPendingGroup.loweredSteps.flatMap (·.writes grant contents) =
        l.writes grant contents := by
  unfold flushPendingGroup
  split
  · rename_i hnone
    refine ⟨h, h.idle hnone, ?_⟩
    simp [writes, pendingWrites, hnone]
  · rename_i sourceIndex hsome
    split
    · rename_i hnil
      refine ⟨h, hnil, ?_⟩
      simp [writes, pendingWrites, hsome, hnil]
    · refine ⟨⟨fun _ => rfl, ?_, by simp⟩, rfl, ?_⟩
      · exact forall_mem_append.mpr ⟨h.steps, forall_mem_singleton.mpr h.pending⟩
      · simp [writes, pendingWrites, hsome, LoweredDirectWriteStep.writes]

lemma pushPad_spec {destVaOffset bytes : UInt64} (hcov : grant.Covers destVaOffset bytes.toNat) :
    Ok grant (l.pushPad destVaOffset bytes) ∧
      (l.pushPad destVaOffset bytes).writes grant contents =
        l.writes grant contents ++ grant.writes destVaOffset (fun _ => 0) bytes.toNat := by
  obtain ⟨hok, hops, hwrites⟩ := flushPendingGroup_spec contents h
  refine ⟨⟨hok.idle, ?_, hok.pending⟩, ?_⟩
  · exact forall_mem_append.mpr ⟨hok.steps, forall_mem_singleton.mpr hcov⟩
  · have hnil : (l.pushPad destVaOffset bytes).pendingWrites grant contents = [] := by
      simp only [pendingWrites, pushPad, hops]
      split <;> rfl
    rw [writes, hnil, ← hwrites]
    simp [pushPad, LoweredDirectWriteStep.writes]

lemma pushOp_spec (sourceIndex : UInt32)
    (op : DirectWriteOp) (hcov : grant.Covers op.destVaOffset op.bytes.toNat) :
    Ok grant (l.pushOp sourceIndex op) ∧
      (l.pushOp sourceIndex op).writes grant contents =
        l.writes grant contents ++ opWrites grant (contents sourceIndex.toNat) op := by
  unfold pushOp
  by_cases hsame : l.pendingSourceIndex = some sourceIndex
  · rw [if_pos hsame]
    refine ⟨⟨fun hnone => by simp [hsame] at hnone, h.steps, ?_⟩, ?_⟩
    · exact forall_mem_append.mpr ⟨h.pending, forall_mem_singleton.mpr hcov⟩
    · simp [writes, pendingWrites, hsame]
  · rw [if_neg hsame]
    obtain ⟨hok, hops, hwrites⟩ := flushPendingGroup_spec contents h
    refine ⟨⟨nofun, hok.steps, ?_⟩, ?_⟩
    · simpa [hops] using hcov
    · rw [← hwrites]
      simp [writes, pendingWrites, hops]

end

end Lowering

section Lower

variable {m : DirectMappedSource} {grant : DirectWriteGrant} {contents : ℕ → ℕ → UInt8}

lemma lowerRuns_of_le {destVaOffset toCopy cursor copied : UInt64} {l : Lowering}
    (h : toCopy ≤ copied) (runs : List ByteRangeRun) :
    lowerRuns destVaOffset toCopy runs cursor copied l = .ok (copied, l) := by
  cases runs with
  | nil => rfl
  | cons run rest => rw [lowerRuns, if_pos h]

/-- What lowering over some runs adds: the writes of the bytes from `cursor` on, in no strided run. -/
structure LowersTo (grant : DirectWriteGrant) (contents : ℕ → ℕ → UInt8)
    (runs : List ByteRangeRun) (byte : ℕ → UInt8) (va : UInt64) (cursor n : ℕ)
    (l l' : Lowering) : Prop where
  ok : l'.Ok grant
  writes_eq : l'.writes grant contents =
    l.writes grant contents ++ grant.writes va (fun k => byte (cursor + k)) n
  not_strided : ∀ d, cursor ≤ d → d < cursor + n → ∀ run ∈ runs,
    extent.Covers run d → run.kind ≠ .strided

variable {byte : ℕ → UInt8} {runs : List ByteRangeRun}

lemma lowersTo_zero {va : UInt64} {cursor : ℕ}
    {l : Lowering} (h : l.Ok grant) : LowersTo grant contents runs byte va cursor 0 l l :=
  ⟨h, by simp, fun d h1 h2 => by omega⟩

lemma LowersTo.cons {run : ByteRangeRun} {rest : List ByteRangeRun} {b : ℕ}
    (hrest : extent.Tiled (extent.hi run) rest b)
    (hkind : run.kind ≠ .strided) {va chunk : UInt64} {cursor n : ℕ}
    (hrun : ∀ k < chunk.toNat, extent.Covers run (cursor + k))
    (hle : chunk.toNat ≤ n) {l l₁ l' : Lowering}
    (hwrites : l₁.writes grant contents = l.writes grant contents ++
      grant.writes va (fun k => byte (cursor + k)) chunk.toNat)
    (h : LowersTo grant contents rest byte (va + chunk) (cursor + chunk.toNat) (n - chunk.toNat)
      l₁ l') :
    LowersTo grant contents (run :: rest) byte va cursor n l l' where
  ok := h.ok
  writes_eq := by
    have hsplit := grant.writes_add va (fun k => byte (cursor + k)) chunk.toNat (n - chunk.toNat)
    rw [Nat.add_sub_cancel' hle, UInt64.ofNat_toNat] at hsplit
    rw [h.writes_eq, hwrites, hsplit, append_assoc]
    simp only [add_assoc]
  not_strided d h1 h2 := by
    refine forall_mem_cons.mpr ⟨fun _ => hkind, fun run' hmem hc => ?_⟩
    by_cases hd : d < cursor + chunk.toNat
    · -- a byte of the chunk lies in no later run
      have hcovers := hrun (d - cursor) (by omega)
      rw [Nat.add_sub_cancel' h1] at hcovers
      exact absurd hc.1 (not_le.mpr (lt_of_lt_of_le hcovers.2 (hrest.inside hmem).1))
    · exact h.not_strided d (by omega) (by omega) run' hmem hc

lemma byteOf_contiguous {run : ByteRangeRun} (hk : run.kind = .contiguous) {cursor : UInt64}
    (hlo : run.dstBegin.toNat ≤ cursor.toNat) (k : ℕ) :
    byteOf contents (run.cell (cursor.toNat + k)) = contents run.sourceIndex.toNat
      (run.srcBegin + (cursor - run.dstBegin) + ofNat k).toNat := by
  have hoff : ofNat (cursor.toNat + k - run.dstBegin.toNat) =
      cursor - run.dstBegin + ofNat k := by
    rw [← ofNat_toNat_add, toNat_sub_of_le hlo]
    congr 1
    omega
  rw [cell, hk]
  simp only [byteOf]
  rw [hoff, add_assoc]

/-- **The loop over the runs** lowers an operation to the writes of its bytes. -/
lemma lowerRuns_spec {destVaOffset toCopy : UInt64} (hcov : grant.Covers destVaOffset toCopy.toNat)
    {b : ℕ} (hb : b < 2 ^ 64) :
    ∀ {a : ℕ} {cursor copied copied' : UInt64} {l l' : Lowering},
      extent.Tiled a runs b →
      (∀ run ∈ runs, ∀ d, extent.Covers run d → byte d = byteOf contents (run.cell d)) →
      a ≤ cursor.toNat → copied.toNat ≤ toCopy.toNat →
      cursor.toNat + (toCopy.toNat - copied.toNat) ≤ b → l.Ok grant →
      lowerRuns destVaOffset toCopy runs cursor copied l = .ok (copied', l') →
      LowersTo grant contents runs byte (destVaOffset + copied) cursor.toNat
        (toCopy.toNat - copied.toNat) l l' := by
  induction runs with
  | nil =>
    intro a cursor copied copied' l l' htiled _ ha hle hin hok h
    have hab : a = b := htiled
    cases h
    rw [show toCopy.toNat - copied.toNat = 0 by omega]
    exact lowersTo_zero hok
  | cons run rest ih =>
    intro a cursor copied copied' l l' htiled hbyte ha hle hin hok h
    obtain ⟨rfl, -, hrest⟩ := htiled
    obtain ⟨hhead, htail⟩ := forall_mem_cons.mp hbyte
    rw [extent_lo] at ha
    by_cases hdone : toCopy ≤ copied
    · rw [lowerRuns_of_le hdone] at h
      cases h
      rw [le_iff_toNat_le] at hdone
      rw [show toCopy.toNat - copied.toNat = 0 by omega]
      exact lowersTo_zero hok
    rw [lowerRuns, if_neg hdone] at h
    obtain ⟨hskip, h⟩ | ⟨hskip, h⟩ := ite_eq_iff.mp h
    · rw [le_iff_toNat_le] at hskip
      have hnext := ih hrest htail (hskip) hle hin hok h
      refine ⟨hnext.ok, hnext.writes_eq, fun d h1 h2 => forall_mem_cons.mpr ⟨?_, ?_⟩⟩
      · rintro ⟨-, hhi⟩
        rw [extent_hi] at hhi
        omega
      · exact hnext.not_strided d h1 h2
    rw [le_iff_toNat_le, not_le] at hskip
    rw [if_neg (by rw [lt_iff_toNat_lt]; omega)] at h
    simp only at h
    have hchunk : (min (toCopy - copied) (run.dstEnd - cursor)).toNat =
        min (toCopy.toNat - copied.toNat) (run.dstEnd.toNat - cursor.toNat) := by
      rw [toNat_min, toNat_sub_of_le hle, toNat_sub_of_le hskip.le]
    generalize min (toCopy - copied) (run.dstEnd - cursor) = chunk at h hchunk
    have hcopied : (copied + chunk).toNat = copied.toNat + chunk.toNat := by
      have := toCopy.toNat_lt
      exact toNat_add_of_lt (by omega)
    have hcursor : (cursor + chunk).toNat = cursor.toNat + chunk.toNat :=
      toNat_add_of_lt (by omega)
    have hchunkCov : grant.Covers (destVaOffset + copied) chunk.toNat := by
      have := hcov.sub (a := copied.toNat) (b := chunk.toNat) (by omega)
      rwa [UInt64.ofNat_toNat] at this
    have hinRun : ∀ k < chunk.toNat, extent.Covers run (cursor.toNat + k) := by
      intro k hk
      refine ⟨by rw [extent_lo]; omega, ?_⟩
      rw [extent_hi]
      omega
    -- the run lowers its chunk, and the rest of the runs what is left
    have hstep : ∀ l₁ : Lowering, run.kind ≠ .strided → l₁.Ok grant →
        l₁.writes grant contents = l.writes grant contents ++
          grant.writes (destVaOffset + copied) (fun k => byte (cursor.toNat + k)) chunk.toNat →
        lowerRuns destVaOffset toCopy rest (cursor + chunk) (copied + chunk) l₁ =
          .ok (copied', l') →
        LowersTo grant contents (run :: rest) byte (destVaOffset + copied) cursor.toNat
          (toCopy.toNat - copied.toNat) l l' := by
      intro l₁ hkind hok₁ hwrites h
      refine LowersTo.cons hrest hkind hinRun (by omega) hwrites ?_
      by_cases hlast : toCopy.toNat - copied.toNat ≤ run.dstEnd.toNat - cursor.toNat
      · rw [lowerRuns_of_le (by rw [le_iff_toNat_le]; omega)] at h
        cases h
        rw [show toCopy.toNat - copied.toNat - chunk.toNat = 0 by omega]
        exact lowersTo_zero hok₁
      · have hnext := ih hrest htail (by rw [extent_hi]; omega)
          (by omega) (by omega) hok₁ h
        rw [hcopied, hcursor, ← Nat.sub_sub, ← add_assoc] at hnext
        exact hnext
    cases hk : run.kind with
    | pad =>
      rw [hk] at h
      obtain ⟨hok₁, hwrites⟩ := Lowering.pushPad_spec contents hok hchunkCov
      refine hstep _ (by simp [hk]) hok₁ (hwrites.trans ?_) h
      congr 1
      refine writes_congr fun k hkc => ?_
      rw [hhead _ (hinRun k hkc), cell, hk]
      rfl
    | contiguous =>
      rw [hk] at h
      obtain ⟨hok₁, hwrites⟩ := Lowering.pushOp_spec contents hok run.sourceIndex
        { srcOffset := run.srcBegin + (cursor - run.dstBegin)
          destVaOffset := destVaOffset + copied, bytes := chunk } hchunkCov
      refine hstep _ (by simp [hk]) hok₁ (hwrites.trans ?_) h
      congr 1
      refine writes_congr fun k hkc => ?_
      rw [hhead _ (hinRun k hkc), byteOf_contiguous hk ha]
    | strided =>
      rw [hk] at h
      simp at h

/-- The writes that an operation stands for: the bytes that the map denotes. -/
def mapWrites (grant : DirectWriteGrant) (contents : ℕ → ℕ → UInt8) (map : ByteRangeMap)
    (op : DirectWriteOp) : List (UInt64 × UInt8) :=
  grant.writes op.destVaOffset
    (fun k => denotedByte contents map.denote (op.srcOffset.toNat + k)) op.bytes.toNat

/-- An operation that can be served: it lies inside the program, the grant covers it, and it
touches no strided run. -/
structure Servable (program : ByteRangeProgram) (grant : DirectWriteGrant) (op : DirectWriteOp) :
    Prop where
  inside : op.srcOffset.toNat + op.bytes.toNat ≤ program.totalBytes.toNat
  covered : grant.Covers op.destVaOffset op.bytes.toNat
  not_strided : ∀ d, op.srcOffset.toNat ≤ d → d < op.srcOffset.toNat + op.bytes.toNat →
    ∀ run ∈ program.runs, extent.Covers run d → run.kind ≠ .strided

/-- What lowering some operations has added. -/
structure Lowered (m : DirectMappedSource) (grant : DirectWriteGrant) (contents : ℕ → ℕ → UInt8)
    (map : ByteRangeMap) (ops : List DirectWriteOp) (l l' : Lowering) : Prop where
  ok : l'.Ok grant
  writes_eq : l'.writes grant contents =
    l.writes grant contents ++ ops.flatMap (mapWrites grant contents map)
  servable : ∀ op ∈ ops, op.bytes ≠ 0 → Servable m.program grant op

variable {config : ByteMappingConfig} {map : ByteRangeMap}

lemma lowerOp_spec (href : m.program.Refines config map) {op : DirectWriteOp} {l l' : Lowering}
    (hok : l.Ok grant) (h : m.lowerOp grant op l = .ok l') :
    Lowered m grant contents map [op] l l' := by
  obtain ⟨h0, ⟨⟩⟩ | ⟨h0, h⟩ := ite_eq_iff.mp h
  · exact ⟨hok, by simp [mapWrites, h0], by simp [h0]⟩
  obtain ⟨-, ⟨⟩⟩ | ⟨hstart, h⟩ := ite_eq_iff.mp h
  obtain ⟨-, ⟨⟩⟩ | ⟨hend, h⟩ := ite_eq_iff.mp h
  have hin := (bounds_check_iff h0).mp ⟨hstart, hend⟩
  have htotal : m.program.totalBytes.toNat = map.totalBytes.toNat := by rw [href.totalBytes]
  obtain ⟨_, hgrant, h⟩ := bind_eq_ok.mp h
  have hcov := validateDirectWriteGrantRange_eq_ok_iff.mp hgrant
  obtain ⟨⟨_, _⟩, hruns, h⟩ := bind_eq_ok.mp h
  simp only at h
  split_ifs at h
  cases h
  -- the runs from the one that holds the first byte on
  have hb0 := toNat_pos h0
  have hlt : op.srcOffset.toNat < map.totalBytes.toNat := by omega
  obtain ⟨pre, run, post, hsplit, hidx, hcovers, hpre, htail⟩ :=
    findRunIndex_split (m := m.toMappedSource) href hlt
  replace hsplit : m.program.runs = pre ++ run :: post := hsplit
  rw [hidx, hsplit, drop_left] at hruns
  have hmem : ∀ run' ∈ run :: post, run' ∈ m.program.runs := by
    intro run' h'
    rw [hsplit]
    exact mem_append_right _ h'
  have hbyte : ∀ run' ∈ run :: post, ∀ d, extent.Covers run' d →
      denotedByte contents map.denote d = byteOf contents (run'.cell d) := by
    intro run' h' d hd
    rw [← denotedByte_of_mem href.tiled (hmem run' h') hd, denotedByte, ← href.denote_eq]
    rfl
  have hspec := lowerRuns_spec hcov map.totalBytes.toNat_lt htail hbyte hcovers.1
    (zero_le _) (by omega) hok hruns
  refine ⟨hspec.ok, ?_, ?_⟩
  · rw [hspec.writes_eq]
    simp [mapWrites]
  · intro op' hop' _
    rw [mem_singleton.mp hop']
    refine ⟨hin, hcov, fun d h1 h2 run' hrun' hd => ?_⟩
    -- earlier runs end before the operation starts
    rw [hsplit] at hrun'
    rcases mem_append.mp hrun' with hbefore | hpost
    · have hend := (hpre.inside hbefore).2.2
      have hstart := hcovers.1
      exact absurd hd.2 (by omega)
    · exact hspec.not_strided d h1 h2 run' hpost hd

variable {ops : List DirectWriteOp}

lemma lowerOps_spec (href : m.program.Refines config map) :
    ∀ {l l' : Lowering}, l.Ok grant → m.lowerOps grant ops l = .ok l' →
      (∀ step ∈ l'.loweredSteps, step.Covered grant) ∧
      l'.loweredSteps.flatMap (·.writes grant contents) =
        l.writes grant contents ++ ops.flatMap (mapWrites grant contents map) ∧
      ∀ op ∈ ops, op.bytes ≠ 0 → Servable m.program grant op := by
  induction ops with
  | nil =>
    intro l l' hok h
    cases h
    obtain ⟨hflush, -, hwrites⟩ := Lowering.flushPendingGroup_spec contents hok
    exact ⟨hflush.steps, by simpa using hwrites, by simp⟩
  | cons op rest ih =>
    intro l l' hok h
    rw [lowerOps, bind_eq_ok] at h
    obtain ⟨l₁, hop, hrest⟩ := h
    have hlow : Lowered m grant contents map [op] l l₁ := lowerOp_spec href hok hop
    obtain ⟨hsteps, hwrites, hserv⟩ := ih hlow.ok hrest
    refine ⟨hsteps, ?_, forall_mem_cons.mpr ⟨?_, hserv⟩⟩
    · rw [hwrites, hlow.writes_eq]
      simp
    · exact hlow.servable op (mem_singleton.mpr rfl)

lemma expectedOutputBytes_spec {expected n : UInt64}
    (h : expectedOutputBytes ops expected = .ok n) :
    n.toNat = expected.toNat + (ops.map (·.bytes.toNat)).sum := by
  induction ops generalizing expected with
  | nil =>
    rw [← ok.inj h]
    simp
  | cons op rest ih =>
    rw [expectedOutputBytes] at h
    split_ifs at h with hover
    have hmax : (0xffffffffffffffff : UInt64).toNat = 2 ^ 64 - 1 := rfl
    have hlt := op.bytes.toNat_lt
    rw [lt_iff_toNat_lt, toNat_sub_of_le (by omega)] at hover
    rw [ih h, toNat_add_of_lt (by omega), map_cons, sum_cons]
    omega

/-- The writes that store the bytes of a read at the destination of an operation. -/
def readWrites (grant : DirectWriteGrant) (op : DirectWriteOp) (data : List UInt8) :
    List (UInt64 × UInt8) :=
  grant.writes op.destVaOffset (fun k => data.getD k 0) data.length

lemma readWrites_eq_mapWrites (hex : ExactSources m.toMappedSource.sources contents)
    (href : m.program.Refines config map) {op : DirectWriteOp}
    (hserv : op.bytes ≠ 0 → Servable m.program grant op) {data : List UInt8}
    (h : m.toMappedSource.Reads op.srcOffset op.bytes data) :
    readWrites grant op data = mapWrites grant contents map op := by
  have hdata := eq_slice_of_reads hex href h
  have htotal : m.program.totalBytes.toNat = map.totalBytes.toNat := by rw [href.totalBytes]
  have hlen : min op.bytes.toNat (map.totalBytes.toNat - op.srcOffset.toNat) =
      op.bytes.toNat := by
    by_cases h0 : op.bytes = 0
    · rw [h0, UInt64.toNat_zero, zero_min]
    · have := (hserv h0).inside
      omega
  rw [hlen] at hdata
  rw [readWrites, hdata, length_slice]
  refine writes_congr fun k hk => ?_
  rw [getD_eq_getElem?_getD, getElem?_slice hk, getD_some]

/-- A call that succeeds has made the writes of its operations, all of which can be served; a call
with an operation that cannot be served changes nothing. -/
lemma readvIntoAt_spec (hex : DirectSources m.sources grant contents)
    (href : m.program.Refines config map) {s s' : WriteState} {result : StatusOr UInt64}
    (hcall : m.readvIntoAt ops grant s = (result, s')) :
    (∀ n, result = .ok n → n.toNat = (ops.map (·.bytes.toNat)).sum ∧
      Makes (InOrderSources m.sources grant contents) (ops.flatMap (mapWrites grant contents map))
        s.memory s'.memory ∧
      ∀ op ∈ ops, op.bytes ≠ 0 → Servable m.program grant op) ∧
    ((∃ op ∈ ops, op.bytes ≠ 0 ∧ ¬ Servable m.program grant op) →
      (∃ status, result = .error status) ∧ s' = s) := by
  obtain ⟨-, ⟨⟩⟩ | ⟨-, hcall⟩ := ite_eq_iff.mp hcall
  · exact ⟨fun n h => by simp at h, fun _ => ⟨⟨_, rfl⟩, rfl⟩⟩
  obtain ⟨hnil, ⟨⟩⟩ | ⟨-, hcall⟩ := ite_eq_iff.mp hcall
  · subst hnil
    exact ⟨fun n h => ⟨by rw [← ok.inj h]; rfl, .of_eq rfl, by simp⟩, by simp⟩
  cases hlower : m.lower grant ops with
  | error status =>
    rw [hlower] at hcall
    cases hcall
    exact ⟨fun n h => by simp at h, fun _ => ⟨⟨_, rfl⟩, rfl⟩⟩
  | ok lowered =>
    rw [hlower] at hcall
    obtain ⟨_, hexpected, hlower⟩ := bind_eq_ok.mp hlower
    obtain ⟨l, hops, ⟨⟩⟩ := bind_eq_ok.mp hlower
    obtain ⟨hcov, hwrites, hserv⟩ := lowerOps_spec href Lowering.ok_empty hops
    have hsum := expectedOutputBytes_spec hexpected
    rw [UInt64.toNat_zero, zero_add] at hsum
    refine ⟨fun n h => ?_, fun ⟨op, hop, h0, hbad⟩ => absurd (hserv op hop h0) hbad⟩
    simp only at hcall
    split at hcall
    · rw [← (Prod.mk.inj hcall).1] at h
      simp at h
    · rename_i sourceBytes padBytes s₁ hexec
      have hmakes := executeSteps_spec hex hcov hexec
      rw [hwrites] at hmakes
      split_ifs at hcall
      · rw [← (mk.inj hcall).1] at h
        simp at h
      · cases hcall
        exact ⟨by rw [← ok.inj h, hsum], hmakes, hserv⟩

end Lower

variable {sources : List DirectSource}

lemma createDirect_eq_ok {map : ByteRangeMap} {program : ByteRangeProgram} {options : Options}
    {enableDirectWriteAt : Bool} {allocates : ℕ → UInt64 → Bool} {m : DirectMappedSource}
    (h : createDirect map program sources options enableDirectWriteAt allocates = .ok m) :
    m.program = program ∧ m.sources = sources := by
  rw [createDirect, bind_eq_ok] at h
  obtain ⟨_, -, h⟩ := h
  rw [← ok.inj h]
  exact ⟨rfl, rfl⟩

lemma exactSources_of_directSources (h : DirectSources sources grant contents) :
    ExactSources (sources.map (·.toBaseSource)) contents := by
  intro i source hi
  rw [getElem?_map, map_eq_some_iff] at hi
  obtain ⟨direct, hdirect, rfl⟩ := hi
  exact (h i direct hdirect).base

end TensorCast.Source
