import TensorCast.ByteRange.Fingerprint
import TensorCast.Lib.Lru

/-!
# Compilation through the program cache

All compilers share one cache of programs, keyed by the fingerprints of the normalized map and of the
configuration.  A call of `compile` sets the capacity, looks its key up and, on a miss, builds and
inserts the program; each of the three takes the lock on its own, so the steps of calls interleave.
Every entry holds the program that a cold cache would produce for its key (`Faithful`), as long as the
calls that ever touched the cache do not collide with each other.
-/

namespace TensorCast.ByteRange

open Core Lib List

/-! ## The code -/

structure ByteRangeProgram where
  runs : List ByteRangeRun := []
  runStarts : List UInt64 := []
  totalBytes : UInt64 := 0
  mapFingerprint : ByteRangeFingerprint := []
  configFingerprint : ByteRangeFingerprint := []
  stridedCandidateRuns : UInt64 := 0
  stridedCompileFallbackRuns : UInt64 := 0
  stridedBlockMaxBytes : UInt64 := 0
  hasStridedRuns : Bool := false
deriving DecidableEq, Repr

structure CacheKey where
  mapFingerprint : ByteRangeFingerprint
  configFingerprint : ByteRangeFingerprint
deriving DecidableEq, Repr

structure CacheEntry where
  program : ByteRangeProgram
  totalBytes : UInt64
  numSources : UInt32
  segmentCount : ℕ
deriving DecidableEq, Repr

abbrev ByteRangeProgramCache := Lru CacheKey CacheEntry

/-- The process-wide cache before its first use. -/
def programCache : ByteRangeProgramCache := Lru.empty 256

namespace ByteRangeProgramCache

/-- A hit moves the key to the front; an entry of another shape is a collision and goes. -/
def lookup (cache : ByteRangeProgramCache) (key : CacheKey) (map : ByteRangeMap) :
    Option ByteRangeProgram × ByteRangeProgramCache :=
  match cache.find? key with
  | none => (none, cache)
  | some entry =>
    if entry.totalBytes ≠ map.totalBytes ∨ entry.numSources ≠ map.numSources ∨
        entry.segmentCount ≠ map.segments.length then (none, cache.erase key)
    else (some entry.program, cache.touch key)

def insertProgram (cache : ByteRangeProgramCache) (key : CacheKey) (map : ByteRangeMap)
    (program : ByteRangeProgram) : ByteRangeProgramCache :=
  cache.insert key
    { program := program, totalBytes := map.totalBytes, numSources := map.numSources,
      segmentCount := map.segments.length }

end ByteRangeProgramCache

def prepare (sha256 : Sha256) (config : ByteMappingConfig) (map : ByteRangeMap) :
    StatusOr (ByteRangeMap × CacheKey) := do
  let normalized ← normalizeByteRangeMap map
  let mapFingerprint ← fingerprintByteRangeMap sha256 normalized
  .ok (normalized, ⟨mapFingerprint, fingerprintByteRangeConfig sha256 config⟩)

def buildProgram (config : ByteMappingConfig) (normalized : ByteRangeMap) (key : CacheKey) :
    ByteRangeProgram :=
  let out := compileRuns config normalized.segments
  { runs := out.runs
    runStarts := out.runs.map (·.dstBegin)
    totalBytes := normalized.totalBytes
    mapFingerprint := key.mapFingerprint
    configFingerprint := key.configFingerprint
    stridedCandidateRuns := out.stridedCandidateRuns
    stridedCompileFallbackRuns := out.stridedCompileFallbackRuns
    stridedBlockMaxBytes := config.stridedBlockMaxBytes
    hasStridedRuns := out.hasStridedRuns }

def compile (sha256 : Sha256) (config : ByteMappingConfig) (cache : ByteRangeProgramCache)
    (map : ByteRangeMap) : StatusOr ByteRangeProgram × ByteRangeProgramCache :=
  match prepare sha256 config map with
  | .error status => (.error status, cache)
  | .ok (normalized, key) =>
    let cache := cache.setCapacity config.programCacheEntries.toNat
    match ByteRangeProgramCache.lookup cache key normalized with
    | (some cached, cache) => (.ok cached, cache)
    | (none, cache) =>
      let program := buildProgram config normalized key
      (.ok program, ByteRangeProgramCache.insertProgram cache key normalized program)

/-! ## Histories of the cache -/

structure Call where
  config : ByteMappingConfig
  map : ByteRangeMap
deriving DecidableEq, Repr

/-- The steps that calls take on the cache under its lock. -/
inductive CacheStep
  | setCapacity (call : Call)
  | lookup (call : Call)
  | insert (call : Call)
deriving DecidableEq, Repr

def CacheStep.call : CacheStep → Call
  | .setCapacity call => call
  | .lookup call => call
  | .insert call => call

/-- The effect of a step.  A call whose map is rejected never reaches the cache. -/
def CacheStep.apply (sha256 : Sha256) (cache : ByteRangeProgramCache) (step : CacheStep) :
    ByteRangeProgramCache :=
  match prepare sha256 step.call.config step.call.map with
  | .error _ => cache
  | .ok (normalized, key) =>
    match step with
    | .setCapacity call => cache.setCapacity call.config.programCacheEntries.toNat
    | .lookup _ => (ByteRangeProgramCache.lookup cache key normalized).2
    | .insert call => ByteRangeProgramCache.insertProgram cache key normalized
        (buildProgram call.config normalized key)

def cacheAfter (sha256 : Sha256) (history : List CacheStep) : ByteRangeProgramCache :=
  history.foldl (CacheStep.apply sha256) programCache

def cacheAfterCalls (sha256 : Sha256) (calls : List Call) : ByteRangeProgramCache :=
  calls.foldl (fun cache call => (compile sha256 call.config cache call.map).2) programCache

def CollisionFree (sha256 : Sha256) (calls : List Call) : Prop :=
  ∀ c₁ ∈ calls, ∀ c₂ ∈ calls, ∀ n₁ k₁ n₂ k₂,
    prepare sha256 c₁.config c₁.map = .ok (n₁, k₁) →
    prepare sha256 c₂.config c₂.map = .ok (n₂, k₂) →
    (k₁.mapFingerprint = k₂.mapFingerprint → mapPayload n₁ = mapPayload n₂) ∧
    (k₁.configFingerprint = k₂.configFingerprint →
      configPayload c₁.config = configPayload c₂.config)

lemma collisionFree_singleton (sha256 : Sha256) (call : Call) : CollisionFree sha256 [call] := by
  intro c₁ h₁ c₂ h₂ n₁ k₁ n₂ k₂ hp₁ hp₂
  rw [mem_singleton] at h₁ h₂
  subst h₁ h₂
  cases hp₁.symm.trans hp₂
  exact ⟨fun _ => rfl, fun _ => rfl⟩

/-! ## Compilation without a hit -/

namespace ByteRangeProgram

def denote (program : ByteRangeProgram) (d : ℕ) : Option Cell :=
  ByteRangeRun.extent.denote ByteRangeRun.cell program.runs d

/-- The runs of the program follow each other through the destination of the map, denote what the map
denotes, and the strided ones are well formed. -/
structure Refines (config : ByteMappingConfig) (map : ByteRangeMap)
    (program : ByteRangeProgram) : Prop where
  totalBytes : program.totalBytes = map.totalBytes
  tiled : ByteRangeRun.extent.Tiled 0 program.runs map.totalBytes.toNat
  denote_eq : ∀ d, program.denote d = map.denote d
  runStarts : program.runStarts = program.runs.map (·.dstBegin)
  wellFormed : ∀ r ∈ program.runs, r.kind = .strided → r.WellFormed config
  blockMax : program.stridedBlockMaxBytes = config.stridedBlockMaxBytes

end ByteRangeProgram

variable {sha256 : Sha256} {config : ByteMappingConfig} {map normalized : ByteRangeMap}

lemma prepare_eq_ok {key : CacheKey} (h : prepare sha256 config map = .ok (normalized, key)) :
    normalizeByteRangeMap map = .ok normalized := by
  simp only [prepare, bind_eq_ok] at h
  obtain ⟨n, hn, _, -, hout⟩ := h
  cases Except.ok.inj hout
  exact hn

variable {map : ByteRangeMap} {program : ByteRangeProgram}

lemma prepare_of_accepted (sha256 : Sha256) (config : ByteMappingConfig) (h : map.Accepted) :
    ∃ normalized key, prepare sha256 config map = .ok (normalized, key) := by
  obtain ⟨n, hn⟩ := (isOk_normalize_iff map).mpr h
  have hfp := fingerprint_of_normalize sha256 hn
  exact ⟨n, ⟨_, fingerprintByteRangeConfig sha256 config⟩, by
    rw [prepare, hn, ok_bind, hfp, ok_bind]⟩

lemma buildProgram_refines (key : CacheKey) (h : normalizeByteRangeMap map = .ok normalized) :
    (buildProgram config normalized key).Refines config map := by
  have hn := normalize_spec h
  have hspec := compileRuns_spec config normalized.totalBytes.toNat_lt hn.canonical.tiled
  refine ⟨hn.totalBytes, ?_, fun d => ?_, rfl, hspec.wellFormed, rfl⟩
  · rw [← hn.totalBytes]
    exact hspec.tiled
  · rw [← hn.denote_eq]
    exact hspec.denote_eq d

lemma compile_cold {key : CacheKey} (h : prepare sha256 config map = .ok (normalized, key)) :
    (compile sha256 config programCache map).1 = .ok (buildProgram config normalized key) := by
  rw [compile, h]
  rfl

lemma refines_of_compile_cold (h : (compile sha256 config programCache map).1 = .ok program) :
    program.Refines config map := by
  cases hp : prepare sha256 config map with
  | error status =>
    rw [compile, hp] at h
    simp at h
  | ok prepared =>
    rw [compile_cold hp] at h
    rw [← Except.ok.inj h]
    exact buildProgram_refines _ (prepare_eq_ok hp)

/-! ## The cache only shortens the way -/

lemma compileRuns_programCacheEntries (config : ByteMappingConfig) (n : UInt32)
    (segs : List ByteRangeSegment) :
    compileRuns { config with programCacheEntries := n } segs = compileRuns config segs := by
  have hloop : ∀ fuel segs out,
      compileLoop { config with programCacheEntries := n } fuel segs out =
        compileLoop config fuel segs out := by
    intro fuel
    induction fuel with
    | zero => intro segs out; rfl
    | succ fuel ih =>
      intro segs out
      cases segs with
      | nil => rfl
      | cons seg rest =>
        rw [compileLoop, compileLoop]
        split
        · exact ih rest out
        · exact ih _ _
  exact hloop _ _ _

section Faithful

variable {sha256 : Sha256} {calls : List Call}

/-- The entry holds the program that one of the calls would build for the key. -/
def Faithful (sha256 : Sha256) (calls : List Call) (key : CacheKey) (entry : CacheEntry) : Prop :=
  ∃ call ∈ calls, ∃ normalized, prepare sha256 call.config call.map = .ok (normalized, key) ∧
    entry.program = buildProgram call.config normalized key

lemma buildProgram_eq_of_key (hfree : CollisionFree sha256 calls) {c₁ c₂ : Call} (h₁ : c₁ ∈ calls)
    (h₂ : c₂ ∈ calls) {n₁ n₂ : ByteRangeMap} {key : CacheKey}
    (hp₁ : prepare sha256 c₁.config c₁.map = .ok (n₁, key))
    (hp₂ : prepare sha256 c₂.config c₂.map = .ok (n₂, key)) :
    buildProgram c₁.config n₁ key = buildProgram c₂.config n₂ key := by
  obtain ⟨hmap, hconfig⟩ := hfree c₁ h₁ c₂ h₂ n₁ key n₂ key hp₁ hp₂
  obtain rfl : n₁ = n₂ := mapPayload_inj (hmap rfl)
  have hc := configPayload_inj (hconfig rfl)
  have hruns : compileRuns c₁.config n₁.segments = compileRuns c₂.config n₁.segments := by
    rw [hc]
    exact compileRuns_programCacheEntries _ _ _
  have hmax : c₁.config.stridedBlockMaxBytes = c₂.config.stridedBlockMaxBytes := by rw [hc]
  simp only [buildProgram, hruns, hmax]

variable {cache : ByteRangeProgramCache}

section

variable (h : cache.All (Faithful sha256 calls))

include h

lemma faithful_lookup (key : CacheKey) (map : ByteRangeMap) :
    (ByteRangeProgramCache.lookup cache key map).2.All (Faithful sha256 calls) := by
  unfold ByteRangeProgramCache.lookup
  split
  · exact h
  · split
    · exact h.erase key
    · exact h.touch key

lemma program_of_lookup_eq_some (key : CacheKey) {map : ByteRangeMap} {program : ByteRangeProgram}
    (hit : (ByteRangeProgramCache.lookup cache key map).1 = some program) :
    ∃ call ∈ calls, ∃ normalized, prepare sha256 call.config call.map = .ok (normalized, key) ∧
      program = buildProgram call.config normalized key := by
  unfold ByteRangeProgramCache.lookup at hit
  split at hit
  · simp at hit
  · rename_i entry hfind
    split at hit
    · simp at hit
    · obtain ⟨call, hcall, n, hp, hprog⟩ := h.find? hfind
      exact ⟨call, hcall, n, hp, by rw [← hprog, ← Option.some.inj hit]⟩

lemma faithful_step {step : CacheStep} (hstep : step.call ∈ calls) :
    (step.apply sha256 cache).All (Faithful sha256 calls) := by
  unfold CacheStep.apply
  split
  · exact h
  · rename_i normalized key hp
    cases step with
    | setCapacity call => exact h.setCapacity _
    | lookup call => exact faithful_lookup h key normalized
    | insert call => exact h.insert ⟨call, hstep, normalized, hp, rfl⟩

lemma faithful_run {history : List CacheStep} (hsteps : ∀ step ∈ history, step.call ∈ calls) :
    (history.foldl (CacheStep.apply sha256) cache).All (Faithful sha256 calls) := by
  induction history generalizing cache with
  | nil => exact h
  | cons step rest ih =>
    obtain ⟨hstep, hrest⟩ := forall_mem_cons.mp hsteps
    exact ih (faithful_step h hstep) hrest

end

lemma compile_eq_cold {config : ByteMappingConfig}
    {map : ByteRangeMap} (hcall : ⟨config, map⟩ ∈ calls) (hfree : CollisionFree sha256 calls)
    (h : cache.All (Faithful sha256 calls)) :
    (compile sha256 config cache map).1 = (compile sha256 config programCache map).1 := by
  cases hp : prepare sha256 config map with
  | error status => rw [compile, compile, hp]
  | ok prepared =>
    obtain ⟨_, key⟩ := prepared
    rw [compile_cold hp, compile, hp]
    simp only
    have hcap := h.setCapacity config.programCacheEntries.toNat
    split
    · rename_i program cache' hlook
      obtain ⟨call, hmem, n, hp', rfl⟩ := program_of_lookup_eq_some hcap key (by rw [hlook])
      rw [buildProgram_eq_of_key hfree hmem hcall hp' hp]
    · rfl

end Faithful

lemma compile_steps (sha256 : Sha256) (cache : ByteRangeProgramCache) (call : Call) :
    ∃ steps : List CacheStep, (∀ s ∈ steps, s.call = call) ∧
      (compile sha256 call.config cache call.map).2 =
        steps.foldl (CacheStep.apply sha256) cache := by
  cases hp : prepare sha256 call.config call.map with
  | error status => exact ⟨[], by simp, by rw [compile, hp]; rfl⟩
  | ok prepared =>
    rw [compile, hp]
    simp only
    split
    · rename_i program cache' hlook
      refine ⟨[.setCapacity call, .lookup call], by simp [CacheStep.call], ?_⟩
      simp [CacheStep.apply, CacheStep.call, hp, hlook]
    · rename_i cache' hlook
      refine ⟨[.setCapacity call, .lookup call, .insert call], by simp [CacheStep.call], ?_⟩
      simp [CacheStep.apply, CacheStep.call, hp, hlook]

lemma cacheAfterCalls_eq (sha256 : Sha256) (calls : List Call) :
    ∃ history : List CacheStep, (∀ step ∈ history, step.call ∈ calls) ∧
      cacheAfterCalls sha256 calls = cacheAfter sha256 history := by
  unfold cacheAfterCalls cacheAfter
  generalize programCache = cache
  induction calls generalizing cache with
  | nil => exact ⟨[], by simp, rfl⟩
  | cons call rest ih =>
    obtain ⟨steps, hsteps, hcache⟩ := compile_steps sha256 cache call
    obtain ⟨later, hlater, hrest⟩ := ih (compile sha256 call.config cache call.map).2
    refine ⟨steps ++ later, forall_mem_append.mpr ⟨fun s hs => ?_, fun s hs => ?_⟩, ?_⟩
    · rw [hsteps s hs]
      exact mem_cons_self
    · exact mem_cons_of_mem _ (hlater s hs)
    · rw [foldl_append, ← hcache, foldl_cons, hrest]

lemma refines_of_compile {history : List CacheStep}
    (hfree : CollisionFree sha256 (⟨config, map⟩ :: history.map CacheStep.call))
    (h : (compile sha256 config (cacheAfter sha256 history) map).1 = .ok program) :
    program.Refines config map := by
  have hcold := compile_eq_cold mem_cons_self hfree
    (faithful_run (Lru.all_empty 256) fun step hs => mem_cons_of_mem _ (mem_map_of_mem hs))
  exact refines_of_compile_cold (hcold.symm.trans h)

/-- **Compilation refines the map, whatever the cache holds.**  A cold compilation of an accepted map
returns a program that refines it; and after any interleaving of the steps of other calls the result
is that of a cold cache, as long as the fingerprints of these calls do not collide. -/
theorem compile_refines_map (sha256 : Sha256) :
    (∀ (config : ByteMappingConfig) (map : ByteRangeMap), map.Accepted →
      ∃ program, (compile sha256 config programCache map).1 = .ok program ∧
        program.Refines config map) ∧
    (∀ (history : List CacheStep) (config : ByteMappingConfig) (map : ByteRangeMap),
      CollisionFree sha256 (⟨config, map⟩ :: history.map CacheStep.call) →
      (compile sha256 config (cacheAfter sha256 history) map).1 =
        (compile sha256 config programCache map).1) ∧
    (∀ (calls : List Call) (config : ByteMappingConfig) (map : ByteRangeMap),
      CollisionFree sha256 (⟨config, map⟩ :: calls) →
      (compile sha256 config (cacheAfterCalls sha256 calls) map).1 =
        (compile sha256 config programCache map).1) := by
  refine ⟨fun config map h => ?_, fun history config map hfree => ?_,
    fun calls config map hfree => ?_⟩
  · obtain ⟨_, key, hp⟩ := prepare_of_accepted sha256 config h
    exact ⟨_, compile_cold hp, buildProgram_refines key (prepare_eq_ok hp)⟩
  · refine compile_eq_cold mem_cons_self hfree (faithful_run (Lru.all_empty 256) ?_)
    exact fun step hs => mem_cons_of_mem _ (mem_map_of_mem hs)
  · obtain ⟨history, hsteps, hcache⟩ := cacheAfterCalls_eq sha256 calls
    rw [hcache]
    refine compile_eq_cold mem_cons_self hfree (faithful_run (Lru.all_empty 256) ?_)
    exact fun step hs => mem_cons_of_mem _ (hsteps step hs)

end TensorCast.ByteRange
