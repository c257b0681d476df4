import TensorCast.ByteRange.Program
import TensorCast.Lib.Codec

/-!
# Fingerprints of maps and configurations

The program cache is keyed by two fingerprints, the first sixteen bytes of a SHA-256 digest of a
payload.  The payloads themselves lose nothing that compilation reads: a map is determined by its
payload, and a configuration up to the capacity it asks of the cache.
-/

namespace TensorCast.ByteRange

open Core Lib List

/-- The digest function: any function to 32 bytes. -/
structure Sha256 where
  digestBytes : List UInt8 → List UInt8
  length_digestBytes : ∀ payload, (digestBytes payload).length = 32

/-- The sixteen bytes of a fingerprint. -/
abbrev ByteRangeFingerprint := List UInt8

/-! ## Payloads -/

/-- A version string, closed by a zero byte. -/
def versionBytes (version : String) : List UInt8 := version.toUTF8.data.toList ++ [0]

def SegmentKind.code : SegmentKind → UInt32
  | .data => 0
  | .pad => 1

def appendU32 (value : UInt32) : List UInt8 := leBytes 4 value.toNat

def appendU64 (value : UInt64) : List UInt8 := leBytes 8 value.toNat

def segmentPayload (seg : ByteRangeSegment) : List UInt8 :=
  appendU32 seg.kind.code ++ (appendU64 seg.dstOffset ++ (appendU64 seg.length ++
    (appendU32 seg.sourceIndex ++ appendU64 seg.srcOffset)))

/-- The hashed bytes of a map.  The number of segments is written modulo `2 ^ 32`. -/
def mapPayload (map : ByteRangeMap) : List UInt8 :=
  versionBytes "byte_range_map_v1" ++ (appendU64 map.totalBytes ++ (appendU32 map.numSources ++
    (appendU32 (UInt32.ofNat map.segments.length) ++ map.segments.flatMap segmentPayload)))

/-- The hashed bytes of a configuration. -/
def configPayload (config : ByteMappingConfig) : List UInt8 :=
  versionBytes "byte_range_config_v1" ++ ([if config.enableStridedExecution then 1 else 0] ++
    (appendU32 config.stridedRunMinRanges ++ (appendU64 config.stridedMinRowLenBytes ++
      (appendU32 config.stridedMaxAmplification ++
        (appendU64 config.stridedBlockTargetBytes ++ appendU64 config.stridedBlockMaxBytes)))))

def fingerprintByteRangeMap (sha256 : Sha256) (map : ByteRangeMap) :
    StatusOr ByteRangeFingerprint := do
  validateTotalBytes map
  let digest := sha256.digestBytes (mapPayload map)
  if digest.length < 16 then
    .error (.internal "sha256 digest too short for map fingerprint")
  else .ok (digest.take 16)

def fingerprintByteRangeConfig (sha256 : Sha256) (config : ByteMappingConfig) :
    ByteRangeFingerprint :=
  (sha256.digestBytes (configPayload config)).take 16

/-! ## Payloads lose nothing -/

@[simp] lemma length_appendU32 (value : UInt32) : (appendU32 value).length = 4 := length_leBytes _ _

@[simp] lemma length_appendU64 (value : UInt64) : (appendU64 value).length = 8 := length_leBytes _ _

lemma code_injective {k₁ k₂ : SegmentKind} (h : k₁.code = k₂.code) : k₁ = k₂ := by
  cases k₁ <;> cases k₂ <;> simp_all [SegmentKind.code]

lemma segmentPayload_inj (s t : ByteRangeSegment) (h : segmentPayload s = segmentPayload t) :
    s = t := by
  obtain ⟨hkind, h⟩ := append_inj h (by simp)
  obtain ⟨hdst, h⟩ := append_inj h (by simp)
  obtain ⟨hlen, h⟩ := append_inj h (by simp)
  obtain ⟨hidx, hsrc⟩ := append_inj h (by simp)
  obtain ⟨k, d, l, o, i⟩ := s
  obtain ⟨k', d', l', o', i'⟩ := t
  obtain rfl : k = k' := code_injective (leBytes_uint32_inj hkind)
  obtain rfl : d = d' := leBytes_uint64_inj hdst
  obtain rfl : l = l' := leBytes_uint64_inj hlen
  obtain rfl : i = i' := leBytes_uint32_inj hidx
  obtain rfl : o = o' := leBytes_uint64_inj hsrc
  rfl

lemma mapPayload_inj {m₁ m₂ : ByteRangeMap} (h : mapPayload m₁ = mapPayload m₂) : m₁ = m₂ := by
  have h := append_cancel_left h
  obtain ⟨htotal, h⟩ := append_inj h (by simp)
  obtain ⟨hnum, h⟩ := append_inj h (by simp)
  obtain ⟨-, hsegs⟩ := append_inj h (by simp)
  obtain ⟨t, n, s⟩ := m₁
  obtain ⟨t', n', s'⟩ := m₂
  obtain rfl : t = t' := leBytes_uint64_inj htotal
  obtain rfl : n = n' := leBytes_uint32_inj hnum
  obtain rfl : s = s' := flatMap_inj_of_width 32 (by decide)
    (fun a => by simp [segmentPayload]) segmentPayload_inj hsegs
  rfl

lemma configPayload_inj {c₁ c₂ : ByteMappingConfig} (h : configPayload c₁ = configPayload c₂) :
    c₁ = { c₂ with programCacheEntries := c₁.programCacheEntries } := by
  have h := append_cancel_left h
  obtain ⟨-, h⟩ := append_inj h (by simp)
  obtain ⟨hmin, h⟩ := append_inj h (by simp)
  obtain ⟨hrow, h⟩ := append_inj h (by simp)
  obtain ⟨hamp, h⟩ := append_inj h (by simp)
  obtain ⟨htarget, hmax⟩ := append_inj h (by simp)
  obtain ⟨e, p, m, r, a, t, x⟩ := c₁
  obtain ⟨e', _, m', r', a', t', x'⟩ := c₂
  obtain rfl : e = e' := by
    cases e <;> cases e' <;> simp_all
  obtain rfl : m = m' := leBytes_uint32_inj hmin
  obtain rfl : r = r' := leBytes_uint64_inj hrow
  obtain rfl : a = a' := leBytes_uint32_inj hamp
  obtain rfl : t = t' := leBytes_uint64_inj htarget
  obtain rfl : x = x' := leBytes_uint64_inj hmax
  rfl

lemma fingerprint_of_normalize (sha256 : Sha256) {map out : ByteRangeMap}
    (h : normalizeByteRangeMap map = .ok out) :
    fingerprintByteRangeMap sha256 out = .ok ((sha256.digestBytes (mapPayload out)).take 16) := by
  have hvalid : validateTotalBytes out = .ok () := by
    have hout := normalize_idempotent h
    rw [normalizeByteRangeMap, bind_eq_ok] at hout
    obtain ⟨⟨⟩, hv, -⟩ := hout
    exact hv
  rw [fingerprintByteRangeMap, hvalid, ok_bind]
  rw [if_neg (by rw [sha256.length_digestBytes]; decide)]

/-- **The payload of a fingerprint identifies its map.**  No two maps share a payload, and the payloads
of two accepted maps of one shape agree exactly when the maps denote the same bytes. -/
theorem mapPayload_identifies_map :
    (∀ (sha256 : Sha256) (map out : ByteRangeMap), normalizeByteRangeMap map = .ok out →
      fingerprintByteRangeMap sha256 out = .ok ((sha256.digestBytes (mapPayload out)).take 16)) ∧
    Function.Injective mapPayload ∧
    (∀ m₁ m₂ out₁ out₂ : ByteRangeMap, m₁.totalBytes = m₂.totalBytes →
      m₁.numSources = m₂.numSources → normalizeByteRangeMap m₁ = .ok out₁ →
      normalizeByteRangeMap m₂ = .ok out₂ →
      (mapPayload out₁ = mapPayload out₂ ↔ ∀ d, m₁.denote d = m₂.denote d)) := by
  refine ⟨fun sha256 map out h => fingerprint_of_normalize sha256 h, fun _ _ => mapPayload_inj, ?_⟩
  intro m₁ m₂ out₁ out₂ ht hn h₁ h₂
  rw [← segments_eq_iff_denote_eq ht h₁ h₂]
  constructor
  · intro h
    rw [mapPayload_inj h]
  · intro hseg
    have s₁ := normalize_spec h₁
    have s₂ := normalize_spec h₂
    rw [mapPayload, mapPayload, s₁.totalBytes, s₂.totalBytes, s₁.numSources, s₂.numSources, ht,
      hn, hseg]

end TensorCast.ByteRange
