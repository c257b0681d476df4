import TensorCast.Source.MappedRead

/-!
# A source with a fallback

`MuxSeekableSource` reads from a primary source and completes from a fallback what the primary
does not deliver.
-/

namespace TensorCast.Source

open Core Lib List

/-- `MuxSeekableSource::read_at`.  A primary that fails has read nothing. -/
def muxReadAt (primary fallback : BaseSource) (tick : ℕ) (offset bytesToRead : UInt64) :
    StatusOr (List UInt8) :=
  let read := (primary.readAt tick offset bytesToRead).toOption.getD []
  let remainder := if read.length < bytesToRead.toNat then
      fallback.readAt tick (offset + .ofNat read.length) (bytesToRead - .ofNat read.length)
    else .ok []
  match remainder with
  | .error status => if read = [] then .error status else .ok read
  | .ok rest =>
    if (read ++ rest).length ≠ bytesToRead.toNat then
      .error (.dataLoss "MuxSeekableSource short read before expected EOF")
    else .ok (read ++ rest)

def muxSeekableSource (primary fallback : BaseSource) : BaseSource :=
  let total :=
    if primary.totalBytes < fallback.totalBytes then fallback.totalBytes else primary.totalBytes
  { totalBytes := total
    readAt tick offset bytes :=
      if total ≤ offset ∨ bytes = 0 then .ok []
      else muxReadAt primary fallback tick offset (min bytes (total - offset)) }

variable {primary fallback : BaseSource} {content : ℕ → UInt8}

lemma BaseSource.Exact.getD_readAt (h : primary.Exact content) (tick : ℕ) (offset n : UInt64) :
    ∃ read, (primary.readAt tick offset n).toOption.getD [] = read ∧
      read = slice content offset.toNat read.length ∧
      (read ≠ [] → primary.readAt tick offset n = .ok read) := by
  cases hread : primary.readAt tick offset n with
  | error status => exact ⟨[], rfl, rfl, by simp⟩
  | ok data => exact ⟨data, rfl, h.read _ _ _ _ hread, fun _ => rfl⟩

/-- **What a read delivers** over two sources of one content: an error, all that was asked for, or
what the primary has read before the fallback failed. -/
theorem muxSeekableSource_reads (hprimary : primary.Exact content)
    (hfallback : fallback.Exact content) (hsize : primary.totalBytes = fallback.totalBytes)
    (tick : ℕ) (offset bytes : UInt64) (hoffset : offset < primary.totalBytes) :
    let n := min bytes (primary.totalBytes - offset)
    let result := (muxSeekableSource primary fallback).readAt tick offset bytes
    (∃ status, result = .error status) ∨ result = .ok (slice content offset.toNat n.toNat) ∨
      ∃ k status, 0 < k ∧ k < n.toNat ∧
        primary.readAt tick offset n = .ok (slice content offset.toNat k) ∧
        fallback.readAt tick (offset + .ofNat k) (n - .ofNat k) = .error status ∧
        result = .ok (slice content offset.toNat k) := by
  intro n result
  have hlt := UInt64.lt_iff_toNat_lt.mp hoffset
  have htotal := primary.totalBytes.toNat_lt
  have hn : n.toNat = min bytes.toNat (primary.totalBytes.toNat - offset.toNat) :=
    toNat_min_sub bytes hlt.le
  by_cases h0 : bytes = 0
  · rw [hn]
    simp [result, muxSeekableSource, h0]
  have hresult : result = muxReadAt primary fallback tick offset n := by
    simp [result, muxSeekableSource, ← hsize, UInt64.not_le.mpr hoffset, n, h0]
  obtain ⟨read, hread, hslice, hfull⟩ := hprimary.getD_readAt tick offset n
  simp only [muxReadAt, hread] at hresult
  rw [hresult]
  split
  · rename_i status hrest
    split_ifs with hnil
    · exact .inl ⟨status, rfl⟩
    · -- the primary has read a part, and the fallback failed on the rest
      obtain ⟨hshort, hrest⟩ | ⟨-, ⟨⟩⟩ := ite_eq_iff.mp hrest
      refine .inr (.inr ⟨_, status, length_pos_iff.mpr hnil, hshort, ?_, hrest, ?_⟩)
      · rw [← hslice, hfull hnil]
      · rw [← hslice]
  · rename_i rest hrest
    have hdata : read ++ rest = slice content offset.toNat (read ++ rest).length := by
      obtain ⟨hshort, hrest⟩ | ⟨-, ⟨⟩⟩ := ite_eq_iff.mp hrest
      · have hbytes := hfallback.read _ _ _ _ hrest
        rw [toNat_add_ofNat (by omega)] at hbytes
        rw [length_append, slice_add, ← hslice, ← hbytes]
      · simpa using hslice
    split_ifs with hlen
    · exact .inl ⟨_, rfl⟩
    · rw [← not_not.mp hlen, ← hdata]
      exact .inr (.inl rfl)

/-- A source of two bytes that delivers only the first. -/
def firstByteSource : BaseSource where
  totalBytes := 2
  readAt _ offset _ := .ok (if offset = 0 then [7] else [])

lemma exact_firstByteSource : firstByteSource.Exact fun _ => 7 := by
  refine ⟨?_, ?_, nofun⟩
  · rintro tick offset bytes data ⟨⟩ hne
    rw [show offset = 0 by simpa using hne]
    decide
  · rintro tick offset bytes data ⟨⟩
    split_ifs <;> rfl

theorem muxSeekableSource_reads_completed :
    (muxSeekableSource firstByteSource (cpuMemorySource (fun _ => 7) 2)).readAt 0 0 2 =
      .ok [7, 7] := by
  obtain ⟨status, h⟩ | h | ⟨k, status, -, -, -, h, -⟩ := muxSeekableSource_reads
    exact_firstByteSource (exact_cpuMemorySource (fun _ => 7) 2) rfl 0 0 2 (by decide)
  · cases h
  · exact h
  · obtain ⟨-, ⟨⟩⟩ | ⟨-, ⟨⟩⟩ := ite_eq_iff.mp h

/-- The byte of the primary is the result, though both sources hold the two that are asked for. -/
theorem muxSeekableSource_delivers_part :
    ∃ (primary fallback : BaseSource) (content : ℕ → UInt8), primary.Exact content ∧
      fallback.Exact content ∧ primary.totalBytes = 2 ∧ fallback.totalBytes = 2 ∧
      (muxSeekableSource primary fallback).readAt 0 0 2 = .ok [7] :=
  ⟨firstByteSource, { totalBytes := 2, readAt _ _ _ := .error (.dataLoss "") }, fun _ => 7,
    exact_firstByteSource, ⟨nofun, nofun, nofun⟩, rfl, rfl, rfl⟩

end TensorCast.Source
