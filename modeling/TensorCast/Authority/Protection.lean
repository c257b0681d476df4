import TensorCast.Authority.Changes
import TensorCast.Lib.Transition

/-!
# Stable leases protect chunks

A chunk is marked stable exactly while it is leased, leased chunks are not relabelled, and the kernel
is never told to reclaim the pages of a chunk that is leased or pinned.  A call of `madvise` names a
range of one chunk's length, and the kernel takes whole pages: the range of a short last chunk can run
into another replica, and chunks that do not end at a page boundary share pages.
-/

namespace TensorCast.Authority

open Core Lib List AList Nat UInt32 UInt64
open Function (update)

/-! ## Leases and labels -/

/-- The label of a chunk agrees with its leases. -/
def ChunkRecord.Consistent (record : ChunkRecord) : Prop :=
  0 < record.stableLeaseCount ↔ record.cpu = .stable

namespace ChunkRecord

variable {record : ChunkRecord}

lemma pos_iff_toNat {n : UInt32} : 0 < n ↔ 0 < n.toNat := lt_iff_toNat_lt

lemma consistent_commitCpu (record : ChunkRecord) : record.commitCpu.Consistent := by
  unfold Consistent commitCpu
  by_cases h : 0 < record.stableLeaseCount
  · simp [h]
  · simp [h]

section

variable (h : record.Consistent)

include h

lemma Consistent.rollbackLease : record.rollbackLease.Consistent := by
  unfold ChunkRecord.rollbackLease
  split_ifs with hpos
  · have hstable := h.mp hpos
    unfold Consistent unlease
    by_cases hlast : record.stableLeaseCount - 1 = 0
    · simp [hlast, hstable]
    · simp [hstable, UInt32.pos_iff_ne_zero]
  · exact h

lemma Consistent.unlease (hpos : 0 < record.stableLeaseCount) : record.unlease.Consistent := by
  have := h.rollbackLease
  rwa [ChunkRecord.rollbackLease, if_pos hpos] at this

lemma Consistent.iterate_lease {k : ℕ}
    (hk : record.stableLeaseCount.toNat + k < 2 ^ 32) : (lease^[k] record).Consistent := by
  cases k with
  | zero => exact h
  | succ k =>
    unfold Consistent
    rw [UnifiedMemoryAuthority.cpu_iterate_lease record k.succ_pos, pos_iff_toNat,
      UnifiedMemoryAuthority.toNat_iterate_lease]
    exact iff_of_true (by omega) rfl

lemma Consistent.iterate_unlease {k : ℕ}
    (hk : k ≤ record.stableLeaseCount.toNat) : (ChunkRecord.unlease^[k] record).Consistent := by
  induction k with
  | zero => exact h
  | succ k ih =>
    rw [Function.iterate_succ_apply']
    refine (ih (by omega)).unlease ?_
    rw [pos_iff_toNat, UnifiedMemoryAuthority.toNat_iterate_unlease record (by omega)]
    omega

end

lemma iterate_markPreemptible (record : ChunkRecord) (k : ℕ) :
    (markPreemptible^[k] record).stableLeaseCount = record.stableLeaseCount ∧
      (0 < k → (markPreemptible^[k] record).cpu = .preemptible) := by
  induction k with
  | zero => exact ⟨rfl, nofun⟩
  | succ k ih =>
    rw [Function.iterate_succ_apply']
    exact ⟨ih.1, fun _ => rfl⟩

end ChunkRecord

namespace UnifiedMemoryAuthority

variable {uma uma' : UnifiedMemoryAuthority} {context : Context} {operation : Operation}
  {key : ReplicaKey} {alloc alloc' : ReplicaAllocation} {ok : Bool}

variable {i : ℕ} {record : ChunkRecord} {records : List ChunkRecord}

lemma getElem?_marked {indices eligible : List UInt32}
    (heligible : eligibleChunks records indices = .ok eligible)
    (hi : records[i]? = some record) (hleased : 0 < record.stableLeaseCount) :
    (modifyChunks ChunkRecord.markPreemptible eligible records)[i]? = some record := by
  have hnone : visits eligible i = 0 := by
    refine visits_eq_zero fun c hc hci => ?_
    obtain ⟨_, hr, hzero⟩ := eligible_of_mem heligible c hc
    rw [hci, hi] at hr
    cases hr
    rw [hzero] at hleased
    exact absurd hleased (by decide)
  rw [getElem?_modifyChunks, hnone, hi]
  rfl

/-- An operation that lets no counter wrap around leaves every label right. -/
lemma LedgerChange.consistent (h : LedgerChange uma context operation key alloc ok alloc')
    (hfit : ∀ indices, operation = .acquireStableLease key indices →
      LeasesFit (normalizeChunkIndices indices alloc.numChunks) alloc.chunkRecords)
    (hcons : ∀ record ∈ alloc.chunkRecords, record.Consistent) :
    ∀ record ∈ alloc'.chunkRecords, record.Consistent := by
  have hat : ∀ {i : ℕ} {record : ChunkRecord}, alloc.chunkRecords[i]? = some record →
      record.Consistent := fun hi => hcons _ (mem_of_getElem? hi)
  have hcommit : ∀ {target : MemoryLocation} {deviceId : Option Int32}
      {f : ChunkRecord → ChunkRecord}, commitChange context target deviceId = some f →
      ∀ record : ChunkRecord, record.Consistent → (f record).Consistent := by
    intro target deviceId f hf record hrecord
    cases target with
    | gpu =>
      obtain ⟨-, -, rfl⟩ := Option.map_eq_some_iff.mp hf
      exact hrecord
    | cpu =>
      cases hf
      exact record.consistent_commitCpu
    | _ => cases hf
  have hlease {chunks : List UInt32} (hfits : LeasesFit chunks alloc.chunkRecords) :
      ∀ record ∈ modifyChunks ChunkRecord.lease chunks alloc.chunkRecords, record.Consistent :=
    forall_mem_modifyChunks_of fun i record hi => (hat hi).iterate_lease (hfits i record hi)
  have hexport {flag : ChunkRecord → Bool} {put : ChunkRecord → ChunkRecord} {on : Bool}
      (hput : ∀ record : ChunkRecord, record.Consistent → (put record).Consistent)
      (record : ChunkRecord) (hrecord : record.Consistent) :
      (exportTo flag put on record).Consistent := by
    unfold exportTo
    split_ifs
    · exact hrecord
    · exact hput record hrecord
  cases h with
  | counters => exact hcons
  | gpuReleased =>
    intro record hmem
    obtain ⟨old, hold, rfl⟩ := mem_map.mp hmem
    unfold ChunkRecord.evictGpu
    split_ifs
    · exact hcons old hold
    · exact hcons old hold
  | committed _ _ _ hf | commitCut _ _ _ hf => exact forall_mem_modifyChunks (hcommit hf) hcons
  | leased _ hchunks =>
    subst hchunks
    exact hlease (hfit _ rfl)
  | leaseCut _ hchunks => exact hlease (hchunks ▸ hfit _ rfl).of_append
  | leaseRefused _ hchunks =>
    subst hchunks
    exact forall_mem_modifyChunks (fun record h => h.rollbackLease) (hlease (hfit _ rfl))
  | unleased _ _ _ hheld | unleaseCut _ _ _ hheld =>
    exact forall_mem_modifyChunks_of fun i record hi =>
      (hat hi).iterate_unlease (accepts_releaseLease_iff.mp hheld i record hi)
  | exportedGpu _ hrecords =>
    subst hrecords
    exact forall_mem_modifyChunks (hexport fun _ hrecord => hrecord) hcons
  | exportedCpu _ _ hrecords | exportCut _ hrecords =>
    subst hrecords
    exact forall_mem_modifyChunks (fun record hrecord => hrecord)
      (forall_mem_modifyChunks (hexport fun _ hrecord => hrecord) hcons)
  | granted => exact forall_mem_modifyChunks (fun record hrecord => hrecord) hcons
  | unpinned =>
    refine forall_mem_modifyChunks (fun record hrecord => ?_) hcons
    unfold ChunkRecord.unpin
    split_ifs
    · exact hrecord
    · exact hrecord
  | marked _ heligible =>
    refine forall_mem_modifyChunks_of fun i record hi => ?_
    rcases Nat.eq_zero_or_pos (visits _ i) with hzero | hpos
    · rw [hzero]
      exact hat hi
    · -- a chunk that is marked has no lease
      obtain ⟨c, hc, hci⟩ := exists_of_visits_pos hpos
      obtain ⟨_, hr, hcount⟩ := eligible_of_mem heligible c hc
      rw [hci, hi] at hr
      cases hr
      obtain ⟨hsame, hlabel⟩ := record.iterate_markPreemptible (visits _ i)
      rw [ChunkRecord.Consistent, hsame, hlabel hpos, hcount]
      decide

/-! ## Addresses -/

def givesBack : Operation → Option ReplicaKey
  | .markCpuChunksPreemptible key _ => some key
  | .postGpuLoadPolicy key _ _ => some key
  | _ => none

/-- A call for a chunk that is neither pinned nor leased. -/
def Advises (arena : CpuArena) (alloc : ReplicaAllocation) (call : Madvise) : Prop :=
  ∃ (i : ℕ) (record : ChunkRecord), alloc.chunkRecords[i]? = some record ∧
    record.isKept = false ∧ call.addr = arena.chunkAddr alloc (UInt64.ofNat i) ∧
    call.length = arena.chunkBytes

lemma advises_markCalls {arena : CpuArena} {os : Os} {idx : UInt32}
    (hi : alloc.chunkRecords[idx.toNat]? = some record) (hkept : record.isKept = false) :
    ∀ call ∈ arena.markCalls os alloc idx, Advises arena alloc call := by
  have hidx : idx.toUInt64 = UInt64.ofNat idx.toNat := by
    rw [← UInt64.toNat_inj]
    exact (mod_eq_of_lt (idx.toNat_lt.trans (by decide))).symm
  have hcall : ∀ flag, Advises arena alloc
      ⟨arena.chunkAddr alloc idx.toUInt64, arena.chunkBytes, flag⟩ :=
    fun flag => ⟨idx.toNat, record, hi, hkept, by rw [hidx], rfl⟩
  intro call hmem
  dsimp only [CpuArena.markCalls] at hmem
  split_ifs at hmem
  · exact mem_singleton.mp hmem ▸ hcall _
  · rcases mem_pair.mp hmem with rfl | rfl
    · exact hcall _
    · exact hcall _
  · exact mem_singleton.mp hmem ▸ hcall _
  · exact mem_singleton.mp hmem ▸ hcall _

lemma advises_markPreemptible (arena : CpuArena) (os : Os) (alloc : ReplicaAllocation)
    (indices : List UInt32) :
    ∀ call ∈ (arena.markPreemptible os alloc indices).1, Advises arena alloc call := by
  unfold CpuArena.markPreemptible
  split_ifs
  · simp
  · refine walk_invariant (P := fun calls => ∀ call ∈ calls, Advises arena alloc call) indices
      (by simp) ?_
    intro idx calls calls' hcalls hvisit
    unfold CpuArena.markChunk at hvisit
    cases hi : alloc.chunkRecords[idx.toNat]? with
    | none => simp [hi] at hvisit
    | some record =>
      simp only [hi] at hvisit
      split_ifs at hvisit with hkept
      · cases hvisit
        exact hcalls
      · cases hvisit
        exact forall_mem_append.mpr ⟨hcalls, advises_markCalls hi (Bool.not_eq_true _ ▸ hkept)⟩

lemma advises_evictTail (arena : CpuArena) (os : Os) (bytes : UInt64) (n : ℕ) (freed : UInt64)
    {calls : List Madvise} (hcalls : ∀ call ∈ calls, Advises arena alloc call) :
    ∀ call ∈ (arena.evictTail os alloc bytes n freed calls).2, Advises arena alloc call := by
  induction n generalizing freed calls with
  | zero => exact hcalls
  | succ n ih =>
    rw [CpuArena.evictTail]
    split_ifs
    · exact hcalls
    · cases hi : alloc.chunkRecords[n]? with
      | none => exact hcalls
      | some record =>
        dsimp only
        split_ifs with hkept
        · exact ih freed hcalls
        · refine ih _ (forall_mem_append.mpr ⟨hcalls, forall_mem_singleton.mpr ?_⟩)
          exact ⟨n, record, hi, Bool.not_eq_true _ ▸ hkept, rfl, rfl⟩

lemma advises_markChunksPreemptible (os : Os) (indices : List UInt32) :
    ∀ call ∈ (uma.markChunksPreemptible os key alloc indices).2.1,
      Advises uma.cpuArena alloc call := by
  unfold markChunksPreemptible
  cases eligibleChunks alloc.chunkRecords indices with
  | error status => simp
  | ok eligible =>
    dsimp only
    split_ifs
    · simp
    · have h := advises_markPreemptible uma.cpuArena os alloc eligible
      generalize uma.cpuArena.markPreemptible os alloc eligible = result at h
      obtain ⟨_, _ | _⟩ := result
      · exact h
      · exact h

variable {call : Madvise}

/-- Every call is for a chunk of the replica that is given back, and not for one that is kept. -/
lemma advises_apply (hcall : call ∈ (operation.apply context uma).calls) :
    ∃ key alloc, givesBack operation = some key ∧ uma.allocation? key = some alloc ∧
      Advises uma.cpuArena alloc call := by
  cases operation with
  | markCpuChunksPreemptible key ratio =>
    simp only [Operation.apply, Outcome.ofCalls, markCpuChunksPreemptible] at hcall
    split_ifs at hcall
    · cases hcall
    · cases halloc : uma.allocation? key with
      | none => simp [halloc] at hcall
      | some alloc =>
        simp only [halloc] at hcall
        split_ifs at hcall
        · cases hcall
        · exact ⟨key, alloc, rfl, halloc, advises_markChunksPreemptible _ _ call hcall⟩
  | postGpuLoadPolicy key bytes policy =>
    simp only [Operation.apply, Outcome.ofCalls, postGpuLoadPolicy] at hcall
    cases halloc : uma.allocation? key with
    | none => simp [halloc] at hcall
    | some alloc =>
      simp only [halloc] at hcall
      refine ⟨key, alloc, rfl, halloc, ?_⟩
      cases policy with
      | evictCpu =>
        simp only [CpuArena.evictTailBytes] at hcall
        split_ifs at hcall
        · cases hcall
        · exact advises_evictTail _ _ _ _ _ (by simp) call hcall
      | markPreemptible => exact advises_markChunksPreemptible _ _ call hcall
      | keep => cases hcall
  | _ => cases hcall

/-! ## The kernel and the regions -/

/-- The kernel takes whole pages, and does nothing if the address is inside a page. -/
def Covers (pageSize : ℕ) (call : Madvise) (a : ℕ) : Prop :=
  call.addr.toNat % pageSize = 0 ∧ call.addr.toNat ≤ a ∧
    a < call.addr.toNat + (call.length.toNat + pageSize - 1) / pageSize * pageSize
deriving Decidable

/-- The addresses of a chunk; the last chunk of a region can be short. -/
def Holds (chunkSizeBytes : UInt64) (region : CpuRegion) (i a : ℕ) : Prop :=
  region.base.toNat + i * chunkSizeBytes.toNat ≤ a ∧
    a < region.base.toNat + (i + 1) * chunkSizeBytes.toNat ∧
    a < region.base.toNat + region.bytes.toNat
deriving Decidable

def Apart (region : CpuRegion) (base length : ℕ) : Prop :=
  region.base.toNat + region.bytes.toNat ≤ base ∨ base + length ≤ region.base.toNat
deriving Decidable

/-- What `mmap` promises: a region of the length that was asked for, at a page boundary, inside the
address space and apart from all regions that are mapped. -/
def Mapped (pageSize : ℕ) (uma : UnifiedMemoryAuthority) (event : Event) : Prop :=
  match event.operation with
  | .allocate _ bytes =>
    match uma.cpuArena.allocateRegion event.context.os bytes with
    | .error _ => True
    | .ok region =>
      region.bytes = bytes ∧ region.base.toNat % pageSize = 0 ∧
        region.base.toNat + region.bytes.toNat ≤ 2 ^ 64 ∧
        ∀ entry ∈ uma.allocations.entries,
          Apart entry.2.cpuRegion region.base.toNat region.bytes.toNat
  | _ => True

/-- No lease counter wraps, and pages are given back only where chunks end at page boundaries and the
last chunk, at full length, meets no other region. -/
def Guarded (pageSize : ℕ) (uma : UnifiedMemoryAuthority) (event : Event) : Prop :=
  (∀ key indices alloc, event.operation = .acquireStableLease key indices →
    uma.allocation? key = some alloc →
    LeasesFit (normalizeChunkIndices indices alloc.numChunks) alloc.chunkRecords) ∧
  ∀ key alloc, givesBack event.operation = some key → uma.allocation? key = some alloc →
    uma.chunkSizeBytes.toNat % pageSize = 0 ∧
      ∀ other alloc', other ≠ key → uma.allocation? other = some alloc' →
        Apart alloc'.cpuRegion alloc.cpuRegion.base.toNat
          (alloc.numChunks * uma.chunkSizeBytes.toNat)

/-- The chunks of a replica begin inside its region, and the region is in the address space. -/
structure Placed (chunkSizeBytes : UInt64) (alloc : ReplicaAllocation) : Prop where
  inside : alloc.cpuRegion.base.toNat + alloc.cpuRegion.bytes.toNat ≤ 2 ^ 64
  begins : ∀ i < alloc.numChunks, i * chunkSizeBytes.toNat < alloc.cpuRegion.bytes.toNat

lemma begins_newAllocation {chunkSizeBytes bytes : UInt64} {region : CpuRegion}
    (hi : i < (newAllocation chunkSizeBytes bytes region).numChunks) :
    i * chunkSizeBytes.toNat < bytes.toNat := by
  have hle := numChunks_mul_le chunkSizeBytes bytes region
  have hsucc : (i + 1) * chunkSizeBytes.toNat ≤ (bytes + chunkSizeBytes - 1).toNat :=
    (mul_le_mul_right _ hi).trans hle
  have hpos : chunkSizeBytes ≠ 0 := by
    rintro rfl
    simp [ReplicaAllocation.numChunks, newAllocation] at hi
  have hsize := pos_of_ne_zero fun h => hpos (UInt64.toNat_inj.mp h)
  rw [UInt64.toNat_sub, UInt64.toNat_add, UInt64.toNat_one, succ_mul] at hsucc
  omega

/-! ## Runs -/

/-- What holds in every state of a run. -/
structure Sound (uma : UnifiedMemoryAuthority) : Prop where
  consistent : ∀ key alloc, uma.allocation? key = some alloc →
    ∀ record ∈ alloc.chunkRecords, record.Consistent
  placed : ∀ key alloc, uma.allocation? key = some alloc → Placed uma.chunkSizeBytes alloc

lemma sound_construct (artifactChunkBytes : UInt64) (cpuSharedMemoryEnabled : Bool)
    (budget : Option MemoryTierBudget) :
    Sound (construct artifactChunkBytes cpuSharedMemoryEnabled budget) := by
  constructor <;> intro key alloc halloc <;> cases halloc

variable {pageSize : ℕ}

lemma Sound.step {event : Event} (h : Sound uma)
    (hmapped : Mapped pageSize uma event) (hguarded : Guarded pageSize uma event) :
    Sound (event.operation.apply event.context uma).uma := by
  have heffect := effect uma event.context event.operation
  constructor
  · refine heffect.forall_allocation h.consistent ?_ ?_
    · intro key bytes region _ _ record hmem
      rw [eq_of_mem_replicate hmem]
      simp [ChunkRecord.Consistent]
    · intro key alloc alloc' halloc hchange hcons
      refine hchange.consistent (fun indices hop => ?_) hcons
      exact hguarded.1 key indices alloc hop halloc
  · rw [(rest uma event.context event.operation).chunkSizeBytes]
    refine heffect.forall_allocation h.placed ?_ ?_
    · intro key bytes region hop hregion
      rw [Mapped, hop] at hmapped
      simp only [hregion] at hmapped
      obtain ⟨rfl, -, hinside, -⟩ := hmapped
      exact ⟨hinside, fun i hi => begins_newAllocation hi⟩
    · intro key alloc alloc' _ hchange hplaced
      obtain ⟨hregion, -, hcount⟩ := hchange.shape
      refine ⟨?_, ?_⟩
      · rw [hregion]
        exact hplaced.inside
      · rw [hregion, hcount]
        exact hplaced.begins

lemma leased_kept_of_givesBack
    (hop : (givesBack operation).isSome) (halloc : uma.allocation? key = some alloc)
    (hi : alloc.chunkRecords[i]? = some record) (hleased : 0 < record.stableLeaseCount) :
    ∃ alloc', (operation.apply context uma).uma.allocation? key = some alloc' ∧
      alloc'.chunkRecords[i]? = some record := by
  have heffect := effect uma context operation
  unfold allocation?
  cases heffect with
  | kept hallocations =>
    rw [hallocations]
    exact ⟨alloc, halloc, hi⟩
  | allocated hallocate =>
    rw [hallocate] at hop
    cases hop
  | released hrelease =>
    rw [hrelease] at hop
    cases hop
  | @changed changedKey alloc₁ alloc₂ halloc₁ hchange hallocations =>
    rw [hallocations]
    by_cases hkey : key = changedKey
    · subst hkey
      cases halloc.symm.trans halloc₁
      refine ⟨alloc₂, lookup_insert _, ?_⟩
      generalize (operation.apply context uma).status.isOk = ok at hchange
      cases hchange with
      | counters => exact hi
      | marked _ heligible => exact getElem?_marked heligible hi hleased
      | _ => cases hop
    · exact ⟨alloc, (lookup_insert_ne hkey).trans halloc, hi⟩

lemma range_of_covers {a : ℕ}
    (hdvd : call.length.toNat % pageSize = 0) (h : Covers pageSize call a) :
    call.addr.toNat ≤ a ∧ a < call.addr.toNat + call.length.toNat := by
  obtain ⟨-, hle, hlt⟩ := h
  refine ⟨hle, hlt.trans_le (Nat.add_le_add_left ?_ _)⟩
  rcases Nat.eq_zero_or_pos pageSize with rfl | hpos
  · simp
  · obtain ⟨k, hk⟩ := dvd_of_mod_eq_zero hdvd
    have hround : (call.length.toNat + pageSize - 1) / pageSize = k := by
      refine Nat.div_eq_of_lt_le ?_ ?_
      · rw [mul_comm]
        omega
      · rw [succ_mul, mul_comm]
        omega
    rw [hround, hk, mul_comm]

lemma toNat_chunkAddr (hplaced : Placed uma.chunkSizeBytes alloc) (hi : i < alloc.numChunks) :
    (uma.cpuArena.chunkAddr alloc (ofNat i)).toNat =
      alloc.cpuRegion.base.toNat + i * uma.chunkSizeBytes.toNat := by
  have hbegins := hplaced.begins i hi
  have hinside := hplaced.inside
  have hindex : i % 2 ^ 64 * uma.chunkSizeBytes.toNat = i * uma.chunkSizeBytes.toNat := by
    rcases Nat.eq_zero_or_pos uma.chunkSizeBytes.toNat with hzero | hpos
    · rw [hzero, Nat.mul_zero, Nat.mul_zero]
    · have hle : i ≤ i * uma.chunkSizeBytes.toNat := Nat.le_mul_of_pos_right i hpos
      rw [mod_eq_of_lt (by omega)]
  change (_ + UInt64.ofNat i * uma.chunkSizeBytes).toNat = _
  rw [UInt64.toNat_add, UInt64.toNat_mul, UInt64.toNat_ofNat', hindex,
    mod_eq_of_lt (by omega), mod_eq_of_lt (by omega)]

/-- Pages that are given back hold no byte of a chunk that is leased or pinned. -/
lemma not_covers_kept {event : Event} {i a : ℕ}
    (h : Sound uma) (hguarded : Guarded pageSize uma event)
    (hcall : call ∈ (event.operation.apply event.context uma).calls)
    (halloc : uma.allocation? key = some alloc) (hi : alloc.chunkRecords[i]? = some record)
    (hkept : 0 < record.stableLeaseCount ∨ 0 < record.pinRefcnt)
    (hholds : Holds uma.chunkSizeBytes alloc.cpuRegion i a) : ¬ Covers pageSize call a := by
  intro hcovers
  obtain ⟨given, alloc₁, hgiven, halloc₁, j, _, hj, hfree, haddr, hlength⟩ :=
    advises_apply hcall
  obtain ⟨hdvd, hapart⟩ := hguarded.2 given alloc₁ hgiven halloc₁
  have hjlt : j < alloc₁.numChunks := (List.getElem?_eq_some_iff.mp hj).1
  have hlen : call.length.toNat = uma.chunkSizeBytes.toNat := congrArg UInt64.toNat hlength
  obtain ⟨hle, hlt⟩ := range_of_covers (hlen ▸ hdvd) hcovers
  rw [haddr, toNat_chunkAddr (h.placed given alloc₁ halloc₁) hjlt] at hle hlt
  obtain ⟨_, _, _⟩ := hholds
  by_cases hkey : key = given
  · -- within one region the ranges of two chunks do not meet
    subst hkey
    cases halloc.symm.trans halloc₁
    have hij : i = j := by
      have hij : i < j + 1 := Nat.lt_of_mul_lt_mul_right (a := uma.chunkSizeBytes.toNat)
        (by rw [succ_mul]; omega)
      have hji : j < i + 1 := Nat.lt_of_mul_lt_mul_right (a := uma.chunkSizeBytes.toNat) (by omega)
      omega
    subst hij
    cases hi.symm.trans hj
    simp only [ChunkRecord.isKept, Bool.or_eq_false_iff, decide_eq_false_iff_not] at hfree
    rcases hkept with hcount | hpins
    · exact hfree.1.1.1.2 hcount
    · exact hfree.1.1.1.1 hpins
  · have hfull : (j + 1) * uma.chunkSizeBytes.toNat ≤
        alloc₁.numChunks * uma.chunkSizeBytes.toNat := mul_le_mul_right _ hjlt
    rw [succ_mul] at hfull
    rcases hapart key alloc hkey halloc with hbefore | hafter
    · omega
    · omega

lemma sound_of_reaches {artifactChunkBytes : UInt64} {shared : Bool}
    {budget : Option MemoryTierBudget}
    (h : Reaches step (fun uma event => Mapped pageSize uma event ∧ Guarded pageSize uma event)
      (construct artifactChunkBytes shared budget) uma) : Sound uma := by
  refine h.invariant (sound_construct _ _ _) ?_
  rintro uma event uma' - ⟨hmapped, hguarded⟩ hstep hsound
  cases hstep
  exact hsound.step hmapped hguarded

/-- **Stable leases protect chunks.**  If no lease counter wraps, chunks end at page boundaries and no
last chunk at full length meets another region: a chunk is marked stable iff it is leased, and giving
pages back relabels no leased chunk and takes no page from one that is leased or pinned. -/
theorem stable_leases_protect (pageSize : ℕ) (artifactChunkBytes : UInt64) (shared : Bool)
    (budget : Option MemoryTierBudget)
    (h : Reaches step (fun uma event => Mapped pageSize uma event ∧ Guarded pageSize uma event)
      (construct artifactChunkBytes shared budget) uma) :
    (∀ key alloc, uma.allocation? key = some alloc → ∀ record ∈ alloc.chunkRecords,
      (0 < record.stableLeaseCount ↔ record.cpu = .stable)) ∧
    ∀ event, Guarded pageSize uma event → ∀ key alloc (i : ℕ) record,
      uma.allocation? key = some alloc → alloc.chunkRecords[i]? = some record →
      ((givesBack event.operation).isSome → 0 < record.stableLeaseCount →
        ∃ alloc', (event.operation.apply event.context uma).uma.allocation? key = some alloc' ∧
          alloc'.chunkRecords[i]? = some record) ∧
      (0 < record.stableLeaseCount ∨ 0 < record.pinRefcnt →
        ∀ call ∈ (event.operation.apply event.context uma).calls, ∀ a,
          Holds uma.chunkSizeBytes alloc.cpuRegion i a → ¬ Covers pageSize call a) := by
  have hsound := sound_of_reaches h
  refine ⟨hsound.consistent, fun event hguarded key alloc i record halloc hi => ⟨?_, ?_⟩⟩
  · intro hop hleased
    exact leased_kept_of_givesBack hop halloc hi hleased
  · intro hkept call hcall a hholds
    exact not_covers_kept hsound hguarded hcall halloc hi hkept hholds

/-- A replica of two chunks, the first of them leased. -/
def leasedFirst : UnifiedMemoryAuthority :=
  let uma := (construct 4096 false none).allocate (Context.mapsAt 65536) { artifactId := "a" } 8192
  (uma.1.acquireStableLease (Context.mapsAt 0) { artifactId := "a" } [0]).1

lemma allocation?_leasedFirst {key : ReplicaKey} (h : key ≠ { artifactId := "a" }) :
    leasedFirst.allocation? key = none := by
  obtain ⟨alloc, alloc', hmap⟩ : ∃ alloc alloc', leasedFirst.allocations =
      ((∅ : AList fun _ : ReplicaKey => ReplicaAllocation).insert { artifactId := "a" } alloc).insert
        { artifactId := "a" } alloc' := ⟨_, _, rfl⟩
  rw [allocation?, hmap, lookup_insert_ne h, lookup_insert_ne h]
  rfl

lemma reaches_leasedFirst :
    Reaches step (fun uma event => Mapped 4096 uma event ∧ Guarded 4096 uma event)
      (construct 4096 false none) leasedFirst := by
  refine .snoc (t := ⟨.acquireStableLease { artifactId := "a" } [0], Context.mapsAt 0⟩)
    (.snoc (t := ⟨.allocate { artifactId := "a" } 8192, Context.mapsAt 65536⟩) .refl ⟨?_, ?_⟩ rfl)
    ⟨trivial, ?_⟩ rfl
  · exact ⟨rfl, by decide, by decide, by simp [construct]⟩
  · exact ⟨nofun, nofun⟩
  · refine ⟨?_, nofun⟩
    rintro _ indices alloc ⟨⟩ halloc i record hi
    cases halloc
    rw [eq_of_mem_replicate (mem_of_getElem? hi)]
    exact lt_of_le_of_lt (Nat.add_le_add_left count_le_length _) (by decide)

theorem stable_leases_protect_first_chunk :
    ∃ event : Event,
      Reaches step (fun uma event => Mapped 4096 uma event ∧ Guarded 4096 uma event)
        (construct 4096 false none) leasedFirst ∧
      (event.operation.apply event.context leasedFirst).calls = [⟨69632, 4096, .free⟩] ∧
      ∀ call ∈ (event.operation.apply event.context leasedFirst).calls,
        ¬ Covers 4096 call 65536 := by
  refine ⟨⟨.postGpuLoadPolicy { artifactId := "a" } 0 .markPreemptible, Context.mapsAt 0⟩,
    reaches_leasedFirst, by decide, fun call hcall => ?_⟩
  refine ((stable_leases_protect 4096 4096 false none reaches_leasedFirst).2 _ ?_
    { artifactId := "a" } _ 0 _ rfl rfl).2 (.inl (by decide)) call hcall 65536 (by decide)
  refine ⟨nofun, ?_⟩
  rintro _ alloc ⟨⟩ halloc
  refine ⟨by decide, fun other alloc' hother halloc' => ?_⟩
  rw [allocation?_leasedFirst hother] at halloc'
  cases halloc'

/-- Two replicas side by side, the second one leased; the last chunk of the first is half a chunk. -/
def leasedBeside : UnifiedMemoryAuthority :=
  let uma := (construct 8192 false none).allocate (Context.mapsAt 53248) { artifactId := "a" } 12288
  let uma := uma.1.allocate (Context.mapsAt 65536) { artifactId := "b" } 8192
  (uma.1.acquireStableLease (Context.mapsAt 0) { artifactId := "b" } []).1

lemma reaches_leasedBeside :
    Reaches step (Mapped 4096) (construct 8192 false none) leasedBeside := by
  refine .snoc (t := ⟨.acquireStableLease { artifactId := "b" } [], Context.mapsAt 0⟩)
    (.snoc (t := ⟨.allocate { artifactId := "b" } 8192, Context.mapsAt 65536⟩)
      (.snoc (t := ⟨.allocate { artifactId := "a" } 12288, Context.mapsAt 53248⟩) .refl ?_ rfl) ?_ rfl)
    trivial rfl
  · exact ⟨rfl, by decide, by decide, by simp [construct]⟩
  · refine ⟨rfl, by decide, by decide, fun entry hmem => ?_⟩
    obtain rfl : entry = ⟨{ artifactId := "a" },
        newAllocation 8192 12288 { base := 53248, bytes := 12288 }⟩ := mem_singleton.mp hmem
    exact .inl (by decide)

/-- The call for the short last chunk of one replica covers the leased chunk of another. -/
theorem advice_covers_leased_neighbour :
    ∃ (uma : UnifiedMemoryAuthority) (event : Event) (call : Madvise) (alloc : ReplicaAllocation)
      (record : ChunkRecord) (a : ℕ),
      Reaches step (Mapped 4096) (construct 8192 false none) uma ∧
      call ∈ (event.operation.apply event.context uma).calls ∧
      uma.allocation? { artifactId := "b" } = some alloc ∧ alloc.chunkRecords[0]? = some record ∧
      0 < record.stableLeaseCount ∧ Holds uma.chunkSizeBytes alloc.cpuRegion 0 a ∧
      Covers 4096 call a := by
  refine ⟨leasedBeside, ⟨.postGpuLoadPolicy { artifactId := "a" } 0 .markPreemptible, Context.mapsAt 0⟩,
    ⟨61440, 8192, .free⟩, _, _, 65536, reaches_leasedBeside, ?_, rfl, rfl, ?_, ?_, ?_⟩
  · decide
  · decide
  · decide
  · decide

end UnifiedMemoryAuthority

end TensorCast.Authority
