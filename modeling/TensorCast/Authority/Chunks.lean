import TensorCast.Authority.Arena

/-!
# Records of chunks under visits

The operations go through lists of chunks and change one record at a time.  Here is what that does
to the records as a whole: the record of a chunk is changed as often as the chunk is visited.
-/

namespace TensorCast.Authority

open Core Lib List Except

variable {f : ChunkRecord → ChunkRecord} {chunks : List UInt32} {records : List ChunkRecord}

def visits (chunks : List UInt32) (i : ℕ) : ℕ := (chunks.map UInt32.toNat).count i

@[simp] lemma visits_nil (i : ℕ) : visits [] i = 0 := rfl

lemma visits_cons (c : UInt32) (i : ℕ) :
    visits (c :: chunks) i = visits chunks i + if c.toNat = i then 1 else 0 := by
  simp [visits, count_cons]

lemma visits_append (done rest : List UInt32) (i : ℕ) :
    visits (done ++ rest) i = visits done i + visits rest i := by
  simp [visits]

lemma visits_pos {c : UInt32} (h : c ∈ chunks) : 0 < visits chunks c.toNat :=
  count_pos_iff.mpr (mem_map.mpr ⟨c, h, rfl⟩)

lemma exists_of_visits_pos {i : ℕ} (h : 0 < visits chunks i) : ∃ c ∈ chunks, c.toNat = i :=
  mem_map.mp (count_pos_iff.mp h)

lemma visits_eq_zero {i : ℕ} (h : ∀ c ∈ chunks, c.toNat ≠ i) : visits chunks i = 0 := by
  by_contra hne
  obtain ⟨c, hc, hci⟩ := exists_of_visits_pos (pos_of_ne_zero hne)
  exact h c hc hci

/-! ## Changing records -/

@[simp] lemma modifyChunks_nil : modifyChunks f [] records = records := rfl

@[simp] lemma modifyChunks_cons (c : UInt32) :
    modifyChunks f (c :: chunks) records = modifyChunks f chunks (records.modify c.toNat f) := rfl

lemma modifyChunks_append (done rest : List UInt32) :
    modifyChunks f (done ++ rest) records = modifyChunks f rest (modifyChunks f done records) :=
  foldl_append

@[simp] lemma length_modifyChunks : (modifyChunks f chunks records).length = records.length := by
  induction chunks generalizing records with
  | nil => rfl
  | cons c chunks ih => rw [modifyChunks_cons, ih, length_modify]

lemma getElem?_modifyChunks (i : ℕ) :
    (modifyChunks f chunks records)[i]? = records[i]?.map f^[visits chunks i] := by
  induction chunks generalizing records with
  | nil => simp
  | cons c chunks ih =>
    rw [modifyChunks_cons, ih, getElem?_modify, visits_cons]
    cases records[i]? with
    | none => rfl
    | some record =>
      by_cases hc : c.toNat = i
      · simp [hc]
      · simp [hc]

lemma forall_mem_modifyChunks_of {P : ChunkRecord → Prop}
    (h : ∀ i record, records[i]? = some record → P (f^[visits chunks i] record)) :
    ∀ record ∈ modifyChunks f chunks records, P record := by
  intro record hmem
  obtain ⟨i, hi⟩ := mem_iff_getElem?.mp hmem
  rw [getElem?_modifyChunks, Option.map_eq_some_iff] at hi
  obtain ⟨old, hold, rfl⟩ := hi
  exact h i old hold

lemma forall_mem_modifyChunks {P : ChunkRecord → Prop} (hf : ∀ record, P record → P (f record))
    (h : ∀ record ∈ records, P record) : ∀ record ∈ modifyChunks f chunks records, P record :=
  forall_mem_modifyChunks_of fun _ old hold =>
    Function.Iterate.rec P (h old (mem_of_getElem? hold)) hf _

lemma map_modifyChunks {γ : Type*} {g : ChunkRecord → γ} (hf : ∀ record, g (f record) = g record) :
    (modifyChunks f chunks records).map g = records.map g := by
  refine ext_getElem? fun i => ?_
  rw [getElem?_map, getElem?_map, getElem?_modifyChunks, Option.map_map]
  refine congrArg (Option.map · _) (funext fun record => ?_)
  exact Function.Iterate.rec (g · = g record) rfl (fun old hold => (hf old).trans hold) _

/-! ## Walks over chunks -/

section Walks

variable {outOfRange status : Status} {visit : ChunkRecord → StatusOr ChunkRecord} {idx : UInt32}

def Refuses (visit : ChunkRecord → StatusOr ChunkRecord) (records : List ChunkRecord)
    (idx : UInt32) : Prop :=
  ∀ record, records[idx.toNat]? = some record → ∃ status, visit record = .error status

lemma visitRecord_of_lt {record record' : ChunkRecord}
    (h : records[idx.toNat]? = some record) (hvisit : visit record = .ok record') :
    visitRecord outOfRange visit idx records = .ok (records.set idx.toNat record') := by
  simp [visitRecord, h, hvisit, Except.map]

lemma visitRecord_eq_ok (hf : ∀ record record', visit record = .ok record' → record' = f record)
    {records' : List ChunkRecord} (h : visitRecord outOfRange visit idx records = .ok records') :
    ∃ record, records[idx.toNat]? = some record ∧ visit record = .ok (f record) ∧
      records' = records.modify idx.toNat f := by
  unfold visitRecord at h
  cases hr : records[idx.toNat]? with
  | none => simp [hr] at h
  | some record =>
    cases hv : visit record with
    | error status => simp [hr, hv, Except.map] at h
    | ok record' =>
      obtain rfl := hf record record' hv
      simp only [hr, hv, Except.map, Except.ok.injEq] at h
      rw [← h, modify_eq_set_getElem?, hr]
      exact ⟨record, rfl, hv, rfl⟩

lemma refuses_of_error (h : visitRecord outOfRange visit idx records = .error status) :
    Refuses visit records idx := by
  intro record hr
  cases hv : visit record with
  | error status => exact ⟨status, rfl⟩
  | ok record' =>
    rw [visitRecord_of_lt hr hv] at h
    cases h

def Accepts (visit : ChunkRecord → StatusOr ChunkRecord) (f : ChunkRecord → ChunkRecord)
    (chunks : List UInt32) (records : List ChunkRecord) : Prop :=
  ∀ (i : ℕ) (record : ChunkRecord), records[i]? = some record →
    ∀ k < visits chunks i, ∃ record', visit (f^[k] record) = .ok record'

lemma walk_visitRecord (outOfRange : Status) (visit : ChunkRecord → StatusOr ChunkRecord)
    (hf : ∀ record record', visit record = .ok record' → record' = f record)
    (chunks : List UInt32) (records : List ChunkRecord) :
    (walk (visitRecord outOfRange visit) chunks records = (modifyChunks f chunks records, .ok ()) ∧
      (∀ c ∈ chunks, c.toNat < records.length) ∧ Accepts visit f chunks records) ∨
      ∃ done idx rest status, chunks = done ++ idx :: rest ∧
        walk (visitRecord outOfRange visit) chunks records =
          (modifyChunks f done records, .error status) ∧
        (∀ c ∈ done, c.toNat < records.length) ∧ Accepts visit f done records ∧
        Refuses visit (modifyChunks f done records) idx := by
  rcases walk_cases (P := fun done s => s = modifyChunks f done records ∧
      (∀ c ∈ done, c.toNat < records.length) ∧ Accepts visit f done records)
    ⟨rfl, by simp, by simp [Accepts]⟩ (by
    rintro done c s s' ⟨rfl, hlt, haccepts⟩ hc
    obtain ⟨_, hcurrent, hok, rfl⟩ := visitRecord_eq_ok hf hc
    refine ⟨by rw [modifyChunks_append]; rfl, ?_, ?_⟩
    · refine forall_mem_append.mpr ⟨hlt, forall_mem_singleton.mpr ?_⟩
      rw [← length_modifyChunks]
      exact (List.getElem?_eq_some_iff.mp hcurrent).1
    · intro i record hi k hk
      by_cases hlast : k < visits done i
      · exact haccepts i record hi k hlast
      · -- the visit is the last one, of the chunk that was just accepted
        rw [visits_append, visits_cons] at hk
        have hci : c.toNat = i := by
          by_contra hne
          rw [if_neg hne] at hk
          exact hlast (by simpa using hk)
        have hki : k = visits done i := by
          rw [if_pos hci, visits_nil] at hk
          omega
        rw [getElem?_modifyChunks, hci, hi, ← hki] at hcurrent
        cases hcurrent
        exact ⟨_, hok⟩) with
    ⟨s', hw, rfl, hlt, hacc⟩ | ⟨done, idx, rest, s', status, hl, hw, ⟨rfl, hlt, hacc⟩, hidx⟩
  · exact .inl ⟨hw, hlt, hacc⟩
  · exact .inr ⟨done, idx, rest, status, hl, hw, hlt, hacc, refuses_of_error hidx⟩

end Walks

end TensorCast.Authority
