import TensorCast.Binding.Acquire
import TensorCast.Lib.Values

/-!
# What closed bindings hold, and which bindings go

A record leaves the map when its control is over, the daemon does not retain it, and nothing refers
to it.  The check and the removal are two sections; a record which can be reclaimed stays so, whatever
the others do.  A closed record holds no staged values, unless the exit of a process has closed it.
-/

namespace TensorCast.Binding

open Core Lifecycle Lib Program Function AList Nat

/-! ## Single records -/

/-- A closed record holds no staged values. -/
def Record.Clean (r : Record) : Prop := r.closed = true → r.stagedValuesById = ∅

/-- A write that keeps a clean record clean and does not bring a record back to life. -/
structure Record.Wanes (r r' : Record) : Prop where
  clean : r.Clean → r'.Clean
  reclaimable : r.reclaimable = true → r'.reclaimable = true

namespace Record

variable {r : Record}

lemma reclaimable_iff : r.reclaimable = true ↔ (r.closed = true ∨ r.retired = true) ∧
    r.retainedRef = false ∧ r.exportRefs ≤ 0 ∧ r.activeAttachmentRefs ≤ 0 := by
  simp [reclaimable, and_assoc]

lemma Wanes.refl (r : Record) : r.Wanes r := ⟨id, id⟩

lemma Wanes.of_eq {r' : Record} (hclosed : r'.closed = r.closed)
    (hstaged : r'.stagedValuesById = r.stagedValuesById) (hretired : r'.retired = r.retired)
    (hretained : r'.retainedRef = r.retainedRef) (hexports : r'.exportRefs = r.exportRefs)
    (hrefs : r'.activeAttachmentRefs = r.activeAttachmentRefs) : r.Wanes r' := by
  refine ⟨?_, ?_⟩
  · rw [Clean, Clean, hclosed, hstaged]
    exact id
  · rw [reclaimable_iff, reclaimable_iff, hclosed, hretired, hretained, hexports, hrefs]
    exact id

lemma Wanes.of_staged {staged : AList (fun _ : String => StagedBindingValue)}
    (h : r.closed = true → r.stagedValuesById = ∅ → staged = ∅) :
    r.Wanes { r with stagedValuesById := staged } :=
  ⟨fun hclean hclosed => h hclosed (hclean hclosed), id⟩

lemma wanes_close (r : Record) : r.Wanes r.close := by
  refine ⟨fun _ _ => rfl, fun h => ?_⟩
  rw [reclaimable_iff] at h ⊢
  refine ⟨.inl rfl, ?_, h.2.2⟩
  simp [close, h.2.1]

lemma wanes_retire (r : Record) (reason : String) : r.Wanes (r.retire reason) := by
  refine ⟨fun _ _ => rfl, fun h => ?_⟩
  rw [reclaimable_iff] at h ⊢
  exact ⟨.inr rfl, rfl, h.2.2⟩

lemma wanes_stage (r : Record) (value : StagedBindingValue) (now : Time) :
    r.Wanes (r.stage value now).2 := by
  rw [stage]
  cases hcheck : r.checkStage value with
  | error status => exact .refl r
  | ok _ =>
    -- the record is not closed
    refine .of_staged fun hclosed _ => ?_
    simp only [checkStage, bind_eq_ok, refuseIf_eq_ok] at hcheck
    obtain ⟨-, hopen, -⟩ := hcheck
    exact absurd hclosed hopen

lemma wanes_unstage (r : Record) (id : String) : r.Wanes (r.unstage id).2 := by
  rw [unstage]
  split_ifs with hrefs hnone
  · exact .refl r
  · exact .refl r
  · refine .of_staged fun _ hempty => ?_
    rw [hempty]
    rfl

lemma wanes_removeStaged (r : Record) (doomed : StagedBindingValue → Bool) (maxToRemove removed : ℕ) :
    r.Wanes (r.removeStaged doomed maxToRemove removed).2 := by
  rw [removeStaged]
  split_ifs with hrefs
  · exact .refl r
  · refine .of_staged fun _ hempty => ?_
    rw [hempty]
    rfl

lemma wanes_attachIf {check : StatusOr Unit} (now : Time)
    (h : check = .ok () → r.reclaimable = false) : r.Wanes (r.attachIf check now).2 := by
  cases check with
  | error status => exact .refl r
  | ok _ =>
    refine ⟨id, fun hreclaimable => ?_⟩
    rw [h rfl] at hreclaimable
    cases hreclaimable

section

variable (r : Record) (now : Time)

lemma wanes_attach : r.Wanes (r.attachIf r.checkAttach now).2 := by
  refine wanes_attachIf now fun h => ?_
  simp only [checkAttach, bind_eq_ok, refuseIf_eq_ok] at h
  obtain ⟨-, -, -, hretained, -⟩ := h
  simp [reclaimable, hretained]

lemma wanes_attachStaged : r.Wanes (r.attachIf r.checkOpen now).2 := by
  refine wanes_attachIf now fun h => ?_
  simp only [checkOpen, bind_eq_ok, refuseIf_eq_ok] at h
  obtain ⟨-, hopen, hlive⟩ := h
  simp [reclaimable, hopen, hlive]

lemma wanes_keepalive : r.Wanes (r.keepalive now).2 := by
  rw [keepalive]
  split_ifs
  · exact .refl r
  · exact .refl r
  · exact .of_eq rfl rfl rfl rfl rfl rfl

lemma wanes_detach (idleTtl : Duration) : r.Wanes (r.detach now idleTtl) := by
  have hwrite : ∀ refs : ℤ, refs ≤ max r.activeAttachmentRefs 0 → ∀ released idle,
      r.Wanes { r with
        activeAttachmentRefs := refs, lastReleasedAt := released, idleDeadline := idle } := by
    refine fun refs hle released idle => ⟨id, fun h => ?_⟩
    rw [reclaimable_iff] at h ⊢
    exact ⟨h.1, h.2.1, h.2.2.1, hle.trans (max_le h.2.2.2 le_rfl)⟩
  have hle : (if 0 < r.activeAttachmentRefs then r.activeAttachmentRefs - 1
      else r.activeAttachmentRefs) ≤ max r.activeAttachmentRefs 0 := by
    split_ifs with hpos
    · omega
    · omega
  rw [detach]
  generalize (if 0 < r.activeAttachmentRefs then r.activeAttachmentRefs - 1
    else r.activeAttachmentRefs) = refs at hle
  by_cases hzero : refs = 0
  · rw [if_pos hzero]
    exact hwrite refs hle now _
  · rw [if_neg hzero]
    exact hwrite refs hle r.lastReleasedAt r.idleDeadline

lemma wanes_sweep : r.Wanes (r.sweep now).2 := by
  rw [sweep]
  split_ifs with hdone
  · exact .refl r
  · cases r.dueReason now with
    | none => exact .refl r
    | some reason =>
      -- the record was retained, so it could not be reclaimed
      refine ⟨id, fun h => ?_⟩
      rw [reclaimable_iff] at h
      simp [h.2.1] at hdone

end

lemma wanes_dropExport (r : Record) : r.Wanes r.dropExport := by
  refine ⟨id, fun h => ?_⟩
  rw [reclaimable_iff] at h ⊢
  refine ⟨h.1, h.2.1, ?_, h.2.2.2⟩
  rw [dropExport]
  split_ifs with hpos
  · exact absurd hpos (not_lt.mpr h.2.2.1)
  · exact h.2.2.1

lemma stagedValuesById_ownerExited (r : Record) (pid : ℤ) :
    (r.ownerExited pid).stagedValuesById = r.stagedValuesById := by
  rw [ownerExited]
  split_ifs <;> rfl

lemma reclaimable_ownerExited {pid : ℤ} (h : r.reclaimable = true) :
    (r.ownerExited pid).reclaimable = true := by
  rw [reclaimable_iff] at h ⊢
  rw [ownerExited, if_neg (by simp [h.2.1])]
  exact ⟨.inl rfl, rfl, le_rfl, h.2.2.2⟩

end Record

/-! ## The registry -/

/-- Between sections closed records hold no staged values, the map refers to records of the heap, and
a record that the map has let go of is reclaimable. -/
structure Registry.Tidy (s : Registry) : Prop where
  clean : ∀ record, (s.heap record).Clean
  bounded : ∀ id record, s.records.lookup id = some record → record < s.next
  kept : ∀ record < s.next, (∃ id, s.records.lookup id = some record) ∨
    (s.heap record).reclaimable = true

/-- What a section may do to the records that others know of: none comes back to life. -/
structure Registry.Wanes (s s' : Registry) : Prop where
  next_le : s.next ≤ s'.next
  reclaimable : ∀ record < s.next, (s.heap record).reclaimable = true →
    (s'.heap record).reclaimable = true

/-- A program that keeps the registry tidy, under an assumption on its sections. -/
abbrev SafeOp {α : Type} (assumed : Registry → Registry → Prop) (op : Op α) (pre : Registry → Prop)
    (post : α → Registry → Prop) : Prop :=
  Safe Registry.Tidy assumed Registry.Wanes op pre post

abbrev KeepsTidy {α : Type} (assumed : Registry → Registry → Prop) (op : Op α) : Prop :=
  SafeOp assumed op (fun _ => True) fun _ _ => True

namespace Registry

variable {s : Registry}

lemma Tidy.empty : Tidy {} := ⟨fun _ _ => rfl, nofun, nofun⟩

lemma Wanes.refl (s : Registry) : s.Wanes s := ⟨le_rfl, fun _ _ => id⟩

variable {record : ℕ}

lemma wanes_write {r' : Record} (h : (s.heap record).reclaimable = true → r'.reclaimable = true) :
    s.Wanes { s with heap := update s.heap record r' } := by
  refine ⟨le_rfl, (forall_update_iff s.heap fun record' r => record' < s.next →
    (s.heap record').reclaimable = true → r.reclaimable = true).mpr ⟨fun _ => h, ?_⟩⟩
  exact fun _ _ _ => id

lemma Tidy.write (hs : s.Tidy) {r' : Record} (h : (s.heap record).Wanes r') :
    Tidy { s with heap := update s.heap record r' } := by
  refine ⟨?_, hs.bounded, fun record' hlt => ?_⟩
  · exact (forall_update_iff s.heap fun _ r => r.Clean).mpr
      ⟨h.clean (hs.clean record), fun record' _ => hs.clean record'⟩
  · exact (hs.kept record' hlt).imp_right ((wanes_write h.reclaimable).reclaimable record' hlt)

lemma Tidy.eraseRecord (hs : s.Tidy) {id : String}
    (h : (s.heap record).reclaimable = true) : (s.eraseRecord id record).Tidy := by
  rw [Registry.eraseRecord]
  split_ifs with hlookup
  · refine ⟨hs.clean, fun id' record' h' => hs.bounded id' record' (lookup_erase_cases h').2,
      fun record' hlt => ?_⟩
    rcases hs.kept record' hlt with ⟨id', hid'⟩ | hreclaimable
    · rcases eq_or_ne id' id with rfl | hne
      · cases hlookup.symm.trans hid'
        exact .inr h
      · exact .inl ⟨id', by rwa [lookup_erase_ne hne]⟩
    · exact .inr hreclaimable
  · exact hs

lemma wanes_eraseRecord (s : Registry) (bindingId : String) (record : ℕ) :
    s.Wanes (s.eraseRecord bindingId record) := by
  rw [Registry.eraseRecord]
  split_ifs
  · exact ⟨le_rfl, fun _ _ => id⟩
  · exact .refl s

/-- A new record comes into the map. -/
lemma Tidy.emplace (hs : s.Tidy) {r : Record} (hr : r.Clean) : (s.emplace r).2.Tidy := by
  rw [Registry.emplace]
  split_ifs with hsome
  · exact hs
  · refine ⟨?_, fun id record hlookup => ?_, fun record hlt => ?_⟩
    · exact (forall_update_iff s.heap fun _ r => r.Clean).mpr ⟨hr, fun record _ => hs.clean record⟩
    · rcases lookup_insert_cases hlookup with ⟨-, rfl⟩ | ⟨-, hlookup⟩
      · exact lt_succ_self _
      · exact lt_succ_of_lt (hs.bounded id record hlookup)
    · dsimp only
      rcases Nat.lt_succ_iff_lt_or_eq.mp hlt with hold | rfl
      · rcases hs.kept record hold with ⟨id, hid⟩ | h
        · have hne : id ≠ r.bindingId := by
            rintro rfl
            rw [hid] at hsome
            exact hsome rfl
          exact .inl ⟨id, by rwa [lookup_insert_ne hne]⟩
        · exact .inr (by rwa [update_of_ne hold.ne])
      · exact .inl ⟨r.bindingId, lookup_insert _⟩

lemma wanes_emplace (s : Registry) (r : Record) : s.Wanes (s.emplace r).2 := by
  rw [Registry.emplace]
  split_ifs
  · exact .refl s
  · refine ⟨le_succ _, fun record hlt h => ?_⟩
    dsimp only
    rwa [update_of_ne hlt.ne]

end Registry

/-! ## The sections -/

section Sections

variable {assumed : Registry → Registry → Prop}

lemma stable_lt_next (record : ℕ) : Stable Registry.Tidy Registry.Wanes fun s => record < s.next :=
  fun _ _ _ hstep hlt => hlt.trans_le hstep.next_le

lemma stable_found (found : Option ℕ) :
    Stable Registry.Tidy Registry.Wanes fun s => ∀ record, found = some record → record < s.next :=
  fun s s' hs hstep h record hrecord => stable_lt_next record s s' hs hstep (h record hrecord)

lemma safe_find (bindingId : String) : SafeOp assumed (find bindingId) (fun _ => True)
    fun found s => ∀ record, found = some record → record < s.next :=
  Safe.atomically stable_found fun s hs _ _ =>
    ⟨hs, .refl s, fun record hrecord => hs.bounded bindingId record hrecord⟩

lemma safe_withRecord {α : Type} {record : ℕ} {f : Record → α × Record}
    (h : ∀ r : Record, r.Wanes (f r).2) :
    SafeOp assumed (withRecord record f) (fun s => record < s.next) fun _ s => record < s.next :=
  Safe.atomically (fun _ => stable_lt_next record) fun _ hs hlt _ =>
    ⟨hs.write (h _), Registry.wanes_write (h _).reclaimable, hlt⟩

/-- The removal relies on what the check has seen, and nothing brings a record back to life. -/
lemma safe_eraseIfReclaimable (bindingId : String) (record : ℕ) :
    SafeOp assumed (eraseIfReclaimable bindingId record) (fun s => record < s.next)
      fun _ _ => True := by
  have hstable : ∀ reclaimable : Bool, Stable Registry.Tidy Registry.Wanes fun s =>
      record < s.next ∧ (reclaimable = true → (s.heap record).reclaimable = true) :=
    fun _ s s' hs hstep h =>
      ⟨stable_lt_next record s s' hs hstep h.1, fun hr => hstep.reclaimable record h.1 (h.2 hr)⟩
  refine Safe.bind (Safe.atomically hstable fun s hs hlt _ => ?_) fun reclaimable => ?_
  · refine ⟨hs.write (.refl _), Registry.wanes_write id, hlt, fun hr => ?_⟩
    dsimp only at hr ⊢
    rwa [update_self]
  · cases reclaimable with
    | false => exact fun _ _ _ => trivial
    | true =>
      refine Safe.atomically (fun _ => .true) fun s hs h _ => ?_
      exact ⟨hs.eraseRecord (h.2 rfl), s.wanes_eraseRecord bindingId record, trivial⟩

variable {bindingId : String}

lemma safe_found {α : Type} {other : Op α} {body : ℕ → Op α}
    (hother : KeepsTidy assumed other)
    (hbody : ∀ record, SafeOp assumed (body record) (fun s => record < s.next) fun _ _ => True) :
    KeepsTidy assumed (find bindingId >>= fun found =>
      match found with
      | some record => body record
      | _ => other) := by
  refine (safe_find bindingId).bind fun found => ?_
  cases found with
  | none => exact hother.mono (fun _ _ => trivial) fun _ _ _ => id
  | some record => exact (hbody record).mono (fun s h => h record rfl) fun _ _ _ => id

lemma safe_entries {f : Registry → List (Sigma fun _ : String => ℕ)}
    (hf : ∀ s, ∀ entry ∈ f s, entry ∈ s.records.entries) :
    SafeOp assumed (Program.read f) (fun _ => True)
      fun entries s => ∀ entry ∈ entries, entry.2 < s.next := by
  refine Safe.atomically (fun entries s s' hs hstep h entry hentry =>
    stable_lt_next entry.2 s s' hs hstep (h entry hentry)) fun s hs _ _ => ?_
  refine ⟨hs, .refl s, fun entry hentry => ?_⟩
  exact hs.bounded entry.1 entry.2 (mem_lookup_iff.mpr (hf s entry hentry))

variable (order : HashOrder)

lemma safe_snapshot : SafeOp assumed (snapshot order) (fun _ => True)
    fun entries s => ∀ entry ∈ entries, entry.2 < s.next :=
  safe_entries fun _ _ => (order.perm _).mem_iff.mp

/-! ## The operations -/

lemma safe_insert {r : Record} (hr : r.Clean) : KeepsTidy assumed (Binding.insert (some r)) := by
  rw [Binding.insert]
  split_ifs
  · exact fun _ _ _ => trivial
  · exact Safe.atomically (fun _ => .true) fun s hs _ _ =>
      ⟨hs.emplace hr, s.wanes_emplace r, trivial⟩

lemma safe_thenErase {α : Type} {record : ℕ} {f : Record → Unit × Record}
    {result : α} (h : ∀ r : Record, r.Wanes (f r).2) :
    SafeOp assumed (do
      withRecord record f
      eraseIfReclaimable bindingId record
      return result) (fun s => record < s.next) fun _ _ => True :=
  (safe_withRecord h).bind fun _ => (safe_eraseIfReclaimable bindingId record).bind
    fun _ _ _ _ => trivial

lemma safe_closeControl (bindingId : String) : KeepsTidy assumed (closeControl bindingId) :=
  safe_found (fun _ _ _ => trivial) fun _ => safe_thenErase Record.wanes_close

lemma safe_retireRetained (bindingId reason : String) :
    KeepsTidy assumed (retireRetained bindingId reason) :=
  safe_found (fun _ _ _ => trivial) fun _ => safe_thenErase fun r => r.wanes_retire reason

lemma safe_releaseAttachmentRef (bindingId : String) (now : Time) (idleTtl : Duration) :
    KeepsTidy assumed (releaseAttachmentRef bindingId now idleTtl) :=
  safe_found (fun _ _ _ => trivial) fun record =>
    (safe_withRecord fun r => r.wanes_detach now idleTtl).bind fun _ =>
      safe_eraseIfReclaimable bindingId record

lemma safe_releaseExportRef (bindingId : String) : KeepsTidy assumed (releaseExportRef bindingId) :=
  safe_found (fun _ _ _ => trivial) fun record =>
    (safe_withRecord Record.wanes_dropExport).bind fun _ =>
      safe_eraseIfReclaimable bindingId record

lemma safe_foundWrite {other : StatusOr Unit}
    {f : Record → StatusOr Unit × Record} (h : ∀ r : Record, r.Wanes (f r).2) :
    KeepsTidy assumed (do
      let some record ← find bindingId | return other
      withRecord record f) :=
  safe_found (fun _ _ _ => trivial) fun _ => (safe_withRecord h).mono (fun _ => id)
    fun _ _ _ _ => trivial

lemma safe_insertStagedValue (bindingId : String) (value : StagedBindingValue) (now : Time) :
    KeepsTidy assumed (insertStagedValue bindingId value now) := by
  rw [insertStagedValue]
  cases validateStagedBindingValue bindingId value now with
  | error status => exact fun _ _ _ => trivial
  | ok _ => exact safe_foundWrite fun r => r.wanes_stage value now

lemma safe_removeStagedValue (bindingId valueId : String) :
    KeepsTidy assumed (removeStagedValue bindingId valueId) :=
  safe_foundWrite fun r => r.wanes_unstage valueId

lemma safe_keepaliveAttachmentRef (bindingId : String) (now : Time) :
    KeepsTidy assumed (keepaliveAttachmentRef bindingId now) :=
  safe_foundWrite fun r => r.wanes_keepalive now

lemma safe_acquireAttachmentRef (bindingId : String) (now : Time) :
    KeepsTidy assumed (acquireAttachmentRef bindingId now) :=
  safe_foundWrite fun r => r.wanes_attach now

lemma safe_validation {other : StatusOr Unit} (check : Record → StatusOr Unit) :
    KeepsTidy assumed (do
      let some record ← find bindingId | return other
      withRecord record fun r => (check r, r)) :=
  safe_foundWrite Record.Wanes.refl

lemma safe_validateAndAcquire (request : AcquireBindingValueRequest) (now : Time) :
    KeepsTidy assumed (validateAndAcquireAttachmentRef request now) := by
  have hvalidate : KeepsTidy assumed (validateAcquireRequest request now) := by
    rw [validateAcquireRequest]
    cases checkAcquireRef request with
    | error status => exact fun _ _ _ => trivial
    | ok _ => exact safe_validation _
  refine hvalidate.bind fun status => ?_
  cases status with
  | error status => exact fun _ _ _ => trivial
  | ok _ => exact safe_acquireAttachmentRef _ now

lemma safe_validateAndAcquireGroup (request : AcquireBindingValueRequest) (now : Time) :
    KeepsTidy assumed (validateAndAcquireGroupStagedAttachmentRef request now) := by
  have hvalidate : KeepsTidy assumed (validateGroupStagedAcquireRequest request now) := by
    rw [validateGroupStagedAcquireRequest]
    cases checkGroupRef request with
    | error status => exact fun _ _ _ => trivial
    | ok group => exact safe_validation _
  refine hvalidate.bind fun status => ?_
  cases status with
  | error status => exact fun _ _ _ => trivial
  | ok _ => exact safe_foundWrite fun r => r.wanes_attachStaged now

lemma safe_forEntries {β : Type} {entries : List (Sigma fun _ : String => ℕ)} {init : β}
    {body : (Sigma fun _ : String => ℕ) → β → Op (ForInStep β)}
    (h : ∀ entry b, SafeOp assumed (body entry b) (fun s => entry.2 < s.next) fun _ _ => True) :
    SafeOp assumed (forIn entries init body) (fun s => ∀ entry ∈ entries, entry.2 < s.next)
      fun _ _ => True :=
  Safe.forIn (fun entry _ => stable_lt_next entry.2) fun entry _ b => h entry b

lemma safe_removeStagedValues (doomed : StagedBindingValue → Bool)
    (maxToRemove : ℕ) :
    KeepsTidy assumed (removeStagedValues order doomed maxToRemove) := by
  refine (safe_snapshot order).bind fun entries => ?_
  refine (safe_forEntries fun entry b => ?_).bind fun result => ?_
  · refine (safe_withRecord fun r => r.wanes_removeStaged doomed maxToRemove _).bind fun outcome => ?_
    split
    split_ifs
    · exact fun _ _ _ => trivial
    · exact fun _ _ _ => trivial
  · obtain ⟨_ | -, -⟩ := result
    · exact fun _ _ _ => trivial
    · exact fun _ _ _ => trivial

lemma safe_clearStagedValues : KeepsTidy assumed (clearStagedValues order) := by
  refine (safe_snapshot order).bind fun entries => ?_
  refine (safe_forEntries fun entry b => ?_).bind fun result _ _ _ => trivial
  exact (safe_withRecord fun r => Record.Wanes.of_staged fun _ _ => rfl).bind fun _ _ _ _ => trivial

lemma safe_sweepRetention (now : Time) :
    KeepsTidy assumed (sweepRetention order now) := by
  refine (safe_snapshot order).bind fun entries => ?_
  refine (safe_forEntries fun entry b => ?_).bind fun result _ _ _ => trivial
  refine (safe_withRecord fun r => r.wanes_sweep now).bind fun shouldRetire => ?_
  cases shouldRetire with
  | false => exact fun _ _ _ => trivial
  | true => exact (safe_eraseIfReclaimable entry.1 entry.2).bind fun _ _ _ _ => trivial

end Sections

/-! ## The exit of a process -/

/-- A section that closes no record with staged values. -/
def ClosesClean (s s' : Registry) : Prop :=
  ∀ record, (s.heap record).closed = false → (s'.heap record).closed = true →
    (s.heap record).stagedValuesById = ∅

lemma safe_handlePidExit (order : HashOrder) (ownerPid : ℤ) :
    KeepsTidy ClosesClean (handlePidExit order ownerPid) := by
  rw [handlePidExit]
  split_ifs with hpid
  · exact fun _ _ _ => trivial
  refine (safe_entries fun s entry hentry =>
    (order.perm _).mem_iff.mp (List.mem_of_mem_filter hentry)).bind fun entries => ?_
  refine (safe_forEntries fun entry b => ?_).bind fun _ _ _ _ => trivial
  refine Safe.bind (Safe.atomically (fun _ => stable_lt_next entry.2) fun s hs hlt hassumed => ?_)
    fun _ => (safe_eraseIfReclaimable entry.1 entry.2).bind fun _ _ _ _ => trivial
  have hwanes : (s.heap entry.2).Wanes ((s.heap entry.2).ownerExited ownerPid) := by
    refine ⟨fun hclean hclosed => ?_, Record.reclaimable_ownerExited⟩
    have hstaged : (s.heap entry.2).stagedValuesById = ∅ := by
      cases hopen : (s.heap entry.2).closed with
      | true => exact hclean hopen
      | false =>
        refine hassumed entry.2 hopen ?_
        dsimp only
        rwa [update_self]
    rw [Record.stagedValuesById_ownerExited, hstaged]
  exact ⟨hs.write hwanes, Registry.wanes_write hwanes.reclaimable, hlt⟩

/-! ## Runs -/

/-- What is asked of the sections of a call. -/
def Call.Assumed : Call → Registry → Registry → Prop
  | .handlePidExit _ _ => ClosesClean
  | _ => fun _ _ => True

/-- A record that comes with a closed control has no staged values, the exit of a process closes no
record with staged values, and nobody but the registry writes its records. -/
def Permitted (pool : Callers) : Pool.Move Call → Prop
  | .call (.insert (some r)) => r.Clean
  | .call (.update _ _) => False
  | .call _ => True
  | .resume i => ∀ c write next, pool.threads[i]? = some (c, .atomic write next) →
      c.Assumed pool.shared (write pool.shared)

variable {pool : Callers}

lemma safe_program {c : Call} (h : Permitted pool (.call c)) : KeepsTidy c.Assumed c.program := by
  cases c with
  | insert record =>
    cases record with
    | none => exact fun _ _ _ => trivial
    | some r => exact (safe_insert h).map
  | closeControl bindingId => exact (safe_closeControl bindingId).map
  | retireRetained bindingId reason => exact (safe_retireRetained bindingId reason).map
  | insertStagedValue bindingId value now => exact (safe_insertStagedValue bindingId value now).map
  | removeStagedValue bindingId valueId => exact (safe_removeStagedValue bindingId valueId).map
  | removeStagedValuesForTransaction order transactionId maxToRemove =>
    exact (safe_removeStagedValues order _ maxToRemove).map
  | sweepStagedValues order now maxToRemove =>
    exact (safe_removeStagedValues order _ maxToRemove).map
  | clearStagedValues order => exact (safe_clearStagedValues order).map
  | acquireAttachmentRef bindingId now => exact (safe_acquireAttachmentRef bindingId now).map
  | validateAndAcquireAttachmentRef request now => exact (safe_validateAndAcquire request now).map
  | validateAndAcquireGroupStagedAttachmentRef request now =>
    exact (safe_validateAndAcquireGroup request now).map
  | keepaliveAttachmentRef bindingId now => exact (safe_keepaliveAttachmentRef bindingId now).map
  | releaseAttachmentRef bindingId now idleTtl =>
    exact (safe_releaseAttachmentRef bindingId now idleTtl).map
  | sweepRetention order now => exact (safe_sweepRetention order now).map
  | releaseExportRef bindingId => exact (safe_releaseExportRef bindingId).map
  | handlePidExit order ownerPid => exact (safe_handlePidExit order ownerPid).map
  | update bindingId change => exact h.elim

lemma sound_of_reaches (hrun : Reaches step Permitted start pool) :
    Pool.Sound Registry.Tidy Call.Assumed Registry.Wanes pool := by
  refine hrun.invariant ⟨.empty, fun thread h => absurd h List.not_mem_nil⟩ ?_
  intro pool move pool' _ hpermitted hstep hsound
  refine hsound.step ?_ ?_ hstep
  · intro c hc
    subst hc
    exact ⟨fun _ => True, .true, trivial, safe_program hpermitted⟩
  · intro i c write next hi hthread
    subst hi
    exact hpermitted c write next hthread

/-- **Closed bindings and reclaimed bindings.**  If the steps meet the condition, a record whose
control is closed and whose retained reference is gone holds no staged values, and one that was
inserted and is not in the map any more has no attachment, export or retained reference. -/
theorem closed_bindings_hold_nothing {pool : Callers} (hrun : Reaches step Permitted start pool) :
    (∀ record, (pool.shared.heap record).closed = true →
      (pool.shared.heap record).retainedRef = false →
      (pool.shared.heap record).stagedValuesById = ∅) ∧
    ∀ record < pool.shared.next, (∀ id, pool.shared.records.lookup id ≠ some record) →
      (pool.shared.heap record).activeAttachmentRefs ≤ 0 ∧
      (pool.shared.heap record).exportRefs ≤ 0 ∧
      (pool.shared.heap record).retainedRef = false := by
  have htidy := (sound_of_reaches hrun).inv
  refine ⟨fun record hclosed _ => htidy.clean record hclosed, fun record hlt herased => ?_⟩
  rcases htidy.kept record hlt with ⟨id, hid⟩ | hreclaimable
  · exact absurd hid (herased id)
  · obtain ⟨-, hretained, hexports, hrefs⟩ := Record.reclaimable_iff.mp hreclaimable
    exact ⟨hrefs, hexports, hretained⟩

/-! ## A closed binding with a staged value -/

def ownedBinding : Record := { served "v1" 1 with ownerPid := 7 }

/-- A binding of a process, with a staged value and a caller attached to that; the process exits. -/
def exitWithStaged : List (Pool.Move Call) :=
  [.call (.insert (some ownedBinding)), .resume 0,
    .call (.insertStagedValue "b" stagedValue callTime), .resume 1, .resume 1,
    .call (.validateAndAcquireAttachmentRef (requestFor "v1" 1) callTime), .resume 2, .resume 2,
    .resume 2, .resume 2,
    .call (.handlePidExit .asIs 7), .resume 3, .resume 3, .resume 3]

/-- The exit of a process closes its binding, which the attachment keeps in the map, and leaves the
staged value there. -/
theorem exit_leaves_staged_value :
    ∃ pool, Reaches step (fun _ _ => True) start pool ∧
      pool.shared.records.lookup "b" = some 0 ∧ (pool.shared.heap 0).closed = true ∧
      (pool.shared.heap 0).retainedRef = false ∧
      ((pool.shared.heap 0).stagedValuesById.lookup "v2").isSome := by
  have hrun : ∃ pool, run step (fun _ _ => true) exitWithStaged start = some pool := ⟨_, rfl⟩
  obtain ⟨pool, hpool⟩ := hrun
  refine ⟨pool, (reaches_of_run hpool).mono fun _ _ _ => trivial, ?_⟩
  cases hpool
  exact ⟨rfl, rfl, rfl, rfl⟩

lemma permitted_of_none_staged {i : ℕ}
    (h : ∀ record, (pool.shared.heap record).stagedValuesById = ∅) :
    Permitted pool (.resume i) := by
  intro c write next _
  cases c with
  | handlePidExit order ownerPid => exact fun record _ _ => h record
  | _ => trivial

lemma none_staged_update {heap : ℕ → Record} {i : ℕ} {r : Record}
    (h : ∀ record, (heap record).stagedValuesById = ∅) (hr : r.stagedValuesById = ∅) :
    ∀ record, (update heap i r record).stagedValuesById = ∅ :=
  (forall_update_iff heap fun _ r => r.stagedValuesById = ∅).mpr ⟨hr, fun record _ => h record⟩

/-- The exit of a process reclaims its binding, to which nothing refers. -/
theorem closed_bindings_hold_nothing_exited :
    ∃ pool, Reaches step Permitted start pool ∧ pool.shared.records.lookup "b" = none ∧
      (pool.shared.heap 0).activeAttachmentRefs ≤ 0 ∧ (pool.shared.heap 0).exportRefs ≤ 0 ∧
      (pool.shared.heap 0).retainedRef = false := by
  have hinsert : Reaches step Permitted start _ :=
    Reaches.snoc (t := .call (.insert (some ownedBinding))) .refl (fun h => by cases h) rfl
  have hinserted := hinsert.snoc (t := .resume 0) (permitted_of_none_staged fun _ => rfl) rfl
  have hcall := hinserted.snoc (t := .call (.handlePidExit .asIs 7)) (by trivial) rfl
  have hheap : ∀ record, (update (fun _ => ({} : Record)) 0 ownedBinding
      record).stagedValuesById = ∅ := none_staged_update (fun _ => rfl) rfl
  have hmatched := hcall.snoc (t := .resume 1) (permitted_of_none_staged hheap) rfl
  have hclosed := hmatched.snoc (t := .resume 1) (permitted_of_none_staged hheap) rfl
  have hheap' := none_staged_update (i := 0) (r := ownedBinding.ownerExited 7) hheap rfl
  have hchecked := hclosed.snoc (t := .resume 1) (permitted_of_none_staged hheap') rfl
  have herased := hchecked.snoc (t := .resume 1)
    (permitted_of_none_staged (none_staged_update hheap' rfl)) rfl
  refine ⟨_, herased, rfl, (closed_bindings_hold_nothing herased).2 0 (by decide) fun id hid => ?_⟩
  cases hid

end TensorCast.Binding
