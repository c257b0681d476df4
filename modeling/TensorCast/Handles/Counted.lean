import TensorCast.Handles.Operations
import TensorCast.Lib.Counts

/-!
# The sections and the references they count

A reference to an export state is held by the record of a lease, or by a call in progress.
`Registry.Counted` says that the states in the tables count all of them, and that every reference is
to a state in the tables.  Each section keeps this.
-/

namespace TensorCast.Handles

open Core Lifecycle Lib List Multiset AList Nat
open Function (update update_self update_of_ne)
open Authority (ReplicaKey)

namespace Registry

variable {r r' : Registry} {ref ref' : ExportRef} {held : Multiset ExportRef} {s : StateId}
  {state : ExportState} {token : Token} {id : UInt64}

/-! ## Which states are in the tables -/

/-- The count of a state that is in its table. -/
def count (r : Registry) (ref : ExportRef) : Option ℕ :=
  if r.Has ref then some (r.states ref.state).refcount else none

lemma count_of_has (h : r.Has ref) : r.count ref = some (r.states ref.state).refcount :=
  if_pos h

lemma has_of_count {n : ℕ} (h : r.count ref = some n) : r.Has ref := by
  rw [count] at h
  split_ifs at h with hhas
  exact hhas

/-- A state is in one place only. -/
structure Located (r : Registry) : Prop where
  lt_next : ∀ ref, r.Has ref → ref.state < r.nextState
  unique : ∀ ref ref', r.Has ref → r.Has ref' → ref.state = ref'.state → ref = ref'

def leaseRefs (leases : AList fun _ : Token => LeaseRecord) : Multiset ExportRef :=
  ((values leases).filterMap LeaseRecord.ref? : List ExportRef)

def refs (r : Registry) : Multiset ExportRef := leaseRefs r.leases

section LeaseRefs

variable {leases : AList fun _ : Token => LeaseRecord} {record record' : LeaseRecord}

lemma coe_ref_exported (ref : ExportRef) (id : UInt64) :
    ((LeaseRecord.exported ref id).ref?.toList : Multiset ExportRef) = {ref} := rfl

lemma coe_ref_external (pid : Int32) :
    ((LeaseRecord.external pid).ref?.toList : Multiset ExportRef) = 0 := rfl

lemma coe_filterMap_cons (record : LeaseRecord) (records : List LeaseRecord) :
    ((record :: records).filterMap LeaseRecord.ref? : Multiset ExportRef) =
      (record.ref?.toList : Multiset ExportRef) +
        (records.filterMap LeaseRecord.ref? : List ExportRef) := by
  cases record with
  | exported ref id => rfl
  | external pid => rfl

lemma leaseRefs_insert (leases : AList fun _ : Token => LeaseRecord) (token : Token)
    (record : LeaseRecord) :
    leaseRefs (leases.insert token record) =
      (record.ref?.toList : Multiset ExportRef) + leaseRefs (leases.erase token) := by
  have hperm := (values_insert leases token record).filterMap LeaseRecord.ref?
  rw [leaseRefs, coe_eq_coe.mpr hperm, coe_filterMap_cons]
  rfl

lemma leaseRefs_erase (h : leases.lookup token = some record) :
    leaseRefs leases =
      (record.ref?.toList : Multiset ExportRef) + leaseRefs (leases.erase token) := by
  have hperm := (values_erase h).filterMap LeaseRecord.ref?
  rw [leaseRefs, coe_eq_coe.mpr hperm, coe_filterMap_cons]
  rfl

lemma leaseRefs_insert_new (h : token ∉ leases) (record : LeaseRecord) :
    leaseRefs (leases.insert token record) =
      (record.ref?.toList : Multiset ExportRef) + leaseRefs leases := by
  rw [leaseRefs, values_insert_new h, coe_filterMap_cons]
  rfl

lemma leaseRefs_insert_same (h : leases.lookup token = some record)
    (href : record'.ref? = record.ref?) :
    leaseRefs (leases.insert token record') = leaseRefs leases := by
  rw [leaseRefs_insert, leaseRefs_erase h, href]

lemma erase_eq_self (h : leases.lookup token = none) : leases.erase token = leases :=
  AList.ext (kerase_of_notMem_keys (lookup_eq_none.mp h))

lemma mem_leaseRefs_of_erase (h : ref ∈ leaseRefs (leases.erase token)) : ref ∈ leaseRefs leases := by
  cases hlookup : leases.lookup token with
  | none => rwa [erase_eq_self hlookup] at h
  | some record =>
    rw [leaseRefs_erase hlookup]
    exact mem_add.mpr (.inr h)

lemma leaseRefs_foldl_erase (tokens : List Token) (leases : AList fun _ : Token => LeaseRecord)
    (h : ∀ token ∈ tokens, ∀ record, leases.lookup token = some record → record.ref? = none) :
    leaseRefs (tokens.foldl (fun leases token => leases.erase token) leases) =
      leaseRefs leases := by
  induction tokens generalizing leases with
  | nil => rfl
  | cons token tokens ih =>
    have hkeep : leaseRefs (leases.erase token) = leaseRefs leases := by
      cases hlookup : leases.lookup token with
      | none => rw [erase_eq_self hlookup]
      | some record =>
        rw [leaseRefs_erase hlookup, h token mem_cons_self record hlookup]
        exact (zero_add _).symm
    rw [List.foldl_cons, ih, hkeep]
    intro token' hmem record hlookup
    exact h token' (mem_cons_of_mem token hmem) record (lookup_erase_cases hlookup).2

lemma leaseRefs_dropExternal (r : Registry) (pid : Int32) :
    leaseRefs (r.dropExternal pid).leases = leaseRefs r.leases := by
  refine leaseRefs_foldl_erase _ _ fun token hmem record hrecord => ?_
  have hexternal := of_decide_eq_true (mem_filter.mp hmem).2
  cases hexternal.symm.trans hrecord
  rfl

lemma lookup_foldl_erase (tokens : List Token) (leases : AList fun _ : Token => LeaseRecord)
    (h : token ∉ tokens) :
    (tokens.foldl (fun leases token => leases.erase token) leases).lookup token =
      leases.lookup token := by
  induction tokens generalizing leases with
  | nil => rfl
  | cons token' tokens ih =>
    rw [List.mem_cons, not_or] at h
    rw [List.foldl_cons, ih _ h.2, lookup_erase_ne h.1]

end LeaseRefs

/-- The states count the references, those of the records and some others, and none is in its
table without one. -/
structure Counted (r : Registry) (held : Multiset ExportRef) : Prop where
  located : r.Located
  counts : ∃ holders : List ExportRef, (holders : Multiset ExportRef) = r.refs + held ∧
    Counts (fun ref => ref) holders r.count
  positive : ∀ ref, r.Has ref → 0 < (r.states ref.state).refcount

namespace Counted

lemma empty : Counted {} 0 := by
  have hnone : ∀ ref, ¬ ({} : Registry).Has ref := fun _ h => nomatch h
  refine ⟨⟨fun ref h => absurd h (hnone ref), fun ref _ h => absurd h (hnone ref)⟩, ⟨[], rfl, ?_⟩,
    fun ref h => absurd h (hnone ref)⟩
  exact Counts.empty

lemma has (h : Counted r held) (hmem : ref ∈ r.refs + held) : r.Has ref := by
  obtain ⟨_, hholders, hcounts⟩ := h.counts
  rw [← hholders] at hmem
  obtain ⟨n, hn⟩ := hcounts.recorded ref hmem
  exact has_of_count hn

lemma refcount_eq (h : Counted r held) (hhas : r.Has ref) :
    (r.states ref.state).refcount = (r.refs + held).count ref := by
  obtain ⟨_, hholders, hcounts⟩ := h.counts
  rw [hcounts.count_eq ref _ (count_of_has hhas), ← hholders, coe_count]
  exact countP_congr fun ref' _ => by simp

lemma congr (h : Counted r held) {held' : Multiset ExportRef} (hexports : r'.exports = r.exports)
    (hnext : r'.nextState = r.nextState)
    (hrefcount : ∀ s, (r'.states s).refcount = (r.states s).refcount)
    (hheld : r'.refs + held' = r.refs + held) : Counted r' held' := by
  have hhas : ∀ ref, r'.Has ref ↔ r.Has ref := fun ref => by rw [Has, hexports, Has]
  have hcount : r'.count = r.count := by
    funext ref
    rw [count, hrefcount]
    exact if_congr (hhas ref) rfl rfl
  refine ⟨⟨fun ref hr => ?_, fun ref ref' hr hr' => ?_⟩, ?_, fun ref hr => ?_⟩
  · rw [hnext]
    exact h.located.lt_next ref ((hhas ref).mp hr)
  · exact h.located.unique ref ref' ((hhas ref).mp hr) ((hhas ref').mp hr')
  · rw [hheld, hcount]
    exact h.counts
  · rw [hrefcount]
    exact h.positive ref ((hhas ref).mp hr)

lemma rewrite (h : Counted r held) (hrefcount : state.refcount = (r.states s).refcount) :
    Counted (r.setState s state) held := by
  refine h.congr rfl rfl (fun s' => ?_) rfl
  rcases eq_or_ne s' s with rfl | hne
  · rw [setState_self, hrefcount]
  · rw [setState_ne r hne]

/-! ## References come and go -/

lemma count_setState (hl : r.Located) (hhas : r.Has ref) (state : ExportState) :
    (r.setState ref.state state).count = update r.count ref (some state.refcount) := by
  funext ref'
  have hhas' : (r.setState ref.state state).Has ref' ↔ r.Has ref' := Iff.rfl
  rcases eq_or_ne ref' ref with rfl | hne
  · rw [update_self, count_of_has (hhas'.mpr hhas), setState_self]
  · rw [update_of_ne hne, count, count]
    by_cases hr : r.Has ref'
    · -- the other state is another object
      have hstate : ref'.state ≠ ref.state := fun heq => hne (hl.unique _ _ hr hhas heq)
      rw [if_pos (hhas'.mpr hr), if_pos hr, setState_ne r hstate]
    · rw [if_neg (mt hhas'.mp hr), if_neg hr]

lemma join (h : Counted r held) (hhas : r.Has ref) :
    Counted (r.setState ref.state
      { r.states ref.state with refcount := (r.states ref.state).refcount + 1 }) (ref ::ₘ held) := by
  obtain ⟨holders, hholders, hcounts⟩ := h.counts
  refine ⟨⟨h.located.lt_next, h.located.unique⟩, ⟨ref :: holders, ?_, ?_⟩, fun ref' hr => ?_⟩
  · rw [← cons_coe, hholders, add_cons]
    rfl
  · rw [count_setState h.located hhas]
    exact hcounts.take (count_of_has hhas)
  · rcases eq_or_ne ref'.state ref.state with heq | hne
    · rw [heq, setState_self]
      exact succ_pos _
    · rw [setState_ne r hne]
      exact h.positive ref' hr

lemma add (h : Counted r held) {side : Side} {key : ReplicaKey}
    (hnone : (r.exports side).lookup key = none) (state : ExportState) :
    Counted (r.addState side key state) (⟨side, key, r.nextState⟩ ::ₘ held) := by
  have hhas := has_addState hnone state
  have hne : ∀ ref, r.Has ref → ref.state ≠ r.nextState := fun ref hr =>
    (h.located.lt_next ref hr).ne
  have hnew : ¬ r.Has ⟨side, key, r.nextState⟩ := fun hr => hne _ hr rfl
  have hcount : (r.addState side key state).count =
      update r.count ⟨side, key, r.nextState⟩ (some 1) := by
    funext ref
    by_cases hr : r.Has ref
    · have href : ref ≠ ⟨side, key, r.nextState⟩ := fun heq => hnew (heq ▸ hr)
      rw [update_of_ne href, count_of_has hr, count_of_has ((hhas ref).mpr (.inr hr)),
        addState_ne r _ _ _ (hne ref hr)]
    · rcases eq_or_ne ref ⟨side, key, r.nextState⟩ with rfl | href
      · rw [update_self, count_of_has ((hhas _).mpr (.inl rfl)), addState_self]
      · rw [update_of_ne href, count, if_neg, count, if_neg hr]
        rw [hhas]
        exact not_or.mpr ⟨href, hr⟩
  obtain ⟨holders, hholders, hcounts⟩ := h.counts
  refine ⟨⟨fun ref hr => ?_, fun ref ref' hr hr' heq => ?_⟩,
    ⟨⟨side, key, r.nextState⟩ :: holders, ?_, ?_⟩, fun ref hr => ?_⟩
  · rcases (hhas ref).mp hr with rfl | hr
    · exact lt_succ_self _
    · exact lt_succ_of_lt (h.located.lt_next ref hr)
  · rcases (hhas ref).mp hr with rfl | hr <;> rcases (hhas ref').mp hr' with rfl | hr'
    · rfl
    · exact absurd heq.symm (hne ref' hr')
    · exact absurd heq (hne ref hr)
    · exact h.located.unique ref ref' hr hr' heq
  · rw [← cons_coe, hholders, add_cons]
    rfl
  · -- the state enters with no reference, and the caller takes one
    have hzero : r.count ⟨side, key, r.nextState⟩ = none := if_neg hnew
    have hentered := hcounts.enter hzero
    have htaken := hentered.take (update_self _ _ _)
    rwa [Function.update_idem, ← hcount] at htaken
  · rcases (hhas ref).mp hr with rfl | hr
    · rw [addState_self]
      exact one_pos
    · rw [addState_ne r _ _ _ (hne ref hr)]
      exact h.positive ref hr

lemma count_dropState (hhas : r.Has ref) : (r.dropState ref).count = update r.count ref none := by
  funext ref'
  have hdrop := has_dropState hhas ref'
  rcases eq_or_ne ref' ref with rfl | hne
  · rw [update_self, count, if_neg fun hr => (hdrop.mp hr).2 rfl]
  · rw [update_of_ne hne]
    exact if_congr (hdrop.trans (and_iff_left hne)) rfl rfl

/-- A reference of a call is released. -/
lemma release (h : Counted r (ref ::ₘ held)) : Counted (r.releaseExportState ref).1 held := by
  have hhas : r.Has ref := h.has (mem_add.mpr (.inr (mem_cons_self ref held)))
  obtain ⟨n, hn⟩ := exists_eq_succ_of_ne_zero (h.positive ref hhas).ne'
  obtain ⟨_, hholders, hcounts⟩ := h.counts
  obtain ⟨rest, hrest⟩ : ∃ rest : List ExportRef, (rest : Multiset ExportRef) = r.refs + held :=
    Quot.exists_rep _
  have hcounts : Counts (fun ref => ref) (ref :: rest) r.count := by
    refine hcounts.of_perm (coe_eq_coe.mp ?_)
    rw [hholders, add_cons, ← hrest, cons_coe]
  have hr : r.count ref = some (n + 1) := by rw [count_of_has hhas, hn]
  rw [releaseExportState, if_neg (by simp [hhas, hn])]
  by_cases hzero : n = 0
  · -- the last reference: the state leaves its table
    subst hzero
    rw [if_neg (by simp [hn])]
    have hhas' : (r.setState ref.state
      { r.states ref.state with refcount := (r.states ref.state).refcount - 1 }).Has ref := hhas
    have hdrop := has_dropState hhas'
    refine ⟨⟨fun ref' hr' => ?_, fun ref' ref'' hr' hr'' => ?_⟩, ⟨rest, hrest, ?_⟩,
      fun ref' hr' => ?_⟩
    · exact h.located.lt_next ref' ((hdrop ref').mp hr').1
    · exact h.located.unique ref' ref'' ((hdrop ref').mp hr').1 ((hdrop ref'').mp hr'').1
    · rw [count_dropState hhas', count_setState h.located hhas, Function.update_idem]
      exact hcounts.give_last hr
    · obtain ⟨hr', hne⟩ := (hdrop ref').mp hr'
      have hstate : ref'.state ≠ ref.state := fun heq => hne (h.located.unique _ _ hr' hhas heq)
      rw [dropState, setState_ne r hstate]
      exact h.positive ref' hr'
  · rw [if_pos (by simpa [hn] using hzero)]
    refine ⟨⟨h.located.lt_next, h.located.unique⟩, ⟨rest, hrest, ?_⟩, fun ref' hr' => ?_⟩
    · rw [count_setState h.located hhas]
      have hgive := hcounts.give hr
      simpa [hn] using hgive
    · rcases eq_or_ne ref'.state ref.state with heq | hne
      · rw [heq]
        simpa [hn] using pos_of_ne_zero hzero
      · rw [setState_ne r hne]
        exact h.positive ref' hr'

/-! ## Leases come and go -/

lemma enter (h : Counted r (ref ::ₘ held)) (hnew : token ∉ r.leases) (start : ℤ) (count : UInt32) :
    Counted { r with
      leases := r.leases.insert token (.exported ref id)
      mintWindowStart := start
      mintWindowCount := count } held := by
  refine h.congr rfl rfl (fun _ => rfl) ?_
  rw [refs, leaseRefs_insert_new hnew, coe_ref_exported, singleton_add, cons_add, add_cons, refs]

lemma erase (h : Counted r held) (hlookup : r.leases.lookup token = some (.exported ref id)) :
    Counted (r.eraseToken token) (ref ::ₘ held) := by
  refine h.congr rfl rfl (fun _ => rfl) ?_
  rw [refs, refs, leaseRefs_erase hlookup, coe_ref_exported, singleton_add,
    cons_add, add_cons, eraseToken]

lemma leases (h : Counted r held) {leases : AList fun _ : Token => LeaseRecord}
    (hrefs : leaseRefs leases = leaseRefs r.leases) (start : ℤ) (count : UInt32) (held' : Bool) :
    Counted { r with
      leases
      mintWindowStart := start
      mintWindowCount := count
      mutexHeld := held' } held :=
  h.congr rfl rfl (fun _ => rfl) (by rw [refs, hrefs, refs])

end Counted

/-! ## Cleanups -/

/-- The cleanups are of different leases, and each lease has its record. -/
structure Claims (r : Registry) (cleanups : Multiset Cleanup) : Prop where
  nodup : (cleanups.map Cleanup.token).Nodup
  recorded : ∀ cleanup ∈ cleanups,
    ∃ id, r.leases.lookup cleanup.token = some (.exported cleanup.ref id)

namespace Claims

variable {cleanups cleanups' : Multiset Cleanup} {cleanup : Cleanup}

section

variable (h : Claims r cleanups)

include h

lemma mono (hle : cleanups' ≤ cleanups) : Claims r cleanups' :=
  ⟨nodup_of_le (map_le_map hle) h.nodup,
    fun cleanup hmem => h.recorded cleanup (mem_of_le hle hmem)⟩

lemma leases (hkeep : ∀ token ref id, r.leases.lookup token = some (.exported ref id) →
      ∃ id', r'.leases.lookup token = some (.exported ref id')) : Claims r' cleanups := by
  refine ⟨h.nodup, fun cleanup hmem => ?_⟩
  obtain ⟨id, hid⟩ := h.recorded cleanup hmem
  exact hkeep _ _ _ hid

lemma congr (hleases : r'.leases = r.leases) : Claims r' cleanups :=
  h.leases fun _ _ id hid => ⟨id, by rw [hleases, hid]⟩

lemma insert_new (hnew : token ∉ r.leases) (record : LeaseRecord)
    (hleases : r'.leases = r.leases.insert token record) : Claims r' cleanups := by
  refine h.leases fun token' _ id hid => ⟨id, ?_⟩
  have hne : token' ≠ token := by
    rintro rfl
    exact hnew (mem_of_lookup hid)
  rw [hleases, lookup_insert_ne hne, hid]

lemma enter (hnew : token ∉ r.leases)
    (hleases : r'.leases = r.leases.insert token (.exported ref id)) :
    Claims r' (⟨token, ref⟩ ::ₘ cleanups) := by
  refine ⟨?_, forall_mem_cons.mpr ⟨⟨id, by rw [hleases, lookup_insert]⟩, ?_⟩⟩
  · rw [Multiset.map_cons, Multiset.nodup_cons]
    refine ⟨fun hmem => ?_, h.nodup⟩
    obtain ⟨cleanup, hcleanup, htoken⟩ := mem_map.mp hmem
    obtain ⟨_, hid'⟩ := h.recorded cleanup hcleanup
    rw [show cleanup.token = token from htoken] at hid'
    exact hnew (mem_of_lookup hid')
  · exact (h.insert_new hnew _ hleases).recorded

end

lemma erase (h : Claims r (cleanup ::ₘ cleanups)) : Claims (r.eraseToken cleanup.token) cleanups := by
  have hnodup := h.nodup
  rw [Multiset.map_cons, Multiset.nodup_cons] at hnodup
  refine ⟨hnodup.2, fun cleanup' hmem => ?_⟩
  obtain ⟨id, hid⟩ := h.recorded cleanup' (mem_cons_of_mem hmem)
  have hne : cleanup'.token ≠ cleanup.token := fun heq =>
    hnodup.1 (heq ▸ mem_map_of_mem Cleanup.token hmem)
  exact ⟨id, by rw [eraseToken, lookup_erase_ne hne, hid]⟩

end Claims

end Registry

end TensorCast.Handles
