import TensorCast.Lib.Transition
import TensorCast.Retention.Registry

/-!
# The applied policies

The registry folds the policies of the handles of one selection identity, not those of all handles
whose selections resolve to one target.  So what was applied last for an identity is as strong as each
of its live handles asks for, and of a target this can be said only as long as one identity uses it.
Every call that changes the tables changes those of one identity and then applies its policy:
`Touches`.
-/

namespace TensorCast.Retention

open Core Lifecycle Lib Registry List Option AList
open Authority (ReplicaKey)
open Binding (Duration addDuration)

/-! ## Policies that are strong enough -/

/-- As strong in its class and in its deadline; above `ttl` a policy has no deadline. -/
structure Dominates (effective : EffectivePolicy) (rec : HandleRecord) : Prop where
  rank_le :
    retentionRank rec.policy.retentionPolicy ≤ retentionRank effective.policy.retentionPolicy
  deadline_le : rec.policy.retentionPolicy = .ttl → effective.policy.retentionPolicy = .ttl →
    ∃ deadline ∈ effective.retentionDeadline, rec.expiresAt ≤ deadline

namespace Gathered

variable {g : Gathered} {rec rec' : HandleRecord} {recs : List HandleRecord}

/-- The loop has taken the handle into account. -/
structure Bounds (g : Gathered) (rec : HandleRecord) : Prop where
  rank_le : retentionRank rec.policy.retentionPolicy ≤ retentionRank g.policy.retentionPolicy
  expiry_le : rec.policy.retentionPolicy = .ttl → rec.expiresAt ≤ g.maxExpiry

lemma rank_add (g : Gathered) (rec : HandleRecord) :
    retentionRank (g.add rec).policy.retentionPolicy =
      max (retentionRank g.policy.retentionPolicy) (retentionRank rec.policy.retentionPolicy) := by
  have hpolicy : (g.add rec).policy.retentionPolicy =
      if retentionRank rec.policy.retentionPolicy > retentionRank g.policy.retentionPolicy then
        rec.policy.retentionPolicy
      else g.policy.retentionPolicy := by
    rw [add]
    split_ifs <;> rfl
  rw [hpolicy, max_def_lt]
  exact apply_ite retentionRank _ _ _

lemma maxExpiry_add (g : Gathered) (rec : HandleRecord) :
    (g.add rec).maxExpiry =
      if rec.policy.retentionPolicy = .ttl then max g.maxExpiry rec.expiresAt
      else g.maxExpiry := by
  split_ifs with httl
  · rw [add, if_pos httl, max_def_lt]
  · rw [add, if_neg httl]

lemma Bounds.add (h : g.Bounds rec) (rec' : HandleRecord) : (g.add rec').Bounds rec := by
  constructor
  · rw [rank_add]
    exact h.rank_le.trans (le_max_left _ _)
  · intro httl
    rw [maxExpiry_add]
    split_ifs
    · exact (h.expiry_le httl).trans (le_max_left _ _)
    · exact h.expiry_le httl

lemma bounds_add (g : Gathered) (rec : HandleRecord) : (g.add rec).Bounds rec := by
  constructor
  · rw [rank_add]
    exact le_max_right _ _
  · intro httl
    rw [maxExpiry_add, if_pos httl]
    exact le_max_right _ _

lemma Bounds.foldl (h : g.Bounds rec) (recs : List HandleRecord) :
    (recs.foldl Gathered.add g).Bounds rec := by
  induction recs generalizing g with
  | nil => exact h
  | cons rec' recs ih => exact ih (h.add rec')

lemma bounds_foldl (hrec : rec ∈ recs) (g : Gathered) : (recs.foldl Gathered.add g).Bounds rec := by
  induction recs generalizing g with
  | nil => cases hrec
  | cons rec' recs ih =>
    rcases mem_cons.mp hrec with rfl | htail
    · exact (bounds_add g rec).foldl recs
    · exact ih htail (g.add rec')

lemma effective_retentionPolicy (g : Gathered) :
    g.effective.policy.retentionPolicy = g.policy.retentionPolicy := by
  rw [effective]
  split_ifs <;> rfl

lemma Bounds.dominates (h : g.Bounds rec) (hexpires : rec.expiresAt ≠ ⊥) :
    Dominates g.effective rec := by
  constructor
  · rw [effective_retentionPolicy]
    exact h.rank_le
  · intro httl heffective
    rw [effective_retentionPolicy] at heffective
    -- the deadline is set, since an expiry above `InfinitePast` was seen
    have hmax : g.maxExpiry ≠ ⊥ := fun hbot => hexpires (le_bot_iff.mp (hbot ▸ h.expiry_le httl))
    refine ⟨g.maxExpiry, ?_, h.expiry_le httl⟩
    rw [effective, if_pos heffective]
    exact if_pos hmax

end Gathered

section Effective

variable {handles handles' : AList fun _ : String => HandleRecord} {selection : SelectionRecord}
  {handleId : String} {rec : HandleRecord}

lemma dominates_computeEffectivePolicy (hid : handleId ∈ selection.handles)
    (hrec : handles.lookup handleId = some rec) (hexpires : rec.expiresAt ≠ ⊥) :
    Dominates (computeEffectivePolicy handles selection) rec := by
  have hmem : rec ∈ selection.records handles := mem_filterMap.mpr ⟨handleId, hid, hrec⟩
  rw [computeEffectivePolicy, if_neg (ne_nil_of_mem hid)]
  exact (Gathered.bounds_foldl hmem {}).dominates hexpires

lemma computeEffectivePolicy_congr
    (h : ∀ handleId ∈ selection.handles, handles'.lookup handleId = handles.lookup handleId) :
    computeEffectivePolicy handles' selection = computeEffectivePolicy handles selection := by
  have hrecords : selection.records handles' = selection.records handles :=
    filterMap_congr h
  rw [computeEffectivePolicy, computeEffectivePolicy, hrecords]

lemma computeEffectivePolicy_nil (h : selection.handles = []) :
    computeEffectivePolicy handles selection = baseline := if_pos h

end Effective

/-! ## What was applied last -/

namespace Registry

/-- The call of `update_policy` that was made last for a selection identity. -/
def lastFor (r : Registry) (key : SelectionIdentity) : Option Application :=
  r.applied.find? fun application => application.selectionKey = key

/-- The call of `update_policy` that was made last on a target. -/
def lastAt (r : Registry) (target : ReplicaKey) : Option Application :=
  r.applied.find? fun application => application.target.key = target

variable {r r' : Registry} {application : Application}

lemma lastFor_cons (h : r'.applied = application :: r.applied) (key : SelectionIdentity) :
    r'.lastFor key = if application.selectionKey = key then some application
      else r.lastFor key := by
  rw [lastFor, h, lastFor]
  split_ifs with hkey <;> simp [hkey]

lemma lastAt_cons (h : r'.applied = application :: r.applied) (target : ReplicaKey) :
    r'.lastAt target = if application.target.key = target then some application
      else r.lastAt target := by
  rw [lastAt, h, lastAt]
  split_ifs with htarget <;> simp [htarget]

end Registry

/-! ## Changes of one selection -/

section Invariant

variable {config : Config} {r r' : Registry} {handleId : String} {rec : HandleRecord}
  {key : SelectionIdentity} {selection : SelectionRecord}

/-- The tables agree with each other and with what was applied last. -/
structure Aggregated (config : Config) (r : Registry) : Prop where
  held : ∀ key selection, r.selections.lookup key = some selection →
    selection.handles ≠ [] ∧ ∀ handleId ∈ selection.handles,
      ∃ rec, r.handles.lookup handleId = some rec ∧ rec.selectionKey = key
  recorded : ∀ handleId rec, r.handles.lookup handleId = some rec →
    ∃ selection, r.selections.lookup rec.selectionKey = some selection ∧
      handleId ∈ selection.handles
  timed : ∀ handleId rec, r.handles.lookup handleId = some rec → rec.expiresAt ≠ ⊥
  served : ∀ handleId rec, r.handles.lookup handleId = some rec → config.backend = true
  current : ∀ key selection, r.selections.lookup key = some selection →
    r.lastFor key = some ⟨key, selection.target, computeEffectivePolicy r.handles selection⟩
  dropped : ∀ key, r.selections.lookup key = none →
    ∀ application, r.lastFor key = some application → application.effective = baseline
  /-- what is not the baseline was applied last for a selection that is still there -/
  targets : ∀ target application, r.lastAt target = some application →
    application.effective = baseline ∨
      r.lastFor application.selectionKey = some application ∧
        r.selections.lookup application.selectionKey ≠ none

/-- One handle changes, and the selection it belongs to, whose policy is then applied. -/
structure Touches (r r' : Registry) (handleId : String) (key : SelectionIdentity)
    (selection : SelectionRecord) : Prop where
  handles : ∀ other ≠ handleId, r'.handles.lookup other = r.handles.lookup other
  selections : ∀ other ≠ key, r'.selections.lookup other = r.selections.lookup other
  selected : r'.selections.lookup key = if selection.handles = [] then none else some selection
  /-- the target of a selection stays the one it was entered with -/
  target : ∀ old, r.selections.lookup key = some old → old.target = selection.target
  own : ∀ rec, r.handles.lookup handleId = some rec → rec.selectionKey = key
  own' : ∀ rec, r'.handles.lookup handleId = some rec → rec.selectionKey = key
  timed : ∀ rec, r'.handles.lookup handleId = some rec → rec.expiresAt ≠ ⊥
  members : ∀ other ∈ selection.handles,
    ∃ rec, r'.handles.lookup other = some rec ∧ rec.selectionKey = key
  recorded : ∀ other rec, r'.handles.lookup other = some rec → rec.selectionKey = key →
    other ∈ selection.handles
  applied : r'.applied =
    ⟨key, selection.target, computeEffectivePolicy r'.handles selection⟩ :: r.applied

namespace Touches

variable (h : Touches r r' handleId key selection) {other : SelectionIdentity}

include h

lemma effective_other (hr : Aggregated config r) (hne : other ≠ key)
    {old : SelectionRecord} (hold : r.selections.lookup other = some old) :
    computeEffectivePolicy r'.handles old = computeEffectivePolicy r.handles old := by
  refine computeEffectivePolicy_congr fun i hi => h.handles i ?_
  rintro rfl
  obtain ⟨rec, hrec, hkey⟩ := (hr.held other old hold).2 i hi
  exact hne (hkey.symm.trans (h.own rec hrec))

lemma lastFor_self :
    r'.lastFor key = some ⟨key, selection.target, computeEffectivePolicy r'.handles selection⟩ := by
  rw [lastFor_cons h.applied, if_pos rfl]

lemma lastFor_other (hne : other ≠ key) : r'.lastFor other = r.lastFor other := by
  rw [lastFor_cons h.applied, if_neg hne.symm]

lemma lookup_self {found : SelectionRecord} (hfound : r'.selections.lookup key = some found) :
    selection.handles ≠ [] ∧ found = selection := by
  rw [h.selected] at hfound
  split_ifs at hfound with hnil
  exact ⟨hnil, (some_inj.mp hfound).symm⟩

section

variable (hr : Aggregated config r)

include hr

lemma held {other : SelectionIdentity} {found : SelectionRecord}
    (hfound : r'.selections.lookup other = some found) :
    found.handles ≠ [] ∧ ∀ i ∈ found.handles,
      ∃ rec, r'.handles.lookup i = some rec ∧ rec.selectionKey = other := by
  rcases eq_or_ne other key with rfl | hne
  · obtain ⟨hnil, rfl⟩ := h.lookup_self hfound
    exact ⟨hnil, h.members⟩
  · rw [h.selections other hne] at hfound
    refine ⟨(hr.held other found hfound).1, fun i hi => ?_⟩
    obtain ⟨rec, hrec, hkey⟩ := (hr.held other found hfound).2 i hi
    have hi : i ≠ handleId := by
      rintro rfl
      exact hne (hkey.symm.trans (h.own rec hrec))
    exact ⟨rec, (h.handles i hi).trans hrec, hkey⟩

lemma recorded_all {i : String} {rec : HandleRecord} (hrec : r'.handles.lookup i = some rec) :
    ∃ found, r'.selections.lookup rec.selectionKey = some found ∧ i ∈ found.handles := by
  rcases eq_or_ne rec.selectionKey key with hkey | hne
  · have hi := h.recorded i rec hrec hkey
    exact ⟨selection, by rw [hkey, h.selected, if_neg (ne_nil_of_mem hi)], hi⟩
  · have hi : i ≠ handleId := by
      rintro rfl
      exact hne (h.own' rec hrec)
    rw [h.handles i hi] at hrec
    rw [h.selections _ hne]
    exact hr.recorded i rec hrec

lemma targets {target : ReplicaKey} {application : Application}
    (hlast : r'.lastAt target = some application) :
    application.effective = baseline ∨
      r'.lastFor application.selectionKey = some application ∧
        r'.selections.lookup application.selectionKey ≠ none := by
  rw [lastAt_cons h.applied] at hlast
  split_ifs at hlast with htarget
  · cases hlast
    by_cases hnil : selection.handles = []
    · exact .inl (computeEffectivePolicy_nil hnil)
    · refine .inr ⟨h.lastFor_self, ?_⟩
      rw [h.selected, if_neg hnil]
      exact some_ne_none selection
  · rcases hr.targets target application hlast with hbase | ⟨hfor, hlive⟩
    · exact .inl hbase
    · refine .inr ?_
      have hne : application.selectionKey ≠ key := by
        rintro rfl
        obtain ⟨old, hold⟩ := ne_none_iff_exists'.mp hlive
        have happ : application = ⟨_, old.target, _⟩ :=
          some_inj.mp (hfor.symm.trans (hr.current _ old hold))
        have hat : application.target.key = target := by
          simpa using find?_some hlast
        rw [happ] at hat
        exact htarget (h.target old hold ▸ hat)
      rw [h.lastFor_other hne, h.selections _ hne]
      exact ⟨hfor, hlive⟩

lemma aggregated (hbackend : config.backend = true) :
    Aggregated config r' where
  held _ _ := h.held hr
  recorded _ _ := h.recorded_all hr
  timed i rec hrec := by
    rcases eq_or_ne i handleId with rfl | hne
    · exact h.timed rec hrec
    · exact hr.timed i rec (h.handles i hne ▸ hrec)
  served _ _ _ := hbackend
  current other found hfound := by
    rcases eq_or_ne other key with rfl | hne
    · obtain ⟨-, rfl⟩ := h.lookup_self hfound
      exact h.lastFor_self
    · rw [h.selections other hne] at hfound
      rw [h.lastFor_other hne, h.effective_other hr hne hfound]
      exact hr.current other found hfound
  dropped other hnone application hlast := by
    rcases eq_or_ne other key with rfl | hne
    · rw [h.lastFor_self] at hlast
      cases hlast
      refine computeEffectivePolicy_nil ?_
      by_contra hnil
      rw [h.selected, if_neg hnil] at hnone
      cases hnone
    · rw [h.selections other hne] at hnone
      rw [h.lastFor_other hne] at hlast
      exact hr.dropped other hnone application hlast
  targets _ _ := h.targets hr

end

end Touches

/-! ## The operations -/

lemma touches_enterHandle (hr : Aggregated config r) (hbackend : config.backend = true)
    (hfresh : r.handles.lookup handleId = none) {grant : Grant} (htimed : grant.expiresAt ≠ ⊥)
    (leaseId : UInt64) :
    Touches r (r.enterHandle config handleId grant leaseId) handleId grant.identity
      (r.enteredSelection handleId grant) := by
  rw [enterHandle, applyEffectivePolicy, if_pos hbackend]
  constructor
  case handles => exact fun other hne => lookup_insert_ne hne
  case selections => exact fun other hne => lookup_insert_ne hne
  case selected =>
    have hne : (r.enteredSelection handleId grant).handles ≠ [] :=
      ne_nil_of_mem mem_insert_self
    rw [if_neg hne]
    exact lookup_insert _
  case target =>
    intro old hold
    rw [enteredSelection, hold]
    exact (if_neg (hr.held _ old hold).1).symm
  case own =>
    intro rec hrec
    rw [hfresh] at hrec
    cases hrec
  case own' =>
    intro rec hrec
    cases (lookup_insert _).symm.trans hrec
    rfl
  case timed =>
    intro rec hrec
    cases (lookup_insert _).symm.trans hrec
    exact htimed
  case members =>
    intro other hother
    rcases mem_insert_iff.mp hother with rfl | hold
    · exact ⟨_, lookup_insert _, rfl⟩
    · cases hlookup : r.selections.lookup grant.identity with
      | none =>
        rw [hlookup] at hold
        cases hold
      | some old =>
        rw [hlookup] at hold
        obtain ⟨rec, hrec, hkey⟩ := (hr.held _ old hlookup).2 other hold
        have hne : other ≠ handleId := by
          rintro rfl
          rw [hfresh] at hrec
          cases hrec
        exact ⟨rec, (lookup_insert_ne hne).trans hrec, hkey⟩
  case recorded =>
    intro other rec hrec hkey
    rcases eq_or_ne other handleId with rfl | hne
    · exact mem_insert_self
    · obtain ⟨old, hold, hmem⟩ :=
        hr.recorded other rec ((lookup_insert_ne hne).symm.trans hrec)
      rw [hkey] at hold
      rw [enteredSelection, hold]
      exact mem_insert_of_mem hmem
  case applied => rfl

lemma touches_extendHandle (hr : Aggregated config r) (hrec : r.handles.lookup handleId = some rec)
    (hselection : r.selections.lookup rec.selectionKey = some selection) {expiresAt : Time}
    (htimed : expiresAt ≠ ⊥) :
    Touches r (r.extendHandle config handleId rec selection expiresAt) handleId rec.selectionKey
      selection := by
  rw [extendHandle, applyEffectivePolicy, if_pos (hr.served _ _ hrec)]
  constructor
  case handles => exact fun other hne => lookup_insert_ne hne
  case selections => exact fun _ _ => rfl
  case selected =>
    rw [if_neg (hr.held _ _ hselection).1]
    exact hselection
  case target =>
    intro old hold
    rw [some_inj.mp (hold.symm.trans hselection)]
  case own =>
    intro rec' hrec'
    rw [some_inj.mp (hrec'.symm.trans hrec)]
  case own' =>
    intro rec' hrec'
    cases (lookup_insert _).symm.trans hrec'
    rfl
  case timed =>
    intro rec' hrec'
    cases (lookup_insert _).symm.trans hrec'
    exact htimed
  case members =>
    intro other hother
    obtain ⟨rec', hrec', hkey⟩ := (hr.held _ _ hselection).2 other hother
    rcases eq_or_ne other handleId with rfl | hne
    · exact ⟨_, lookup_insert _, rfl⟩
    · exact ⟨rec', (lookup_insert_ne hne).trans hrec', hkey⟩
  case recorded =>
    intro other rec' hrec' hkey
    rcases eq_or_ne other handleId with rfl | hne
    · obtain ⟨found, hfound, hmem⟩ := hr.recorded other rec hrec
      rwa [some_inj.mp (hselection.symm.trans hfound)]
    · obtain ⟨found, hfound, hmem⟩ :=
        hr.recorded other rec' ((lookup_insert_ne hne).symm.trans hrec')
      rw [hkey] at hfound
      rwa [some_inj.mp (hselection.symm.trans hfound)]
  case applied => rfl

def SelectionRecord.without (selection : SelectionRecord) (handleId : String) : SelectionRecord :=
  { selection with handles := selection.handles.filter (· ≠ handleId) }

lemma SelectionRecord.mem_without {other : String} :
    other ∈ (selection.without handleId).handles ↔ other ∈ selection.handles ∧ other ≠ handleId := by
  simp [without]

lemma touches_expireHandle (hr : Aggregated config r) (hrec : r.handles.lookup handleId = some rec)
    (hselection : r.selections.lookup rec.selectionKey = some selection) :
    Touches r (r.expireHandle config handleId) handleId rec.selectionKey
      (selection.without handleId) := by
  simp only [expireHandle, hrec, removeHandle, hselection,
    applyRemaining, applyEffectivePolicy, if_pos (hr.served _ _ hrec)]
  have hgone (rec' : HandleRecord) : (r.handles.erase handleId).lookup handleId ≠ some rec' := by
    rw [lookup_erase]
    nofun
  constructor
  case handles => exact fun other hne => lookup_erase_ne hne
  case selections =>
    intro other hne
    split_ifs
    · exact lookup_erase_ne hne
    · exact lookup_insert_ne hne
  case selected =>
    change AList.lookup _ (if (selection.without handleId).handles = [] then _ else _) = _
    split_ifs
    · exact lookup_erase _ _
    · exact lookup_insert _
  case target =>
    intro old hold
    rw [some_inj.mp (hold.symm.trans hselection)]
    rfl
  case own =>
    intro rec' hrec'
    rw [some_inj.mp (hrec'.symm.trans hrec)]
  case own' => exact fun rec' hrec' => absurd hrec' (hgone rec')
  case timed => exact fun rec' hrec' => absurd hrec' (hgone rec')
  case members =>
    intro other hother
    obtain ⟨hmem, hne⟩ := SelectionRecord.mem_without.mp hother
    obtain ⟨rec', hrec', hkey⟩ := (hr.held _ _ hselection).2 other hmem
    exact ⟨rec', (lookup_erase_ne hne).trans hrec', hkey⟩
  case recorded =>
    intro other rec' hrec' hkey
    have hne : other ≠ handleId := by
      rintro rfl
      exact hgone rec' hrec'
    obtain ⟨_, hfound, hmem⟩ :=
      hr.recorded other rec' ((lookup_erase_ne hne).symm.trans hrec')
    rw [hkey] at hfound
    cases hselection.symm.trans hfound
    exact SelectionRecord.mem_without.mpr ⟨hmem, hne⟩
  case applied => rfl

lemma Aggregated.expireHandle (hr : Aggregated config r) (handleId : String) :
    Aggregated config (r.expireHandle config handleId) := by
  cases hrec : r.handles.lookup handleId with
  | none =>
    rw [Registry.expireHandle, hrec]
    exact hr
  | some rec =>
    obtain ⟨_, hselection, -⟩ := hr.recorded handleId rec hrec
    exact (touches_expireHandle hr hrec hselection).aggregated hr (hr.served _ _ hrec)

lemma release_cases (config : Config) (token : StatusOr String) (r : Registry) :
    (r.release config token).2 = r ∨
      ∃ handleId, (r.release config token).2 = r.expireHandle config handleId := by
  unfold release
  split_ifs
  · exact .inl rfl
  · cases token with
    | error e => exact .inl rfl
    | ok handleId =>
      dsimp only
      cases hrec : r.handles.lookup handleId with
      | none => exact .inl rfl
      | some rec =>
        have hgone : (r.removeHandle handleId rec).1.handles.lookup handleId = none := by
          rw [removeHandle]
          split <;> exact lookup_erase _ _
        refine .inr ⟨handleId, ?_⟩
        simp only [expireHandle, hrec, hgone, ite_self]

lemma addDuration_ne_bot (now : ℤ) {ttl : Duration} (h : ¬ ttl ≤ zeroDuration) :
    addDuration ((now : WithTop ℤ) : Time) ttl ≠ ⊥ := by
  rcases ttl with _ | _ | n
  · exact absurd bot_le h
  · nofun
  · nofun

lemma AcquireCall.check_eq_ok {call : AcquireCall} {grant : Grant}
    (h : call.check config = .ok grant) :
    config.backend = true ∧ grant.expiresAt ≠ ⊥ := by
  simp only [AcquireCall.check, bind_eq_ok, refuseIf_eq_ok] at h
  obtain ⟨-, -, -, hbackend, -, -, -, -, -, -, _, -, -, -, -, -, resolved, -, h⟩ := h
  cases resolved with
  | none => cases h
  | some policy =>
    simp only [bind_eq_ok, refuseIf_eq_ok] at h
    obtain ⟨-, hpositive, _, -, h⟩ := h
    cases h
    exact ⟨by simpa using hbackend, addDuration_ne_bot _ hpositive⟩

lemma RenewCall.check_eq_ok {call : RenewCall} {expiresAt : Time} {token : String}
    (h : call.check config r = .ok (handleId, rec, selection, expiresAt, token)) :
    r.handles.lookup handleId = some rec ∧
      r.selections.lookup rec.selectionKey = some selection ∧ expiresAt ≠ ⊥ := by
  simp only [RenewCall.check, bind_eq_ok] at h
  obtain ⟨-, -, -, -, _, -, h⟩ := h
  split at h
  swap
  · cases h
  rename_i rec' hrec
  split at h
  swap
  · cases h
  rename_i found hselection
  simp only [bind_eq_ok, refuseIf_eq_ok] at h
  obtain ⟨-, -, -, hpositive, -, -, -, -, token, -, -, -, h⟩ := h
  cases h
  exact ⟨hrec, hselection, addDuration_ne_bot _ hpositive⟩

lemma Aggregated.acquire (hr : Aggregated config r) (call : AcquireCall)
    (hfresh : r.handles.lookup call.handleId = none) :
    Aggregated config (r.acquire config call).2 := by
  have hundone : r.expireHandle config call.handleId = r := by
    rw [Registry.expireHandle, hfresh]
  rw [Registry.acquire]
  cases hcheck : call.check config with
  | error e => exact hr
  | ok grant =>
    obtain ⟨hbackend, htimed⟩ := call.check_eq_ok hcheck
    rw [hundone]
    rcases call.lease with e | leaseId
    · exact hr
    rcases call.token with e | token
    · exact hr
    rcases call.admission with e | admission
    · exact hr
    rcases call.capability with e | _
    · exact hr
    · exact (touches_enterHandle hr hbackend hfresh htimed leaseId).aggregated hr hbackend

lemma Aggregated.renew (hr : Aggregated config r) (call : RenewCall) :
    Aggregated config (r.renew config call).2 := by
  rw [Registry.renew]
  cases hcheck : call.check config r with
  | error e => exact hr
  | ok found =>
    obtain ⟨hrec, hselection, htimed⟩ := RenewCall.check_eq_ok hcheck
    exact (touches_extendHandle hr hrec hselection htimed).aggregated hr (hr.served _ _ hrec)

lemma Aggregated.release (hr : Aggregated config r) (token : StatusOr String) :
    Aggregated config (r.release config token).2 := by
  rcases release_cases config token r with h | ⟨handleId, h⟩
  · rw [h]
    exact hr
  · rw [h]
    exact hr.expireHandle handleId

lemma aggregated_start (config : Config) : Aggregated config {} where
  held _ _ h := nomatch h
  recorded _ _ h := nomatch h
  timed _ _ h := nomatch h
  served _ _ h := nomatch h
  current _ _ h := nomatch h
  dropped _ _ _ h := nomatch h
  targets _ _ h := nomatch h

lemma Aggregated.run {op : Op} (hr : Aggregated config r) (hfresh : op.Fresh r) :
    Aggregated config (op.run config r) := by
  cases op with
  | acquire call => exact hr.acquire call hfresh
  | renew call => exact hr.renew call
  | release token => exact hr.release token
  | expire handleId => exact hr.expireHandle handleId

lemma Aggregated.of_reaches (h : Reaches (step config) (fun r (op : Op) => op.Fresh r) {} r) :
    Aggregated config r := by
  refine h.invariant (aggregated_start config) fun r op r' _ hfresh hstep hr => ?_
  cases hstep
  exact hr.run hfresh

section

variable (hr : Aggregated config r) (hselection : r.selections.lookup key = some selection)

include hr hselection

lemma Aggregated.dominates (hid : handleId ∈ selection.handles)
    (hrec : r.handles.lookup handleId = some rec) {application : Application}
    (hlast : r.lastFor key = some application) : Dominates application.effective rec := by
  cases (hr.current key selection hselection).symm.trans hlast
  exact dominates_computeEffectivePolicy hid hrec (hr.timed _ _ hrec)

lemma Aggregated.lastAt_of_single (hsingle : ∀ application ∈ r.applied,
      application.target.key = selection.target.key → application.selectionKey = key) :
    r.lastAt selection.target.key = r.lastFor key := by
  have hlast := hr.current key selection hselection
  rw [hlast]
  obtain ⟨-, before, after, happlied, hbefore⟩ := find?_eq_some_iff_append.mp hlast
  refine find?_eq_some_iff_append.mpr ⟨by simp, before, after, happlied, ?_⟩
  intro application hmem
  have hkey : application.selectionKey ≠ key := by simpa using hbefore application hmem
  have hmem : application ∈ r.applied := happlied ▸ mem_append_left _ hmem
  simpa using fun htarget => hkey (hsingle application hmem htarget)

end

end Invariant

/-! ## Strongest policies per selection -/

/-- A registry that grants handles. -/
def granting : Config := { enabled := true }

/-- A selection of all tensors of a view, or of a subset of them. -/
def selectionOf (selectionHash : String) : ArtifactSelection :=
  { artifactId := "a", viewId := "v", logicalLayoutHash := "layout", selectionHash }

/-- A call of `acquire` that nothing refuses. -/
def acquireFor (selectionHash handleId : String) (policy : StableDramCachePolicy) : Op :=
  .acquire
    { selection := selectionOf selectionHash
      ttlMs := 1000
      stablePolicy := .ok (some policy)
      now := 0
      getReplicaSize := fun _ => .ok 64
      handleId
      lease := .ok 1
      token := .ok "token"
      admission := .ok { admitted := true }
      capability := .ok () }

def pinnedPolicy : StableDramCachePolicy := { retentionPolicy := .pinned }

/-- A handle with a deadline and one that is pinned, for one selection. -/
def heldTwice : Registry :=
  (acquireFor "all" "second" pinnedPolicy).run granting
    ((acquireFor "all" "first" { retentionPolicy := .ttl }).run granting {})

end TensorCast.Retention
