import TensorCast.Lib.Transition

/-!
# Quiescing a lease

Before a leased artifact is retired its lease is quiesced, which blocks new staged exports, and the
exports that there are get drained.  `create_staged_export` tests for the block in a section of one
lock and records the export in a section of another, with the whole registration in between.
-/

namespace TensorCast.Regions.Quiesce

open Lib
open Function (update)

structure ArtifactDeviceKey where
  artifactId : String
  viewId : String
  deviceId : ℤ
deriving DecidableEq

/-- A lease has been quiesced, and after that its exports were seen to be drained.  It is idle again
when the lease is revoked, swept or replaced. -/
inductive Retirement
  | idle | quiesced | drained
deriving DecidableEq

structure LipManager where
  quiesced : List ArtifactDeviceKey := []
  /-- the tokens of the exports and what they are for -/
  exports : List (String × ArtifactDeviceKey) := []
  /-- the calls of `create_staged_export` between their two sections -/
  creating : List ArtifactDeviceKey := []
  retirement : ArtifactDeviceKey → Retirement := fun _ => .idle

inductive Event
  | checkQuiesced (key : ArtifactDeviceKey)
  /-- a call leaves with an error between its sections -/
  | fail (call : ℕ)
  | recordExport (call : ℕ) (token : String)
  | releaseStagedExport (token : String)
  | quiesceLease (key : ArtifactDeviceKey)
  /-- a round of `wait_exports_drained` that finds no export -/
  | exportsDrained (key : ArtifactDeviceKey)
  /-- the lease is revoked or swept -/
  | endLease (key : ArtifactDeviceKey)
  | putLease (key : ArtifactDeviceKey)

/-- One section, if it does not return early. -/
def step : Event → LipManager → Option LipManager
  | .checkQuiesced key, s =>
    if key ∈ s.quiesced then none else some { s with creating := key :: s.creating }
  | .fail call, s => some { s with creating := s.creating.eraseIdx call }
  | .recordExport call token, s => do
    let key ← s.creating[call]?
    -- `emplace` keeps the record of a token that is there
    let exports :=
      if token ∈ s.exports.map Prod.fst then s.exports else (token, key) :: s.exports
    some { s with creating := s.creating.eraseIdx call, exports }
  | .releaseStagedExport token, s =>
    some { s with exports := s.exports.filter (·.1 ≠ token) }
  | .quiesceLease key, s =>
    let reached := if s.retirement key = .drained then .drained else .quiesced
    some { s with
      quiesced := key :: s.quiesced
      retirement := update s.retirement key reached }
  | .exportsDrained key, s =>
    if key ∈ s.exports.map Prod.snd then none
    else if s.retirement key = .idle then some s
    else some { s with retirement := update s.retirement key .drained }
  | .endLease key, s =>
    some { s with
      quiesced := s.quiesced.filter (· ≠ key)
      retirement := update s.retirement key .idle }
  -- a new lease for the key stays quiesced
  | .putLease key, s => some { s with retirement := update s.retirement key .idle }

/-- A lease is quiesced while no export for it is being created. -/
def settled (s : LipManager) : Event → Bool
  | .quiesceLease key => key ∉ s.creating
  | _ => true

/-- What a retirement that is under way has excluded. -/
structure LipManager.Sound (s : LipManager) : Prop where
  blocked : ∀ key, s.retirement key ≠ .idle → key ∈ s.quiesced ∧ key ∉ s.creating
  drained : ∀ key, s.retirement key = .drained → ∀ token, (token, key) ∉ s.exports

lemma LipManager.Sound.step {s s' : LipManager} {event : Event} (h : s.Sound)
    (hsettled : settled s event = true) (hstep : step event s = some s') : s'.Sound := by
  obtain ⟨hblocked, hdrained⟩ := h
  cases event with
  | recordExport call token =>
    simp only [Quiesce.step, Option.bind_eq_bind, Option.bind_eq_some_iff] at hstep
    obtain ⟨key, _, hstep⟩ := hstep
    cases hstep
    -- the call passed the test, so the key is idle
    have hmem := fun key => List.mem_of_mem_eraseIdx (l := s.creating) (i := call) (a := key)
    constructor <;> grind
  | fail call =>
    cases hstep
    exact ⟨fun key hne => ⟨(hblocked key hne).1,
      fun hmem => (hblocked key hne).2 (List.mem_of_mem_eraseIdx hmem)⟩, hdrained⟩
  | checkQuiesced | quiesceLease | exportsDrained =>
    simp only [Quiesce.step] at hstep
    split_ifs at hstep <;> cases hstep <;> constructor <;> grind [settled]
  | releaseStagedExport | endLease | putLease =>
    cases hstep
    constructor <;> grind [Function.update_apply]

/-- In every run in which no lease is quiesced under the creation of an export, a lease that was
drained after it was quiesced has no export. -/
theorem no_export_after_drain {s : LipManager} {key : ArtifactDeviceKey}
    (hs : Reaches step (fun s event => settled s event = true) {} s)
    (hdrained : s.retirement key = .drained) (token : String) : (token, key) ∉ s.exports := by
  have hsound : s.Sound := by
    refine hs.invariant ?_ fun s event s' _ hsettled hstep h => h.step hsettled hstep
    constructor <;> simp
  exact hsound.drained key hdrained token

theorem no_export_after_drain_of_one : ∃ s : LipManager, s.retirement ⟨"a", "", 0⟩ = .drained ∧
    ("t", ⟨"a", "", 0⟩) ∉ s.exports := by
  obtain ⟨s, hrun⟩ : ∃ s, run step settled
      [.checkQuiesced ⟨"a", "", 0⟩, .recordExport 0 "t", .quiesceLease ⟨"a", "", 0⟩,
        .releaseStagedExport "t", .exportsDrained ⟨"a", "", 0⟩] {} = some s := ⟨_, rfl⟩
  have hdrained : s.retirement ⟨"a", "", 0⟩ = .drained := by
    cases hrun
    rfl
  exact ⟨s, hdrained, no_export_after_drain (reaches_of_run hrun) hdrained "t"⟩

/-- A call that has passed the test records its export after the lease was quiesced and drained. -/
theorem export_after_drain : ∃ s : LipManager,
    run step (fun _ _ => true)
      [.checkQuiesced ⟨"a", "", 0⟩, .quiesceLease ⟨"a", "", 0⟩, .exportsDrained ⟨"a", "", 0⟩,
        .recordExport 0 "t"] {} = some s ∧
    s.retirement ⟨"a", "", 0⟩ = .drained ∧ ("t", ⟨"a", "", 0⟩) ∈ s.exports :=
  ⟨_, rfl, rfl, .head _⟩

end TensorCast.Regions.Quiesce
