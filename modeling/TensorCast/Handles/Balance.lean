import TensorCast.Handles.Counted

/-!
# The counts of the export states

In every interleaving of the calls, the count of an export state is the number of the leases and of
the calls in progress that refer to it.  Once the calls are over, only the leases are left.
-/

namespace TensorCast.Handles

open Core Lifecycle Lib Action Sessions.Action Registry List Multiset Option AList
open Authority (ReplicaKey)

variable {config : Config} {w w' : World} {a : Action} {others : Multiset Action}
  {more : List Action}

/-! ## What calls in progress hold -/

/-- The reference that a call holds in front of an action. -/
def Action.holds : Action → Option ExportRef
  | .await req s | .prepare req s | .acquireStable req s _ _ | .exportOn req s _
  | .install req s _ | .record req s => some (req.ref s)
  | .releaseState ref => some ref
  | _ => none

/-- The lease that is about to be taken down, or handed over with its cleanup. -/
def Action.owes : Action → Option Cleanup
  | .createLease _ cleanup | .eraseToken cleanup => some cleanup
  | .lifecycle a => a.runs.join
  | _ => none

/-- The actions outside of the sections of the registry and of the lifecycle manager. -/
def Action.between : Action → Bool
  | .await _ _ | .prepare _ _ | .acquireStable _ _ _ _ | .exportOn _ _ _ | .mintCapability _ _
  | .exportOff _ _ | .releaseStable _ | .backend _ | .answer _ => true
  | _ => false

/-- The cleanups that the lifecycle manager has. -/
def World.callbacks (w : World) : Multiset Cleanup := w.lifecycle.manager.callbacks.filterMap id

structure Balanced (w : World) (pending : Multiset Action) : Prop where
  counted : w.registry.Counted (pending.filterMap holds)
  claims : w.registry.Claims (w.callbacks + pending.filterMap owes)
  labelled : w.lifecycle.manager.Labelled
  foreign : ∀ a, .lifecycle a ∈ pending → ∀ f ∈ a.handsOver, f = none

lemma filterMap_cons_toList {α β : Type} (f : α → Option β) (a : α) (s : Multiset α) :
    (a ::ₘ s).filterMap f = ((f a).toList : Multiset β) + s.filterMap f := by
  cases h : f a with
  | none => rw [filterMap_cons_none a s h, toList_none, coe_nil, zero_add]
  | some b => rw [filterMap_cons_some f a s h, toList_some, coe_singleton, singleton_add]

namespace Balanced

lemma has (h : Balanced w others) (ha : a ∈ others) {ref : ExportRef}
    (hholds : a.holds = some ref) : w.registry.Has ref :=
  h.counted.has (mem_add.mpr (.inr ((mem_filterMap _ _).mpr ⟨a, ha, hholds⟩)))

/-- A multiset with one more element, or none. -/
def withOne {α : Type} : Option α → Multiset α → Multiset α
  | none, m => m
  | some x, m => x ::ₘ m

lemma toList_add {α : Type} (o : Option α) (m : Multiset α) :
    (o.toList : Multiset α) + m = withOne o m := by
  cases o with
  | none => exact zero_add m
  | some x => exact singleton_add x m

section

variable (h : Balanced w (a ::ₘ others))

include h

/-- What a single action has to do to keep the balance: its own references and cleanups become those
of the actions that follow. -/
lemma of_act
    (hcounted : ∀ held, w.registry.Counted ((a.holds.toList : Multiset ExportRef) + held) →
      w'.registry.Counted ((more.filterMap holds : List ExportRef) + held))
    (hclaims : ∀ cleanups,
      w.registry.Claims (w.callbacks + (a.owes.toList : Multiset Cleanup) + cleanups) →
        w'.registry.Claims (w'.callbacks + (more.filterMap owes : List Cleanup) + cleanups))
    (hlabelled : w'.lifecycle.manager.Labelled)
    (hforeign : ∀ b, .lifecycle b ∈ more → ∀ f ∈ b.handsOver, f = none) :
    Balanced w' (↑more + others) := by
  refine ⟨?_, ?_, hlabelled, fun b hb => ?_⟩
  · rw [filterMap_add]
    refine hcounted _ ?_
    rw [← filterMap_cons_toList]
    exact h.counted
  · rw [filterMap_add, ← add_assoc]
    refine hclaims _ ?_
    rw [add_assoc, ← filterMap_cons_toList]
    exact h.claims
  · rcases mem_add.mp hb with hb | hb
    · exact hforeign b (mem_coe.mp hb)
    · exact h.foreign b (mem_cons_of_mem hb)

lemma of_section (hlifecycle : w'.lifecycle = w.lifecycle) (ref : Option ExportRef)
    (cleanup : Option Cleanup)
    (hholds : more.filterMap holds = ref.toList)
    (howes : more.filterMap owes = cleanup.toList)
    (hcounted : ∀ held, w.registry.Counted (withOne a.holds held) →
      w'.registry.Counted (withOne ref held))
    (hclaims : ∀ cleanups, w.registry.Claims (withOne a.owes cleanups) →
      w'.registry.Claims (withOne cleanup cleanups))
    (hforeign : ∀ b, .lifecycle b ∈ more → b.handsOver = []) :
    Balanced w' (↑more + others) := by
  refine h.of_act (fun held hheld => ?_) (fun cleanups hcleanups => ?_) (hlifecycle ▸ h.labelled)
    (fun b hb f hf => ?_)
  · rw [hholds, toList_add]
    rw [toList_add] at hheld
    exact hcounted held hheld
  · rw [World.callbacks, hlifecycle, howes, add_assoc, add_left_comm, toList_add]
    rw [add_assoc, add_left_comm, toList_add] at hcleanups
    exact hclaims _ hcleanups
  · rw [hforeign b hb] at hf
    cases hf

lemma keep (hlifecycle : w'.lifecycle = w.lifecycle)
    (hholds : more.filterMap holds = a.holds.toList) (howes : more.filterMap owes = a.owes.toList)
    (hcounted : ∀ held, w.registry.Counted held → w'.registry.Counted held)
    (hclaims : ∀ cleanups, w.registry.Claims cleanups → w'.registry.Claims cleanups)
    (hforeign : ∀ b, .lifecycle b ∈ more → b.handsOver = []) :
    Balanced w' (↑more + others) :=
  h.of_section hlifecycle a.holds a.owes hholds howes (fun _ hheld => hcounted _ hheld)
    (fun _ hcleanups => hclaims _ hcleanups) hforeign

lemma pass (hregistry : w'.registry = w.registry) (hlifecycle : w'.lifecycle = w.lifecycle)
    (hholds : more.filterMap holds = a.holds.toList) (howes : more.filterMap owes = a.owes.toList)
    (hforeign : ∀ b, .lifecycle b ∈ more → b.handsOver = []) :
    Balanced w' (↑more + others) :=
  h.keep hlifecycle hholds howes (fun _ hheld => hregistry ▸ hheld)
    (fun _ hcleanups => hregistry ▸ hcleanups) hforeign

end

/-! ## The actions -/

def Keeps (config : Config) (a : Action) : Prop :=
  ∀ {w w' : World} {others : Multiset Action} {more : List Action},
    act config a w = some (w', more) → Balanced w (a ::ₘ others) → Balanced w' (↑more + others)

variable {req : MintRequest}

lemma mint : Keeps config (.mint req) := by
  intro w w' others more hact h
  rw [act] at hact
  cases hcheck : req.check with
  | error status =>
    rw [hcheck] at hact
    cases hact
    exact h.pass rfl rfl rfl rfl (by simp [refuse])
  | ok u =>
    rw [hcheck] at hact
    rcases req.acquire_cases config.options w.registry with
      ⟨s, hhas, hacquire⟩ | ⟨status, hacquire⟩ | ⟨state, hnone, -, -, hacquire⟩ <;>
      obtain ⟨rfl, rfl⟩ := World.of_locked hact (by rw [hacquire])
    · exact h.of_section rfl (some (req.ref s)) none rfl rfl (fun held hheld => hheld.join hhas)
        (fun cleanups hcleanups => hcleanups.congr rfl) (by simp)
    · exact h.pass rfl rfl rfl rfl (by simp [refuse])
    · exact h.of_section rfl (some (req.ref w.registry.nextState)) none rfl rfl
        (fun held hheld => hheld.add hnone state)
        (fun cleanups hcleanups => hcleanups.congr rfl) (by simp)

/-- The actions between two sections pass on the reference and the cleanup. -/
lemma between (hbetween : a.between = true) : Keeps config a := by
  intro w w' others more hact h
  have hsame : w'.registry = w.registry ∧ w'.lifecycle = w.lifecycle ∧
      more.filterMap holds = a.holds.toList ∧
      more.filterMap owes = a.owes.toList ∧ ∀ b, .lifecycle b ∈ more → b.handsOver = [] := by
    cases a with
    | exportOn req s made =>
      obtain ⟨_, _, _ | _, _⟩ := made <;> simp only [act] at hact <;>
        grind [holds, owes]
    | await | prepare | acquireStable | mintCapability | exportOff | releaseStable | backend
    | answer =>
      simp only [act, World.locked] at hact
      grind [holds, owes, handsOver, runs, refuse]
    | _ => cases hbetween
  obtain ⟨hregistry, hlifecycle, hholds, howes, hforeign⟩ := hsame
  exact h.pass hregistry hlifecycle hholds howes hforeign

lemma installed {s : StateId} {result : StatusOr Made} : Keeps config (.install req s result) := by
  intro w w' others more hact h
  -- the state has not disappeared, since this call refers to it
  have hhas : w.registry.Has (req.ref s) := h.has (mem_cons_self _ _) rfl
  unfold act at hact
  split_ifs at hact
  simp only [Registry.install, if_pos hhas] at hact
  cases hact
  have hsection : ∀ held, w.registry.Counted held →
      (w.registry.setState (req.ref s).state
        ((w.registry.states (req.ref s).state).initialized (req.ref s).side result)).Counted held :=
    fun held hheld => hheld.rewrite (ExportState.initialized_refcount _ result)
  cases result with
  | ok made =>
    exact h.keep rfl rfl rfl hsection (fun cleanups hcleanups => hcleanups.congr rfl) (by simp)
  | error status =>
    exact h.keep rfl rfl rfl hsection (fun cleanups hcleanups => hcleanups.congr rfl) (by simp [refuse])

lemma recorded {s : StateId} : Keeps config (.record req s) := by
  intro w w' others more hact h
  rw [act] at hact
  split_ifs at hact with hnew
  obtain ⟨start, count, ⟨_, henter⟩ | henter⟩ := enterLease_shape
    config.options req.now req.token (.exported (req.ref s) 0) <;>
    obtain ⟨rfl, rfl⟩ := World.of_locked hact (by rw [henter])
  · exact h.keep rfl rfl rfl (fun held hheld => hheld.congr rfl rfl (fun _ => rfl) rfl)
      (fun cleanups hcleanups => hcleanups.congr rfl) (by simp [refuse])
  · exact h.of_section rfl none (some ⟨req.token, req.ref s⟩) rfl rfl
      (fun held hheld => hheld.enter hnew start count)
      (fun cleanups hcleanups => hcleanups.enter hnew rfl) (by simp)

lemma filterMap_holds_lifecycle (follow : List (Sessions.Action (Option Cleanup))) :
    (follow.map lifecycle).filterMap holds = [] := by
  rw [List.filterMap_map, filterMap_eq_nil_iff]
  exact fun b _ => rfl

lemma filterMap_owes_lifecycle (follow : List (Sessions.Action (Option Cleanup))) :
    (follow.map lifecycle).filterMap owes = (follow.filterMap runs).filterMap id := by
  rw [List.filterMap_map, List.filterMap_filterMap]
  exact filterMap_congr fun b _ => by
    change b.runs.join = b.runs.bind id
    cases b.runs <;> rfl

lemma callbacks_le {a : Sessions.Action (Option Cleanup)} {l l' : Sessions.World (Option Cleanup)}
    {follow : List (Sessions.Action (Option Cleanup))} (hl : l.manager.Labelled)
    (hact : Sessions.act a l = some (l', follow)) :
    l'.manager.callbacks.filterMap id +
        ((follow.map lifecycle).filterMap owes : List Cleanup) ≤
      l.manager.callbacks.filterMap id + (a.handsOver.filterMap id : List Cleanup) := by
  have hle := filterMap_le_filterMap id (Sessions.act_callbacks hl hact)
  rw [filterMap_add, filterMap_add] at hle
  rw [filterMap_owes_lifecycle]
  exact hle

variable {cleanup : Cleanup}

lemma createdLease : Keeps config (.createLease req cleanup) := by
  intro w w' others more hact h
  rw [act] at hact
  cases hrefusal : req.refusal with
  | some status =>
    rw [hrefusal] at hact
    cases hact
    exact h.pass rfl rfl rfl rfl (by simp [refuse])
  | none =>
    rw [hrefusal] at hact
    obtain ⟨⟨lifecycle, _⟩, hcreate, hresult⟩ := map_eq_some_iff.mp hact
    cases hresult
    refine h.of_act (fun held hheld => ?_) (fun cleanups hcleanups => ?_)
      (h.labelled.act hcreate) (fun b hb f hf => ?_)
    · rw [filterMap_append, filterMap_holds_lifecycle]
      exact hheld
    · refine hcleanups.mono (Multiset.add_le_add_iff_right.mpr ?_)
      rw [filterMap_append, show [register req cleanup
        w.lifecycle.manager.nextId].filterMap owes = [] from rfl, append_nil]
      have hhands : (req.creation config.options cleanup).handsOver = [some cleanup] := by
        rw [MintRequest.creation]
        split_ifs <;> rfl
      have hle := callbacks_le h.labelled hcreate
      rw [hhands] at hle
      exact hle
    · rcases mem_append.mp hb with hb | hb
      · obtain ⟨_, hb', heq⟩ := mem_map.mp hb
        cases heq
        rw [Sessions.act_handsOver hcreate b hb'] at hf
        cases hf
      · cases List.mem_singleton.mp hb

lemma registered {id : UInt64} : Keeps config (.register req cleanup id) := by
  intro w w' others more hact h
  unfold act at hact
  split_ifs at hact
  cases hlookup : w.registry.leases.lookup cleanup.token with
  | none =>
    simp only [registerLease, hlookup] at hact
    cases hact
    exact h.keep rfl rfl rfl (fun held hheld => hheld.congr rfl rfl (fun _ => rfl) rfl)
      (fun cleanups hcleanups => hcleanups.congr rfl) (by simp [handsOver])
  | some record =>
    cases record with
    | exported ref id' =>
      simp only [registerLease, hlookup] at hact
      cases hact
      refine h.keep rfl rfl rfl (fun held hheld => ?_) (fun cleanups hcleanups => ?_) (by simp)
      · have hrefs : leaseRefs (w.registry.leases.insert cleanup.token (.exported ref id)) =
            leaseRefs w.registry.leases := leaseRefs_insert_same hlookup rfl
        exact hheld.leases hrefs _ _ _
      · refine hcleanups.leases fun token ref' id'' hid'' => ?_
        rcases eq_or_ne token cleanup.token with rfl | hne
        · cases hlookup.symm.trans hid''
          exact ⟨id, lookup_insert _⟩
        · exact ⟨id'', by rw [lookup_insert_ne hne, hid'']⟩
    | external pid =>
      simp only [registerLease, hlookup] at hact
      cases hact
      exact h.pass rfl rfl rfl rfl (by simp)

lemma erasedToken : Keeps config (.eraseToken cleanup) := by
  intro w w' others more hact h
  rw [act] at hact
  obtain ⟨rfl, rfl⟩ := World.of_locked hact rfl
  obtain ⟨_, hid⟩ := h.claims.recorded cleanup (by
    refine mem_add.mpr (.inr ?_)
    rw [filterMap_cons_some owes _ _ rfl]
    exact mem_cons_self _ _)
  exact h.of_section rfl (some cleanup.ref) none rfl rfl (fun held hheld => hheld.erase hid)
    (fun cleanups hcleanups => hcleanups.erase) (by simp)

lemma releasedState {ref : ExportRef} : Keeps config (.releaseState ref) := by
  intro w w' others more hact h
  rw [act] at hact
  have hsection : ∀ l : List Action, l.filterMap holds = [] → l.filterMap owes = [] →
      (∀ b, .lifecycle b ∈ l → b.handsOver = []) →
      Balanced { w with registry := (w.registry.releaseExportState ref).1 } (↑l + others) := by
    intro l hholds howes hforeign
    exact h.of_section rfl none none hholds howes (fun held hheld => hheld.release)
      (fun cleanups hcleanups => hcleanups.congr (releaseExportState_leases _ ref)) hforeign
  cases hrelease : w.registry.releaseExportState ref with
  | mk r' last =>
    rw [hrelease] at hsection
    cases last with
    | none =>
      obtain ⟨rfl, rfl⟩ := World.of_locked hact (by rw [hrelease])
      exact hsection [] rfl rfl (by simp)
    | some state =>
      obtain ⟨rfl, rfl⟩ := World.of_locked hact (by rw [hrelease])
      refine hsection _ ?_ ?_ ?_
      all_goals
        rw [ExportState.teardown]
        split_ifs <;> cases state.stableLease <;> simp [holds, owes]

lemma mintedExternal {pid : Int32} {cleanup : Bool} {now : ℤ} {token : Token} :
    Keeps config (.mintExternal pid cleanup now token) := by
  intro w w' others more hact h
  rw [act] at hact
  split_ifs at hact with hpid hcleanup hnew
  · cases hact
    exact h.pass rfl rfl rfl rfl (by simp [refuse])
  rotate_left
  · cases hact
    exact h.pass rfl rfl rfl rfl (by simp [refuse])
  · obtain ⟨start, count, ⟨_, henter⟩ | henter⟩ := enterLease_shape
      config.options now token (.external pid) <;>
      obtain ⟨rfl, rfl⟩ := World.of_locked hact (by rw [henter])
    · exact h.keep rfl rfl rfl (fun held hheld => hheld.congr rfl rfl (fun _ => rfl) rfl)
        (fun cleanups hcleanups => hcleanups.congr rfl) (by simp [refuse])
    · refine h.keep rfl rfl rfl (fun held hheld => ?_) (fun cleanups hcleanups => ?_) ?_
      · refine hheld.leases ?_ start count _
        rw [leaseRefs_insert_new hnew, coe_ref_external, zero_add]
      · exact hcleanups.insert_new hnew _ rfl
      · simp [handsOver]

lemma released {token : Token} : Keeps config (.release token) := by
  intro w w' others more hact h
  rw [act] at hact
  cases hlookup : w.registry.leases.lookup token with
  | none =>
    obtain ⟨rfl, rfl⟩ := World.of_locked hact (by rw [hlookup])
    exact h.pass rfl rfl rfl rfl (by simp)
  | some record =>
    cases record with
    | exported ref id =>
      obtain ⟨rfl, rfl⟩ := World.of_locked hact (by rw [hlookup])
      exact h.pass rfl rfl rfl rfl (by simp [handsOver])
    | external pid =>
      obtain ⟨rfl, rfl⟩ := World.of_locked hact (by rw [hlookup])
      refine h.keep rfl rfl rfl (fun held hheld => ?_) (fun cleanups hcleanups => ?_) ?_
      · refine hheld.leases ?_ _ _ _
        rw [Registry.leaseRefs_erase hlookup, Registry.coe_ref_external, zero_add]
      · refine hcleanups.leases fun token' ref id hid => ⟨id, ?_⟩
        have hne : token' ≠ token := by
          rintro rfl
          cases hlookup.symm.trans hid
        rw [Registry.eraseToken, lookup_erase_ne hne, hid]
      · simp [handsOver]

lemma droppedExternal {pid : Int32} : Keeps config (.handlePidExit pid) := by
  intro w w' others more hact h
  rw [act] at hact
  split_ifs at hact
  · cases hact
    exact h.pass rfl rfl rfl rfl (by simp)
  · obtain ⟨rfl, rfl⟩ := World.of_locked hact rfl
    -- only leases without an export state are dropped
    have hexternal : ∀ token ∈ w.registry.leases.keys.filter
        (fun token => w.registry.leases.lookup token = some (.external pid)),
        w.registry.leases.lookup token = some (.external pid) :=
      fun token hmem => of_decide_eq_true (mem_filter.mp hmem).2
    refine h.keep rfl rfl rfl (fun held hheld => ?_) (fun cleanups hcleanups => ?_) (by simp)
    · exact hheld.leases (leaseRefs_dropExternal w.registry pid) _ _ _
    · refine hcleanups.leases fun token ref id hid => ⟨id, ?_⟩
      rw [dropExternal, lookup_foldl_erase _ _ fun hmem => ?_]
      · exact hid
      · cases (hexternal token hmem).symm.trans hid

lemma lifecycle {b : Sessions.Action (Option Cleanup)} : Keeps config (.lifecycle b) := by
  intro w w' others more hact h
  obtain ⟨⟨lifecycle, _⟩, hrun, hresult⟩ := map_eq_some_iff.mp hact
  cases hresult
  have hcleanup : (cleanupOf b).filterMap holds = [] ∧
      (cleanupOf b).filterMap owes = b.runs.join.toList ∧
      ∀ b', .lifecycle b' ∉ cleanupOf b := by
    rw [cleanupOf]
    cases b.runs with
    | none => simp
    | some f => cases f <;> simp [holds, owes]
  obtain ⟨hholds, howes, hnone⟩ := hcleanup
  refine h.of_act (fun held hheld => ?_) (fun cleanups hcleanups => ?_) (h.labelled.act hrun)
    (fun b' hb' f hf => ?_)
  · rw [filterMap_append, hholds, filterMap_holds_lifecycle]
    exact hheld
  · -- others hand over no cleanup
    have hforeign : b.handsOver.filterMap id = [] :=
      filterMap_eq_nil_iff.mpr fun f hf => h.foreign b (mem_cons_self _ _) f hf
    have hle := callbacks_le h.labelled hrun
    rw [hforeign, coe_nil, add_zero] at hle
    refine hcleanups.mono (Multiset.add_le_add_iff_right.mpr ?_)
    rw [filterMap_append, howes, ← coe_add, add_left_comm, add_comm]
    exact Multiset.add_le_add_iff_right.mpr hle
  · rcases mem_append.mp hb' with hb' | hb'
    · exact absurd hb' (hnone b')
    · obtain ⟨_, hb'', heq⟩ := mem_map.mp hb'
      cases heq
      rw [Sessions.act_handsOver hrun b' hb''] at hf
      cases hf

theorem act (hact : Handles.act config a w = some (w', more)) (h : Balanced w (a ::ₘ others)) :
    Balanced w' (↑more + others) := by
  cases a with
  | mint req => exact mint hact h
  | install req s result => exact installed hact h
  | record req s => exact recorded hact h
  | createLease req cleanup => exact createdLease hact h
  | register req cleanup id => exact registered hact h
  | eraseToken cleanup => exact erasedToken hact h
  | releaseState ref => exact releasedState hact h
  | releaseUnderLock ref status => cases hact
  | mintExternal pid cleanup now token => exact mintedExternal hact h
  | release token => exact released hact h
  | handlePidExit pid => exact droppedExternal hact h
  | lifecycle b => exact lifecycle hact h
  | _ => exact between rfl hact h

lemma start (monitor : Bool) (now : ℤ) (engine : Engine) :
    Balanced (World.start monitor now engine) 0 := by
  refine ⟨Registry.Counted.empty, ⟨nodup_zero, fun c hc => ?_⟩, fun _ _ h => (nomatch h),
    fun a ha => absurd ha (notMem_zero _)⟩
  exact absurd hc (notMem_zero c)

lemma call (h : Balanced w others) (c : Call) :
    Balanced w (([c.action] : Multiset Action) + others) := by
  rw [coe_singleton, singleton_add]
  obtain ⟨action, hcall⟩ := c
  have hnone : action.holds = none ∧ action.owes = none ∧
      ∀ b, action = .lifecycle b → ∀ f ∈ b.handsOver, f = none := by
    cases action with
    | lifecycle b =>
      obtain ⟨hb, hforeign⟩ := (Bool.and_eq_true _ _).mp hcall
      refine ⟨rfl, ?_, ?_⟩
      · cases b <;> first | rfl | cases hb
      · rintro b' ⟨⟩ f hf
        exact isNone_iff_eq_none.mp (all_eq_true.mp hforeign f hf)
    | mint | mintExternal | release | handlePidExit | backend => exact ⟨rfl, rfl, by simp⟩
    | _ => cases hcall
  obtain ⟨hholds, howes, hforeign⟩ := hnone
  refine ⟨?_, ?_, h.labelled, fun b hb => ?_⟩
  · rw [filterMap_cons_none _ _ hholds]
    exact h.counted
  · rw [filterMap_cons_none _ _ howes]
    exact h.claims
  · rcases mem_cons.mp hb with hb | hb
    · exact hforeign b hb.symm
    · exact h.foreign b hb

lemma of_reached {ok : World → Multiset Action → Action → Prop} {monitor : Bool} {now : ℤ}
    {engine : Engine} {p : Calls} (h : Reached config ok (World.start monitor now engine) p) :
    Balanced p.shared p.pending :=
  Agendas.invariant h (start monitor now engine) (fun c _ _ hw => hw.call c)
    fun _ _ _ _ _ _ hact hw => hw.act hact

end Balanced

def Registry.liveLeases (r : Registry) (ref : ExportRef) : ℕ :=
  (values r.leases).countP fun record => record.ref? = some ref

lemma Registry.count_refs (r : Registry) (ref : ExportRef) :
    r.refs.count ref = r.liveLeases ref := by
  rw [refs, leaseRefs, coe_count, count_filterMap]
  exact countP_congr fun record _ => by simp

/-- No call is in progress any more; some may be stuck. -/
def Over (p : Calls) : Prop :=
  ∀ agenda ∈ p.threads, agenda = [] ∨ ∃ ref status, agenda = [.releaseUnderLock ref status]

lemma Over.holds {p : Calls} (h : Over p) : p.pending.filterMap holds = 0 := by
  rw [Agendas.pending, filterMap_coe, coe_eq_zero, filterMap_eq_nil_iff]
  intro a ha
  obtain ⟨agenda, hagenda, ha⟩ := mem_flatten.mp ha
  rcases h agenda hagenda with rfl | ⟨ref, status, rfl⟩
  · cases ha
  · obtain rfl := List.mem_singleton.mp ha
    rfl

/-- When the calls are over, the count of an export state is the number of the leases that hold it,
and the state is in its table just if there is one. -/
theorem refcounts_are_live_leases {monitor : Bool} {now : ℤ} {engine : Engine} {p : Calls}
    (h : Reached config (fun _ _ _ => True) (World.start monitor now engine) p) (hover : Over p)
    (ref : ExportRef) :
    (p.shared.registry.Has ref →
      (p.shared.registry.states ref.state).refcount = p.shared.registry.liveLeases ref) ∧
    (p.shared.registry.Has ref ↔ 0 < p.shared.registry.liveLeases ref) := by
  have hcounted := (Balanced.of_reached h).counted
  rw [hover.holds] at hcounted
  have hcount : p.shared.registry.Has ref →
      (p.shared.registry.states ref.state).refcount = p.shared.registry.liveLeases ref := by
    intro hhas
    rw [hcounted.refcount_eq hhas, add_zero, Registry.count_refs]
  refine ⟨hcount, fun hhas => ?_, fun hpos => ?_⟩
  · rw [← hcount hhas]
    exact hcounted.positive ref hhas
  · refine hcounted.has ?_
    rw [add_zero, ← count_pos, Registry.count_refs]
    exact hpos

def gpuReplica : ReplicaKey := { artifactId := "a", device := { type := .gpu, ordinal := 0 } }

def oneReplica : Engine :=
  { uma :=
      { chunkSizeBytes := 4
        allocations := AList.insert gpuReplica { chunkRecords := [{}], totalBytes := 4 } ∅ }
    resolve := .ok }

def oneReplicaConfig : Config := { context := Authority.Context.mapsAt 4096, artifactChunkBytes := 4 }

def mintGpu (token : Token) : MintRequest :=
  { side := .gpu, key := gpuReplica, pid := 7, replicaSize := .ok 4, token }

/-- Process 7 mints a lease, and a second mint joins but is refused by the lifecycle manager. -/
def mintedTwice : List (Agendas.Move Call) :=
  .call ⟨.mint (mintGpu "t"), rfl⟩ :: List.replicate 10 (.resume 0) ++
    .call ⟨.mint { mintGpu "u" with refusal := some (.internal "no lease") }, rfl⟩ ::
      List.replicate 7 (.resume 1)

theorem refcounts_are_live_leases_minted :
    ∃ p, run (step oneReplicaConfig) (fun _ _ => true) mintedTwice
        ⟨World.start true 0 oneReplica, []⟩ = some p ∧
      p.shared.registry.Has ⟨.gpu, gpuReplica, 0⟩ ∧
      (p.shared.registry.states 0).refcount =
        p.shared.registry.liveLeases ⟨.gpu, gpuReplica, 0⟩ := by
  have hrun : ∃ p, run (step oneReplicaConfig) (fun _ _ => true) mintedTwice
      ⟨World.start true 0 oneReplica, []⟩ = some p ∧ p.threads = [[], []] ∧
      p.shared.registry.Has ⟨.gpu, gpuReplica, 0⟩ := ⟨_, rfl, rfl, rfl⟩
  obtain ⟨p, hrun, hthreads, hhas⟩ := hrun
  have hreached : Reached oneReplicaConfig (fun _ _ _ => True) (World.start true 0 oneReplica) p :=
    (reaches_of_run hrun).mono fun p m _ => Agendas.allowed_true p m
  have hover : Over p := by
    intro agenda hagenda
    rw [hthreads] at hagenda
    exact .inl (by simpa using hagenda)
  exact ⟨p, hrun, hhas, (refcounts_are_live_leases hreached hover _).1 hhas⟩

end TensorCast.Handles
