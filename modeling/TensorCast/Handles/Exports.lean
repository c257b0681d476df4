import TensorCast.Authority.Flags
import TensorCast.Handles.Balance

/-!
# A live lease and the export it is for

The last release of an export state takes the state out of its table in a section, and turns the
export off after it.  Between the two a mint may make another state for the replica and turn the
export on, which the late call then turns off under the new lease.
-/

namespace TensorCast.Handles

open Core Lifecycle Lib Action Registry List Multiset Option
open Authority (ReplicaKey Context UnifiedMemoryAuthority)

variable {config : Config} {w w' : World} {a : Action} {others : Multiset Action}
  {more : List Action}

/-! ## Exports of the engine -/

namespace Engine

variable {engine engine' : Engine} {context : Context} {key other : ReplicaKey} {side : Side}
  {chunks : List UInt32}

def ExportOn (engine : Engine) (context : Context) (side : Side) (key : ReplicaKey)
    (chunks : List UInt32) : Prop :=
  ∃ umaKey, engine.resolve key = .ok umaKey ∧
    engine.uma.ExportOn context side.location umaKey chunks

/-- Two keys that stand for the same allocation. -/
def Alias (engine : Engine) (key key' : ReplicaKey) : Prop :=
  ∃ umaKey, engine.resolve key = .ok umaKey ∧ engine.resolve key' = .ok umaKey

lemma Alias.symm (h : engine.Alias key other) : engine.Alias other key :=
  h.imp fun _ hkeys => hkeys.symm

/-- No export is turned off. -/
structure Keeps (engine engine' : Engine) (context : Context) : Prop where
  resolve : engine'.resolve = engine.resolve
  on : ∀ side key chunks, engine.ExportOn context side key chunks →
    engine'.ExportOn context side key chunks

lemma Keeps.refl : Keeps engine engine context := ⟨rfl, fun _ _ _ h => h⟩

lemma Keeps.of_uma {uma : UnifiedMemoryAuthority}
    (h : ∀ location key chunks, engine.uma.ExportOn context location key chunks →
      uma.ExportOn context location key chunks) :
    Keeps engine { engine with uma } context :=
  ⟨rfl, fun _ _ _ ⟨umaKey, hresolve, hon⟩ => ⟨umaKey, hresolve, h _ _ _ hon⟩⟩

lemma keeps_acquire (key : ReplicaKey) (chunks : List UInt32) :
    Keeps engine (engine.acquireReplicaStableLease context key chunks).1 context := by
  unfold acquireReplicaStableLease
  cases engine.resolve key with
  | error status => exact .refl
  | ok umaKey => exact .of_uma fun _ _ _ h => h.acquire umaKey chunks

lemma keeps_release (lease : Authority.StableLease) :
    Keeps engine (engine.releaseReplicaStableLease lease) context := by
  unfold releaseReplicaStableLease
  cases engine.resolve lease.key with
  | error status => exact .refl
  | ok umaKey => exact .of_uma fun _ _ _ h => h.release umaKey lease.chunkIndices

lemma keeps_on (key : ReplicaKey) (side : Side) (chunks : List UInt32) :
    Keeps engine (engine.setReplicaExported context key side chunks true).1 context := by
  unfold setReplicaExported
  cases engine.resolve key with
  | error status => exact .refl
  | ok umaKey => exact .of_uma fun _ _ _ h => h.setExported_on umaKey side.location chunks

lemma exportOn_of_set {registration : UnifiedMemoryAuthority.ExportRegistration}
    (h : (engine.setReplicaExported context key side chunks true).2 = .ok registration) :
    (engine.setReplicaExported context key side chunks true).1.ExportOn context side key chunks := by
  unfold setReplicaExported at h ⊢
  cases hresolve : engine.resolve key with
  | error status =>
    rw [hresolve] at h
    cases h
  | ok umaKey =>
    rw [hresolve] at h
    exact ⟨umaKey, hresolve, UnifiedMemoryAuthority.exportOn_of_setExported h⟩

lemma location_injective {side side' : Side} (h : side.location = side'.location) :
    side = side' := by
  cases side <;> cases side' <;> first | rfl | cases h

lemma ExportOn.set_off (h : engine.ExportOn context side key chunks) {side' : Side}
    (hne : side' = side → ¬ engine.Alias other key) (indices : List UInt32) :
    (engine.setReplicaExported context other side' indices false).1.ExportOn context side key
      chunks := by
  obtain ⟨umaKey, hresolve, hon⟩ := h
  unfold setReplicaExported
  cases hother : engine.resolve other with
  | error status => exact ⟨umaKey, hresolve, hon⟩
  | ok otherKey =>
    refine ⟨umaKey, hresolve, hon.setExported_of_ne ?_ indices false⟩
    by_cases hside : side' = side
    · refine .inr ?_
      rintro rfl
      exact hne hside ⟨_, hother, hresolve⟩
    · exact .inl fun heq => hside (location_injective heq.symm)

lemma resolve_set (key : ReplicaKey) (side : Side) (chunks : List UInt32) (on : Bool) :
    (engine.setReplicaExported context key side chunks on).1.resolve = engine.resolve := by
  unfold setReplicaExported
  cases engine.resolve key <;> rfl

end Engine

/-! ## States and their exports -/

/-- The state was initialized successfully. -/
def ExportState.Live (state : ExportState) : Prop := state.ready = true ∧ state.status = .ok ()

/-- Two states that differ at most in their counts. -/
structure ExportState.Agree (state state' : ExportState) : Prop where
  ready : state'.ready = state.ready
  status : state'.status = state.status
  chunks : state'.chunks = state.chunks

lemma ExportState.Agree.refl (state : ExportState) : state.Agree state := ⟨rfl, rfl, rfl⟩

variable {state state' : ExportState}

lemma ExportState.Agree.live (h : state.Agree state') : state'.Live ↔ state.Live := by
  rw [Live, Live, h.ready, h.status]

lemma ExportState.Agree.setState {r : Registry} {s : StateId} (h : (r.states s).Agree state)
    (s' : StateId) : (r.states s').Agree ((r.setState s state).states s') := by
  rcases eq_or_ne s' s with rfl | hne
  · rwa [setState_self]
  · rw [setState_ne _ hne]
    exact .refl _

lemma ExportState.mem_teardown {ref : ExportRef} (h : a ∈ state.teardown ref) :
    (∃ chunks, a = .exportOff ref chunks) ∨ ∃ lease, a = .releaseStable lease := by
  rcases mem_append.mp h with h | h
  · split_ifs at h
    · cases h
    · exact .inl ⟨_, List.mem_singleton.mp h⟩
  · obtain ⟨lease, -, rfl⟩ := mem_map.mp h
    exact .inr ⟨lease, rfl⟩

def Action.initializes : Action → Option StateId
  | .prepare _ s | .acquireStable _ s _ _ | .exportOn _ s _ | .install _ s _ => some s
  | _ => none

variable {s : StateId}

lemma Action.holds_of_initializes (h : a.initializes = some s) :
    ∃ ref, a.holds = some ref ∧ ref.state = s := by
  cases a with
  | prepare req s' | acquireStable req s' fd retried | exportOn req s' made
  | install req s' result =>
    obtain rfl := some_inj.mp h
    exact ⟨req.ref s', rfl, rfl⟩
  | _ => cases h

def MintRequest.Fits (req : MintRequest) (state : ExportState) (chunks : List UInt32) : Prop :=
  (req.side = .cpu → state.chunks = chunks) ∧ (req.side = .gpu → 0 ∈ chunks)

/-- What a mint knows in front of an action. -/
def Action.Staged (config : Config) (w : World) : Action → Prop
  | .prepare req s => req.side = .cpu → (w.registry.states s).chunks = req.exportedChunks
  | .acquireStable req s _ _ =>
    req.side = .cpu ∧ (w.registry.states s).chunks = req.exportedChunks
  | .exportOn req s made => req.Fits (w.registry.states s) made.chunks
  | .install req s (.ok made) =>
    req.Fits (w.registry.states s) made.chunks ∧
      w.engine.ExportOn config.context req.side req.key made.chunks
  | .record _ s => (w.registry.states s).Live
  | _ => True

lemma MintRequest.Fits.agree {req : MintRequest}
    {chunks : List UInt32} (h : req.Fits state chunks) (hstate : state.Agree state') :
    req.Fits state' chunks :=
  ⟨fun hside => hstate.chunks.trans (h.1 hside), h.2⟩

/-- The state that an action knows something about. -/
def Action.concerns : Action → Option StateId
  | .record _ s => some s
  | a => a.initializes

lemma Action.concerns_cases (h : a.concerns = some s) :
    a.initializes = some s ∨ ∃ req, a = .record req s := by
  cases a with
  | record req s' =>
    cases h
    exact .inr ⟨req, rfl⟩
  | _ => exact .inl h

lemma Action.holds_of_concerns (h : a.concerns = some s) :
    ∃ ref, a.holds = some ref ∧ ref.state = s := by
  rcases concerns_cases h with h | ⟨req, rfl⟩
  · exact holds_of_initializes h
  · exact ⟨req.ref s, rfl, rfl⟩

lemma Action.Staged.mono (h : a.Staged config w)
    (hstates : ∀ s, a.concerns = some s → (w.registry.states s).Agree (w'.registry.states s))
    (hon : ∀ ref chunks, a.holds = some ref →
      w.engine.ExportOn config.context ref.side ref.key chunks →
      w'.engine.ExportOn config.context ref.side ref.key chunks) : a.Staged config w' := by
  cases a with
  | prepare req s => exact fun hside => (hstates _ rfl).chunks.trans (h hside)
  | acquireStable req s fd retried => exact ⟨h.1, (hstates _ rfl).chunks.trans h.2⟩
  | exportOn req s made => exact MintRequest.Fits.agree h (hstates s rfl)
  | install req s result =>
    cases result with
    | error status => trivial
    | ok made =>
      exact ⟨h.1.agree (hstates s rfl), hon (req.ref s) made.chunks rfl h.2⟩
  | record req s => exact (hstates s rfl).live.mpr h
  | _ => trivial

/-- The actions that follow an action carry its initialization on, or end it, and turn no export
off. -/
structure Stages (config : Config) (w : World) (a : Action) (more : List Action) : Prop where
  staged : ∀ b ∈ more, b.Staged config w
  initializes : more.filterMap initializes = a.initializes.toList ∨ more.filterMap initializes = []
  noOff : ∀ ref chunks, .exportOff ref chunks ∉ more

lemma stages_refuse (status : Status) : Stages config w a [refuse status] :=
  ⟨by simp [refuse, Action.Staged], .inr rfl, by simp [refuse]⟩

/-- No allocation is exported for two states, nor for one that is about to be turned off. -/
structure Kept (config : Config) (w : World) (pending : Multiset Action) : Prop where
  balanced : Balanced w pending
  apart : ∀ ref ref', w.registry.Has ref → w.registry.Has ref' → ref.side = ref'.side →
    w.engine.Alias ref.key ref'.key → ref = ref'
  noOff : ∀ ref chunks, .exportOff ref chunks ∈ pending → ∀ ref', w.registry.Has ref' →
    ref.side = ref'.side → ¬ w.engine.Alias ref.key ref'.key
  on : ∀ ref, w.registry.Has ref → (w.registry.states ref.state).Live →
    w.engine.ExportOn config.context ref.side ref.key (w.registry.states ref.state).chunks ∧
      (ref.side = .gpu → 0 ∈ (w.registry.states ref.state).chunks)
  staged : ∀ a ∈ pending, a.Staged config w
  once : (pending.filterMap initializes).Nodup
  unready : ∀ s ∈ pending.filterMap initializes, (w.registry.states s).ready = false
  live : ∀ ref ∈ w.registry.refs, (w.registry.states ref.state).Live

namespace Kept

section

variable (h : Kept config w (a ::ₘ others)) (hb : Balanced w' (↑more + others))

include h hb

lemma of_quiet (hhas : ∀ ref, w'.registry.Has ref → w.registry.Has ref)
    (hstates : ∀ s, (w.registry.states s).Agree (w'.registry.states s))
    (hresolve : w'.engine.resolve = w.engine.resolve)
    (hon : ∀ ref chunks, w'.registry.Has ref →
      w.engine.ExportOn config.context ref.side ref.key chunks →
      w'.engine.ExportOn config.context ref.side ref.key chunks)
    (hrefs : ∀ ref ∈ w'.registry.refs, (w.registry.states ref.state).Live)
    (hmore : ∀ b ∈ more, b.Staged config w')
    (hinit : more.filterMap initializes = a.initializes.toList ∨ more.filterMap initializes = [])
    (hoff : ∀ ref chunks, .exportOff ref chunks ∈ more → ∀ ref', w'.registry.Has ref' →
      ref.side = ref'.side → ¬ w.engine.Alias ref.key ref'.key) :
    Kept config w' (↑more + others) := by
  have halias : ∀ key key', w'.engine.Alias key key' ↔ w.engine.Alias key key' := by
    intro key key'
    rw [Engine.Alias, hresolve, Engine.Alias]
  have hle : (↑more + others).filterMap initializes ≤
      (a ::ₘ others).filterMap initializes := by
    rw [filterMap_add, filterMap_cons_toList, filterMap_coe]
    refine Multiset.add_le_add_iff_right.mpr ?_
    rcases hinit with hinit | hinit
    · rw [hinit]
    · rw [hinit]
      exact zero_le _
  refine ⟨hb, ?_, ?_, ?_, ?_, nodup_of_le hle h.once, ?_, ?_⟩
  · intro ref ref' hr hr' hside hkeys
    exact h.apart ref ref' (hhas ref hr) (hhas ref' hr') hside ((halias _ _).mp hkeys)
  · intro ref chunks hmem ref' hr' hside hkeys
    rcases mem_add.mp hmem with hmem | hmem
    · exact hoff ref chunks (mem_coe.mp hmem) ref' hr' hside ((halias _ _).mp hkeys)
    · exact h.noOff ref chunks (mem_cons_of_mem hmem) ref' (hhas ref' hr') hside
        ((halias _ _).mp hkeys)
  · intro ref hr hlive
    rw [(hstates ref.state).chunks]
    obtain ⟨hexport, hzero⟩ := h.on ref (hhas ref hr) ((hstates ref.state).live.mp hlive)
    exact ⟨hon ref _ hr hexport, hzero⟩
  · intro b hb'
    rcases mem_add.mp hb' with hb' | hb'
    · exact hmore b (mem_coe.mp hb')
    · refine (h.staged b (mem_cons_of_mem hb')).mono (fun s _ => hstates s) ?_
      intro ref chunks hholds
      exact hon ref chunks (hb.has (mem_add.mpr (.inr hb')) hholds)
  · intro s hs
    rw [(hstates s).ready]
    exact h.unready s (mem_of_le hle hs)
  · intro ref hr
    exact (hstates ref.state).live.mpr (hrefs ref hr)

lemma of_states (hexports : w'.registry.exports = w.registry.exports)
    (hstates : w'.registry.states = w.registry.states)
    (hrefs : ∀ ref ∈ w'.registry.refs, (w.registry.states ref.state).Live)
    (hengine : w.engine.Keeps w'.engine config.context) (hstages : Stages config w' a more) :
    Kept config w' (↑more + others) := by
  refine h.of_quiet hb (fun ref hr => ?_) (fun s => hstates ▸ .refl _) hengine.resolve
    (fun ref chunks _ hon => hengine.on _ _ _ hon) hrefs hstages.staged hstages.initializes
    fun ref chunks hmem => absurd hmem (hstages.noOff ref chunks)
  rwa [Registry.Has, hexports] at hr

end

end Kept

/-- A mint that makes a state finds no outstanding call that turns the export of its allocation off,
nor a state of it under another key; and others turn no export off. -/
def Action.Calm (config : Config) (w : World) (others : Multiset Action) : Action → Prop
  | .mint req => (w.registry.exports req.side).lookup req.key = none →
    (∀ ref chunks, .exportOff ref chunks ∈ others → ref.side = req.side →
      ¬ w.engine.Alias ref.key req.key) ∧
    ∀ ref, w.registry.Has ref → ref.side = req.side → ¬ w.engine.Alias ref.key req.key
  | .backend engine => w.engine.Keeps engine config.context
  | _ => True

/-! ## Plain actions -/

/-- The actions that leave the export states and their tables alone. -/
def Action.plain : Action → Bool
  | .mint _ | .install _ _ _ | .releaseState _ | .exportOff _ _ => false
  | _ => true

lemma Registry.mem_refs_enterLease {r r' : Registry} {options : Options} {now : ℤ} {token : Token}
    {record : LeaseRecord} {result : StatusOr Unit} (hnew : token ∉ r.leases)
    (h : r.enterLease options now token record = (r', result)) :
    r'.exports = r.exports ∧ r'.states = r.states ∧
      ∀ ref ∈ r'.refs, ref ∈ r.refs ∨ record.ref? = some ref := by
  obtain ⟨_, _, ⟨_, henter⟩ | henter⟩ := enterLease_shape options now token record
  · cases henter.symm.trans h
    exact ⟨rfl, rfl, fun ref hr => .inl hr⟩
  · cases henter.symm.trans h
    refine ⟨rfl, rfl, fun ref hr => ?_⟩
    rw [refs, leaseRefs_insert_new hnew] at hr
    rcases mem_add.mp hr with hr | hr
    · exact .inr (mem_toList.mp hr)
    · exact .inl hr

lemma plain_registry (hact : act config a w = some (w', more)) (h : a.plain = true) :
    w'.registry.exports = w.registry.exports ∧ w'.registry.states = w.registry.states ∧
      ∀ ref ∈ w'.registry.refs,
        ref ∈ w.registry.refs ∨ ∃ req s, a = .record req s ∧ ref = req.ref s := by
  cases a with
  | mint | install | releaseState | exportOff => cases h
  | record | mintExternal =>
    simp only [act, World.locked] at hact
    grind [→ Registry.mem_refs_enterLease, LeaseRecord.ref?]
  | register req cleanup id =>
    simp only [act, Registry.registerLease] at hact
    grind [Registry.refs, Registry.leaseRefs_insert_same, LeaseRecord.ref?]
  | eraseToken | release =>
    simp only [act, World.locked, Registry.eraseToken] at hact
    grind [Registry.refs, → Registry.mem_leaseRefs_of_erase]
  | handlePidExit pid =>
    simp only [act, World.locked] at hact
    split_ifs at hact <;> cases hact
    · exact ⟨rfl, rfl, fun _ hr => .inl hr⟩
    · refine ⟨rfl, rfl, fun ref hr => .inl ?_⟩
      rwa [Registry.refs, Registry.leaseRefs_dropExternal] at hr
  | _ =>
    have hsame : w'.registry = w.registry := by
      simp only [act, World.locked] at hact
      grind [map_eq_some_iff]
    rw [hsame]
    exact ⟨rfl, rfl, fun _ hr => .inl hr⟩

lemma filterMap_initializes_lifecycle (follow : List (Sessions.Action (Option Cleanup))) :
    (follow.map lifecycle).filterMap initializes = [] := by
  rw [List.filterMap_map, filterMap_eq_nil_iff]
  exact fun b _ => rfl

/-- A plain action turns no export off, and what its mint knows stays true. -/
lemma plain_stages (hact : act config a w = some (w', more)) (h : a.plain = true)
    (hcalm : a.Calm config w others) (hstaged : a.Staged config w) :
    w.engine.Keeps w'.engine config.context ∧ Stages config w' a more := by
  cases a with
  | mint | install | releaseState | exportOff => cases h
  | exportOn req s made =>
    have hkeeps : w.engine.Keeps (w.engine.setReplicaExported config.context req.key req.side
        made.chunks true).1 config.context := Engine.keeps_on req.key req.side made.chunks
    obtain ⟨fd, chunks, _ | _, _⟩ := made
    all_goals
      simp only [act] at hact
      all_goals
        refine ⟨by grind, ?_, ?_, ?_⟩ <;>
          grind [Action.Staged, Engine.exportOn_of_set, initializes]
  | acquireStable req s fd retried =>
    have hkeeps : w.engine.Keeps (w.engine.acquireReplicaStableLease config.context req.key
        req.exportedChunks).1 config.context := Engine.keeps_acquire req.key req.exportedChunks
    simp only [act] at hact
    all_goals
      refine ⟨by grind, ?_, ?_, ?_⟩ <;>
        grind [Action.Staged, initializes, MintRequest.Fits]
  | _ =>
    simp only [act, World.locked] at hact
    refine ⟨?_, ?_, ?_, ?_⟩ <;>
      grind [Action.Staged, initializes, Action.Calm, Engine.keeps_release,
        Engine.Keeps.refl, → zero_mem_buildExportChunks, refuse, ExportState.Live,
        MintRequest.Fits, cleanupOf, map_eq_some_iff, filterMap_initializes_lifecycle]

namespace Kept

/-! ## The actions -/

variable {req : MintRequest}

lemma create {state : ExportState} (h : Kept config w (.mint req ::ₘ others))
    (hcalm : (mint req).Calm config w others)
    (hnone : (w.registry.exports req.side).lookup req.key = none) (hready : state.ready = false)
    (hchunks : req.side = .cpu → state.chunks = req.exportedChunks)
    (hb : Balanced { w with registry := w.registry.addState req.side req.key state }
      (([prepare req w.registry.nextState] : Multiset Action) + others)) :
    Kept config { w with registry := w.registry.addState req.side req.key state }
      (([prepare req w.registry.nextState] : Multiset Action) + others) := by
  obtain ⟨hoff, hother⟩ := hcalm hnone
  have hhas := has_addState hnone state
  -- the states that were there before are other objects
  have hold : ∀ ref, w.registry.Has ref →
      (w.registry.addState req.side req.key state).states ref.state =
        w.registry.states ref.state := fun ref hr =>
    addState_ne _ _ _ _ (h.balanced.counted.located.lt_next ref hr).ne
  have hheld : ∀ b ∈ others, ∀ ref, b.holds = some ref → w.registry.Has ref :=
    fun b hb' ref hholds => h.balanced.has (mem_cons_of_mem hb') hholds
  have hinit : ∀ s ∈ others.filterMap initializes, s ≠ w.registry.nextState ∧
      s ∈ (mint req ::ₘ others).filterMap initializes := by
    intro s hs
    obtain ⟨b, hb', hbs⟩ := (mem_filterMap _ _).mp hs
    refine ⟨?_, (mem_filterMap _ _).mpr ⟨b, mem_cons_of_mem hb', hbs⟩⟩
    obtain ⟨ref, hholds, rfl⟩ := holds_of_initializes hbs
    exact (h.balanced.counted.located.lt_next ref (hheld b hb' ref hholds)).ne
  rw [coe_singleton, singleton_add] at hb ⊢
  refine ⟨hb, ?_, ?_, ?_, ?_, ?_, ?_, ?_⟩
  · intro ref ref' hr hr' hside hkeys
    rcases (hhas ref).mp hr with rfl | hr <;> rcases (hhas ref').mp hr' with rfl | hr'
    · rfl
    · exact absurd hkeys.symm (hother ref' hr' hside.symm)
    · exact absurd hkeys (hother ref hr hside)
    · exact h.apart ref ref' hr hr' hside hkeys
  · intro ref chunks hmem ref' hr' hside
    have hmem := (mem_cons.mp hmem).resolve_left nofun
    rcases (hhas ref').mp hr' with rfl | hr'
    · exact hoff ref chunks hmem hside
    · exact h.noOff ref chunks (mem_cons_of_mem hmem) ref' hr' hside
  · intro ref hr hlive
    rcases (hhas ref).mp hr with rfl | hr
    · rw [addState_self] at hlive
      cases hready.symm.trans hlive.1
    · rw [hold ref hr] at hlive ⊢
      exact h.on ref hr hlive
  · intro b hb'
    rcases mem_cons.mp hb' with rfl | hb'
    · intro hside
      rw [addState_self]
      exact hchunks hside
    · refine (h.staged b (mem_cons_of_mem hb')).mono (fun s hs => ?_)
        fun ref chunks _ hon => hon
      obtain ⟨ref, hholds, rfl⟩ := holds_of_concerns hs
      rw [hold ref (hheld b hb' ref hholds)]
      exact .refl _
  · rw [filterMap_cons_some initializes _ _ rfl, Multiset.nodup_cons]
    refine ⟨fun hmem => (hinit _ hmem).1 rfl, ?_⟩
    have honce := h.once
    rwa [filterMap_cons_none _ _ rfl] at honce
  · intro s hs
    rw [filterMap_cons_some initializes _ _ rfl] at hs
    rcases mem_cons.mp hs with rfl | hs
    · rw [addState_self]
      exact hready
    · rw [addState_ne _ _ _ _ (hinit s hs).1]
      exact h.unready s (hinit s hs).2
  · intro ref hr
    have hr' : w.registry.Has ref := h.balanced.counted.has (mem_add.mpr (.inl hr))
    rw [hold ref hr']
    exact h.live ref hr

lemma mint (hact : act config (.mint req) w = some (w', more))
    (hcalm : (mint req).Calm config w others) (h : Kept config w (.mint req ::ₘ others)) :
    Kept config w' (↑more + others) := by
  have hb := h.balanced.act hact
  rw [act] at hact
  cases hcheck : req.check with
  | error status =>
    rw [hcheck] at hact
    cases hact
    exact h.of_states hb rfl rfl h.live .refl (stages_refuse status)
  | ok u =>
    rw [hcheck] at hact
    rcases req.acquire_cases config.options w.registry with
      ⟨s, -, hacquire⟩ | ⟨status, hacquire⟩ | ⟨_, hnone, hready, hchunks, hacquire⟩ <;>
      obtain ⟨rfl, rfl⟩ := World.of_locked hact (by rw [hacquire])
    · exact h.of_quiet hb (fun ref hr => hr) (.setState ⟨rfl, rfl, rfl⟩) rfl
        (fun _ _ _ hon => hon) h.live (by simp [Action.Staged]) (.inr rfl) (by simp)
    · exact h.of_states hb rfl rfl h.live .refl (stages_refuse status)
    · exact h.create hcalm hnone hready hchunks hb

lemma settle {s : StateId} {result : StatusOr Made}
    (h : Kept config w (.install req s result ::ₘ others)) (hhas : w.registry.Has (req.ref s))
    (hw : w' = { w with
      registry := w.registry.setState s ((w.registry.states s).initialized req.side result) })
    (hinit : more.filterMap initializes = []) (hmore : ∀ b ∈ more, b.Staged config w')
    (hoff : ∀ ref chunks, .exportOff ref chunks ∉ more) (hb : Balanced w' (↑more + others)) :
    Kept config w' (↑more + others) := by
  subst hw
  have hunready : (w.registry.states s).ready = false := by
    refine h.unready s ?_
    rw [filterMap_cons_some initializes _ _ rfl]
    exact mem_cons_self _ _
  have honce := h.once
  rw [filterMap_cons_some initializes _ _ rfl, Multiset.nodup_cons] at honce
  have hlive : ∀ s', (w.registry.states s').Live → s' ≠ s := by
    rintro s' hs' rfl
    cases hunready.symm.trans hs'.1
  have hothers : (↑more + others).filterMap initializes =
      others.filterMap initializes := by
    rw [filterMap_add, filterMap_coe, hinit]
    exact zero_add _
  have hne : ∀ s' ∈ others.filterMap initializes, s' ≠ s := by
    rintro s' hs' rfl
    exact honce.1 hs'
  refine ⟨hb, h.apart, ?_, ?_, ?_, ?_, ?_, ?_⟩
  · intro ref chunks hmem
    rcases mem_add.mp hmem with hmem | hmem
    · exact absurd (mem_coe.mp hmem) (hoff ref chunks)
    · exact h.noOff ref chunks (mem_cons_of_mem hmem)
  · intro ref hr hl
    rcases eq_or_ne ref.state s with hs | hs
    · -- this is the state, with the export that was made for it
      obtain rfl : ref = req.ref s :=
        h.balanced.counted.located.unique ref (req.ref s) hr hhas hs
      have hstaged := h.staged _ (mem_cons_self _ _)
      rw [show (req.ref s).state = s from rfl, setState_self] at hl ⊢
      cases result with
      | error status => cases hl.2
      | ok made =>
        obtain ⟨hfits, hexport⟩ := hstaged
        cases hside : req.side with
        | cpu =>
          rw [show ((w.registry.states s).initialized .cpu (.ok made)).chunks =
            (w.registry.states s).chunks from rfl, hfits.1 hside]
          exact ⟨hexport, fun hgpu => by cases hside.symm.trans hgpu⟩
        | gpu => exact ⟨hexport, fun _ => hfits.2 hside⟩
    · rw [setState_ne _ hs] at hl ⊢
      exact h.on ref hr hl
  · intro b hb'
    rcases mem_add.mp hb' with hb' | hb'
    · exact hmore b (mem_coe.mp hb')
    · have hstaged := h.staged b (mem_cons_of_mem hb')
      refine hstaged.mono (fun s' hs' => ?_) fun ref chunks _ hon => hon
      have hs : s' ≠ s := by
        rcases concerns_cases hs' with hs' | ⟨req', rfl⟩
        · exact hne s' ((mem_filterMap _ _).mpr ⟨b, hb', hs'⟩)
        · exact hlive s' hstaged
      rw [setState_ne _ hs]
      exact .refl _
  · rw [hothers]
    exact honce.2
  · intro s' hs'
    rw [hothers] at hs'
    rw [setState_ne _ (hne s' hs')]
    refine h.unready s' ?_
    rw [filterMap_cons_some initializes _ _ rfl]
    exact mem_cons_of_mem hs'
  · intro ref hr
    have hl := h.live ref hr
    rw [setState_ne _ (hlive _ hl)]
    exact hl

lemma installed {s : StateId} {result : StatusOr Made}
    (hact : act config (.install req s result) w = some (w', more))
    (h : Kept config w (.install req s result ::ₘ others)) :
    Kept config w' (↑more + others) := by
  have hb := h.balanced.act hact
  have hhas : w.registry.Has (req.ref s) := h.balanced.has (mem_cons_self _ _) rfl
  unfold act at hact
  split_ifs at hact
  simp only [Registry.install, if_pos hhas] at hact
  cases hact
  cases result with
  | ok made =>
    refine h.settle hhas rfl rfl (fun b hb' => ?_) (by simp) hb
    obtain rfl := List.mem_singleton.mp hb'
    simp only [Action.Staged, MintRequest.ref, Registry.setState_self]
    exact ⟨rfl, rfl⟩
  | error status =>
    exact h.settle hhas rfl rfl (by simp [refuse, Action.Staged]) (by simp [refuse]) hb

lemma releasedState {ref : ExportRef} (hact : act config (.releaseState ref) w = some (w', more))
    (h : Kept config w (.releaseState ref ::ₘ others)) :
    Kept config w' (↑more + others) := by
  have hb := h.balanced.act hact
  have hhas : w.registry.Has ref := h.balanced.has (mem_cons_self _ _) rfl
  have hpos := h.balanced.counted.positive ref hhas
  have hrelease : ¬ (¬ w.registry.Has ref ∨ (w.registry.states ref.state).refcount = 0) := by
    simp [hhas, hpos.ne']
  rw [act] at hact
  by_cases hlast : (w.registry.states ref.state).refcount - 1 = 0
  · -- the export is about to be turned off, but no other state has it
    obtain ⟨rfl, rfl⟩ := World.of_locked hact (by
      rw [releaseExportState, if_neg hrelease, if_neg (not_not.mpr hlast)])
    have hdrop := has_dropState hhas
    refine h.of_quiet hb (fun ref' hr' => ((hdrop ref').mp hr').1) (.setState ⟨rfl, rfl, rfl⟩) rfl
      (fun _ _ _ hon => hon) h.live (fun b hb' => ?_)
      (.inr (filterMap_eq_nil_iff.mpr fun b hb' => ?_)) fun ref' chunks hmem => ?_
    · obtain ⟨chunks, rfl⟩ | ⟨lease, rfl⟩ := ExportState.mem_teardown hb' <;> trivial
    · obtain ⟨chunks, rfl⟩ | ⟨lease, rfl⟩ := ExportState.mem_teardown hb' <;> rfl
    · obtain ⟨_, ⟨⟩⟩ | ⟨_, ⟨⟩⟩ := ExportState.mem_teardown hmem
      intro ref'' hr'' hside halias
      obtain ⟨hr'', hne⟩ := (hdrop ref'').mp hr''
      exact hne (h.apart ref ref'' hhas hr'' hside halias).symm
  · obtain ⟨rfl, rfl⟩ := World.of_locked hact (by
      rw [releaseExportState, if_neg hrelease, if_pos hlast])
    exact h.of_quiet hb (fun _ hr => hr) (.setState ⟨rfl, rfl, rfl⟩) rfl (fun _ _ _ hon => hon)
      h.live (by simp) (.inr rfl) (by simp)

lemma exportedOff {ref : ExportRef} {chunks : List UInt32}
    (hact : act config (.exportOff ref chunks) w = some (w', more))
    (h : Kept config w (.exportOff ref chunks ::ₘ others)) :
    Kept config w' (↑more + others) := by
  have hb := h.balanced.act hact
  cases hact
  refine h.of_quiet hb (fun _ hr => hr) (fun _ => .refl _) (Engine.resolve_set _ _ _ _) ?_ h.live
    (by simp) (.inr rfl) (by simp)
  intro ref' chunks' hr' hon
  refine hon.set_off (fun hside => ?_) chunks
  exact h.noOff ref chunks (mem_cons_self _ _) ref' hr' hside

lemma of_plain (hact : Handles.act config a w = some (w', more)) (hplain : a.plain = true)
    (hcalm : a.Calm config w others) (h : Kept config w (a ::ₘ others)) :
    Kept config w' (↑more + others) := by
  have hstaged := h.staged a (mem_cons_self _ _)
  obtain ⟨hexports, hstates, hrefs⟩ := plain_registry hact hplain
  obtain ⟨hkeeps, hstages⟩ := plain_stages hact hplain hcalm hstaged
  refine h.of_states (h.balanced.act hact) hexports hstates (fun ref hr => ?_) hkeeps hstages
  rcases hrefs ref hr with hr | ⟨req, s, rfl, rfl⟩
  · exact h.live ref hr
  · exact hstaged

theorem act (hact : Handles.act config a w = some (w', more)) (hcalm : a.Calm config w others)
    (h : Kept config w (a ::ₘ others)) : Kept config w' (↑more + others) := by
  cases a with
  | mint req => exact mint hact hcalm h
  | install req s result => exact installed hact h
  | releaseState ref => exact releasedState hact h
  | exportOff ref chunks => exact exportedOff hact h
  | _ => exact of_plain hact rfl hcalm h

lemma start (monitor : Bool) (now : ℤ) (engine : Engine) :
    Kept config (World.start monitor now engine) 0 :=
  ⟨Balanced.start monitor now engine, fun _ _ h => (nomatch h),
    fun _ _ h => absurd h (notMem_zero _), fun _ h => (nomatch h),
    fun _ h => absurd h (notMem_zero _), nodup_zero,
    fun _ h => absurd h (notMem_zero _), fun _ h => absurd h (notMem_zero _)⟩

lemma call (h : Kept config w others) (c : Call) :
    Kept config w (([c.action] : Multiset Action) + others) := by
  have hb := h.balanced.call c
  rw [coe_singleton, singleton_add] at hb ⊢
  obtain ⟨action, hcall⟩ := c
  have hplain : action.Staged config w ∧ action.initializes = none ∧
      ∀ ref chunks, action ≠ .exportOff ref chunks := by
    cases action with
    | mint | mintExternal | release | handlePidExit | lifecycle | backend =>
      exact ⟨trivial, rfl, by simp⟩
    | _ => cases hcall
  obtain ⟨hstaged, hinit, hoff⟩ := hplain
  refine ⟨hb, h.apart, fun ref chunks hmem => ?_, h.on,
    forall_mem_cons.mpr ⟨hstaged, h.staged⟩, ?_, ?_, h.live⟩
  · exact h.noOff ref chunks ((mem_cons.mp hmem).resolve_left fun heq =>
      hoff ref chunks heq.symm)
  · rw [filterMap_cons_none _ _ hinit]
    exact h.once
  · rw [filterMap_cons_none _ _ hinit]
    exact h.unready

lemma of_reached {monitor : Bool} {now : ℤ} {engine : Engine} {p : Calls}
    (h : Reached config (fun w others a => a.Calm config w others)
      (World.start monitor now engine) p) : Kept config p.shared p.pending :=
  Agendas.invariant h (start monitor now engine) (fun c _ _ hw => hw.call c)
    fun _ _ _ _ _ hcalm hact hw => hw.act hact hcalm

end Kept

/-- If every state is made while no call that turns its export off is outstanding, then the export
of every live lease is on, and the device of a GPU lease is not released. -/
theorem live_lease_keeps_export {monitor : Bool} {now : ℤ} {engine : Engine} {p : Calls}
    (h : Reached config (fun w others a => a.Calm config w others)
      (World.start monitor now engine) p)
    {token : Token} {ref : ExportRef} {id : UInt64}
    (hlease : p.shared.registry.leases.lookup token = some (.exported ref id)) :
    p.shared.engine.ExportOn config.context ref.side ref.key
      (p.shared.registry.states ref.state).chunks ∧
    (ref.side = .gpu → ∀ umaKey alloc, p.shared.engine.resolve ref.key = .ok umaKey →
      p.shared.engine.uma.allocation? umaKey = some alloc → 0 < alloc.numChunks →
      ∀ dropAllocation, ∃ status, (p.shared.engine.uma.releaseGpuDevice config.context umaKey
        umaKey.device.ordinal dropAllocation).2 = .error status) := by
  have hk := Kept.of_reached h
  have hmem : ref ∈ p.shared.registry.refs := by
    rw [Registry.refs, Registry.leaseRefs_erase hlease]
    exact mem_add.mpr (.inl (Multiset.mem_singleton_self ref))
  have hhas : p.shared.registry.Has ref :=
    hk.balanced.counted.has (mem_add.mpr (.inl hmem))
  obtain ⟨hon, hzero⟩ := hk.on ref hhas (hk.live ref hmem)
  refine ⟨hon, fun hgpu umaKey alloc hresolve halloc hpos dropAllocation => ?_⟩
  obtain ⟨umaKey', hresolve', hexport⟩ := hon
  obtain rfl : umaKey = umaKey' := Except.ok.inj (hresolve.symm.trans hresolve')
  rw [hgpu] at hexport
  exact UnifiedMemoryAuthority.releaseGpuDevice_refused hexport (hzero hgpu) halloc hpos
    dropAllocation

def Action.conditional : Action → Bool
  | .mint _ | .backend _ => true
  | _ => false

/-- The next action of a move, if any, has no condition. -/
def unconditional (p : Calls) : Agendas.Move Call → Bool
  | .call _ => true
  | .resume i =>
    match p.threads[i]? with
    | some (a :: _) => !a.conditional
    | _ => true

lemma allowed_of_unconditional {p : Calls} {m : Agendas.Move Call} (h : unconditional p m = true) :
    Agendas.Allowed (fun w others a => a.Calm config w others) p m := by
  cases m with
  | call c => trivial
  | resume i =>
    intro a rest hthread others _
    rw [unconditional, hthread] at h
    cases a with
    | mint | backend => cases h
    | _ => trivial

/-- The first section of a mint has made a state. -/
def firstState : Calls :=
  ⟨{ World.start true 0 oneReplica with registry := addState {} .gpu gpuReplica {} },
    [[.prepare (mintGpu "t") 0]]⟩

theorem live_lease_keeps_export_minted :
    ∃ p, run (step oneReplicaConfig) unconditional (List.replicate 9 (.resume 0)) firstState =
        some p ∧
      p.shared.registry.leases.lookup "t" = some (.exported ⟨.gpu, gpuReplica, 0⟩ 1) ∧
      p.shared.engine.ExportOn oneReplicaConfig.context .gpu gpuReplica
        (p.shared.registry.states 0).chunks := by
  have hfirst : Reached oneReplicaConfig (fun w others a => a.Calm oneReplicaConfig w others)
      (World.start true 0 oneReplica) firstState := by
    refine .snoc (t := .resume 0) (.snoc (t := .call ⟨.mint (mintGpu "t"), rfl⟩) .refl trivial rfl)
      ?_ rfl
    refine Agendas.allowed_resume rfl fun others hothers _ => ⟨fun ref chunks hmem => ?_, ?_⟩
    · -- the mint is the only call
      obtain rfl := Agendas.others_eq_zero rfl hothers
      cases hmem
    · exact fun _ hhas => nomatch hhas
  have hrest : ∃ p, run (step oneReplicaConfig) unconditional (replicate 9 (.resume 0))
      firstState = some p ∧
      p.shared.registry.leases.lookup "t" = some (.exported ⟨.gpu, gpuReplica, 0⟩ 1) :=
    ⟨_, rfl, rfl⟩
  obtain ⟨p, hrun, hlease⟩ := hrest
  have hreached := hfirst.trans
    ((reaches_of_run hrun).mono fun _ _ hallowed => allowed_of_unconditional hallowed)
  exact ⟨p, hrun, hlease, (live_lease_keeps_export hreached hlease).1⟩

/-- A lease is minted and released.  When its state has left the table, another one is minted; then
the release comes to turning the export off. -/
def lateOff : List (Agendas.Move Call) :=
  .call ⟨.mint (mintGpu "t"), .refl true⟩ :: List.replicate 10 (.resume 0) ++
    .call ⟨.release "t", .refl true⟩ :: List.replicate 5 (.resume 1) ++
    .call ⟨.mint (mintGpu "u"), .refl true⟩ :: List.replicate 10 (.resume 2) ++ [.resume 1]

theorem late_off_under_live_lease :
    ∃ p, run (step oneReplicaConfig) (fun _ _ => true) lateOff
        ⟨World.start true 0 oneReplica, []⟩ = some p ∧
      p.shared.registry.leases.lookup "u" = some (.exported ⟨.gpu, gpuReplica, 1⟩ 2) ∧
      p.shared.engine.uma.flag oneReplicaConfig.context .gpu gpuReplica 0 = some false ∧
      (p.shared.engine.uma.releaseGpuDevice oneReplicaConfig.context gpuReplica 0 false).2 = .ok () :=
  ⟨_, rfl, rfl, rfl, rfl⟩

end TensorCast.Handles
