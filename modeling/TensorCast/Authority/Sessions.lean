import TensorCast.Authority.Changes
import TensorCast.Lib.Transition

/-!
# Load sessions

A session remembers the key of a replica, not the allocation it was planned for, and a commit takes
its target, chunks and device from the caller.  To say which allocation a session belongs to, runs
are traced: the trace counts the allocations of every key and notes the count at which each session
was planned.
-/

namespace TensorCast.Authority

open Core Lib Function
open Function (update)

/-- A state of the authority with its trace. -/
structure Traced where
  uma : UnifiedMemoryAuthority
  /-- How often a key has been allocated. -/
  generation : ReplicaKey → ℕ := fun _ => 0
  /-- The generation of its key when a session was planned. -/
  plannedIn : UInt64 → ℕ := fun _ => 0

namespace Traced

def step (event : Event) (traced : Traced) : Option Traced :=
  let outcome := event.operation.apply event.context traced.uma
  some
    { uma := outcome.uma
      generation :=
        match event.operation with
        | .allocate key _ =>
          if outcome.status.isOk then
            update traced.generation key (traced.generation key + 1)
          else traced.generation
        | _ => traced.generation
      plannedIn :=
        match event.operation with
        | .planLoad key _ _ _ =>
          if outcome.status.isOk then
            update traced.plannedIn traced.uma.nextSessionId (traced.generation key)
          else traced.plannedIn
        | _ => traced.plannedIn }

variable {traced : Traced}

/-! ## The property -/

def Planned (traced : Traced) (context : Context) (sessionId : UInt64) (key : ReplicaKey) (i : ℕ)
    (record record' : ChunkRecord) : Prop :=
  ∃ session, traced.uma.sessions sessionId = some session ∧ session.key = key ∧
    traced.plannedIn sessionId = traced.generation key ∧ (∃ c ∈ session.chunks, c.toNat = i) ∧
    (session.target = .cpu ∧ record'.gpu = record.gpu ∨
      session.target = .gpu ∧ record'.cpu = record.cpu ∧
        ∃ device, session.deviceId = some device ∧
          ∀ devKey ≠ context.registry.gpuKey device, record'.gpu devKey = record.gpu devKey)

def CommitsPlanned (traced : Traced) (context : Context) (sessionId : UInt64)
    (target : MemoryLocation) (chunks : List UInt32) (deviceId : Option Int32) : Prop :=
  (traced.uma.commit context sessionId target chunks deviceId).2.isOk →
    ∀ key alloc (i : ℕ) record, traced.uma.allocation? key = some alloc →
      alloc.chunkRecords[i]? = some record →
      ∃ alloc' record',
        (traced.uma.commit context sessionId target chunks deviceId).1.allocation? key =
          some alloc' ∧
        alloc'.chunkRecords[i]? = some record' ∧
        (record' = record ∨ Planned traced context sessionId key i record record')

/-! ## The condition -/

/-- A commit names the target of its session, chunks of it and no other device, and a key is allocated
only when no session of it is open. -/
def Keeps (traced : Traced) (event : Event) : Prop :=
  match event.operation with
  | .commit sessionId target chunks deviceId =>
    ∀ session, traced.uma.sessions sessionId = some session →
      target = session.target ∧ (∀ c ∈ chunks, c ∈ session.chunks) ∧
        (target = .gpu → deviceId = none ∨ deviceId = session.deviceId)
  | .allocate key _ =>
    ∀ sessionId session, traced.uma.sessions sessionId = some session → session.key ≠ key
  | _ => True

/-- Every open session belongs to the current allocation of its key. -/
def Current (traced : Traced) : Prop :=
  ∀ sessionId session, traced.uma.sessions sessionId = some session →
    traced.plannedIn sessionId = traced.generation session.key

open UnifiedMemoryAuthority

variable {uma : UnifiedMemoryAuthority} {session : SessionRecord}

variable {sessionId : UInt64}

lemma sessions_setSession_none {id : UInt64}
    (h : (uma.setSession id none).sessions sessionId = some session) :
    uma.sessions sessionId = some session := by
  rw [sessions_setSession] at h
  by_cases hid : sessionId = id
  · subst hid
    rw [update_self] at h
    cases h
  · rwa [update_of_ne hid] at h

variable {context : Context} {target : MemoryLocation} {deviceId : Option Int32}

lemma sessions_apply {operation : Operation}
    (hop : ∀ key target deviceId chunkIndices,
      operation ≠ .planLoad key target deviceId chunkIndices)
    (h : (operation.apply context uma).uma.sessions sessionId = some session) :
    uma.sessions sessionId = some session := by
  rcases (rest uma context operation).sessions with
    ⟨key, target, deviceId, chunkIndices, hplan⟩ | ⟨id, target, chunks, deviceId, rfl⟩ |
      ⟨id, rfl⟩ | hrest
  · exact absurd hplan (hop _ _ _ _)
  · have hcommit := committed uma context id target chunks deviceId
    simp only [Operation.apply, Outcome.of] at h
    generalize uma.commit context id target chunks deviceId = result at h hcommit
    cases hcommit with
    | noSession => exact h
    | refused => exact h
    | closed => exact sessions_setSession_none h
    | cut _ _ _ _ _ _ _ _ hsame => rwa [← hsame.sessions]
    | done _ _ _ _ _ _ hsame =>
      rw [hsame.sessions] at h
      exact sessions_setSession_none h
  · exact sessions_setSession_none h
  · rwa [hrest.1] at h

lemma Current.step {event : Event} {traced' : Traced} (h : Current traced)
    (hkeeps : Keeps traced event) (hstep : Traced.step event traced = some traced') :
    Current traced' := by
  obtain ⟨operation, context⟩ := event
  cases hstep
  intro sessionId session hsession
  cases operation with
  | planLoad key target deviceId chunkIndices =>
    rcases planLoad_cases traced.uma context key target deviceId chunkIndices with
      ⟨_, hplan⟩ | ⟨_, _, hsame, hplan⟩
    · simp only [Operation.apply, hplan] at hsession ⊢
      exact h sessionId session hsession
    · simp only [Operation.apply, Outcome.of, hplan, sessions_setSession, hsame.sessions] at hsession ⊢
      change update traced.plannedIn traced.uma.nextSessionId (traced.generation key) sessionId = _
      by_cases hid : sessionId = traced.uma.nextSessionId
      · subst hid
        rw [update_self] at hsession ⊢
        cases hsession
        rfl
      · rw [update_of_ne hid] at hsession ⊢
        exact h sessionId session hsession
  | allocate key bytes =>
    have hopen := sessions_apply (by simp) hsession
    have hne := hkeeps sessionId session hopen
    dsimp only
    split_ifs
    · rw [update_of_ne hne]
      exact h sessionId session hopen
    · exact h sessionId session hopen
  | _ => exact h sessionId session (sessions_apply (by simp) hsession)

/-! ## Commits -/

lemma commitChange_iterate {f : ChunkRecord → ChunkRecord}
    (hf : commitChange context target deviceId = some f) (record : ChunkRecord) (k : ℕ) :
    target = .cpu ∧ (f^[k] record).gpu = record.gpu ∨
      target = .gpu ∧ (f^[k] record).cpu = record.cpu ∧
        ∃ device, deviceId = some device ∧
          ∀ devKey ≠ context.registry.gpuKey device, (f^[k] record).gpu devKey = record.gpu devKey := by
  cases target with
  | cpu =>
    cases hf
    refine .inl ⟨rfl, ?_⟩
    induction k with
    | zero => rfl
    | succ k ih =>
      rw [iterate_succ_apply']
      exact ih
  | gpu =>
    obtain ⟨device, hdevice, rfl⟩ := Option.map_eq_some_iff.mp hf
    refine .inr ⟨rfl, ?_, device, hdevice, fun devKey hne => ?_⟩
    · induction k with
      | zero => rfl
      | succ k ih =>
        rw [iterate_succ_apply']
        exact ih
    · induction k with
      | zero => rfl
      | succ k ih =>
        rw [iterate_succ_apply', ← ih]
        exact update_of_ne hne _ _
  | none => cases hf
  | disk => cases hf
  | remote => cases hf

lemma commitsPlanned (h : Current traced) {chunks : List UInt32}
    (hkeeps : Keeps traced ⟨.commit sessionId target chunks deviceId, context⟩) :
    CommitsPlanned traced context sessionId target chunks deviceId := by
  intro hok key alloc i record halloc hi
  have hcommit := committed traced.uma context sessionId target chunks deviceId
  generalize traced.uma.commit context sessionId target chunks deviceId = result at hok hcommit
  cases hcommit with
  | noSession => exact ⟨alloc, record, halloc, hi, .inl rfl⟩
  | refused => exact ⟨alloc, record, halloc, hi, .inl rfl⟩
  | closed => exact ⟨alloc, record, halloc, hi, .inl rfl⟩
  | cut => cases hok
  | @done session alloc₁ f uma' counts hsession halloc₁ hf hlt hne hsame =>
    obtain ⟨rfl, hsub, hdevice⟩ := hkeeps session hsession
    rw [hsame.allocation?]
    by_cases hkey : key = session.key
    · subst hkey
      cases halloc.symm.trans halloc₁
      refine ⟨_, f^[visits (committedChunks session chunks) i] record,
        allocation?_setAllocation_self, ?_, ?_⟩
      · rw [getElem?_modifyChunks, hi]
        rfl
      · rcases eq_zero_or_pos (visits (committedChunks session chunks) i) with hzero | hpos
        · rw [hzero]
          exact .inl rfl
        · refine .inr ⟨session, hsession, rfl, h sessionId session hsession, ?_, ?_⟩
          · obtain ⟨c, hc, hci⟩ := exists_of_visits_pos hpos
            refine ⟨c, ?_, hci⟩
            unfold committedChunks at hc
            split_ifs at hc
            · exact hc
            · exact hsub c hc
          · refine (commitChange_iterate hf record _).imp id ?_
            rintro ⟨hgpu, hcpu, hframe⟩
            have hor : deviceId.or session.deviceId = session.deviceId := by
              rcases hdevice hgpu with rfl | rfl
              · rfl
              · exact Option.or_self
            rw [hor] at hframe
            exact ⟨hgpu, hcpu, hframe⟩
    · exact ⟨alloc, record, (allocation?_setAllocation_of_ne hkey).trans halloc, hi, .inl rfl⟩

/-- **A session commits only what it planned.**  In every run in which commits name the target, chunks
and device of their session and no key is allocated while a session of it is open, every such commit
that succeeds changes only planned chunks of the allocation its session was planned for. -/
theorem commits_only_planned (artifactChunkBytes : UInt64) (shared : Bool)
    (budget : Option MemoryTierBudget)
    (h : Reaches Traced.step Keeps { uma := construct artifactChunkBytes shared budget } traced) :
    ∀ context sessionId target chunks deviceId,
      Keeps traced ⟨.commit sessionId target chunks deviceId, context⟩ →
      CommitsPlanned traced context sessionId target chunks deviceId := by
  have hcurrent : Current traced := by
    refine h.invariant ?_ ?_
    · intro sessionId session hsession
      cases hsession
    · intro traced event traced' _ hkeeps hstep hcurrent
      exact hcurrent.step hkeeps hstep
  intro context sessionId target chunks deviceId hkeeps
  exact commitsPlanned hcurrent hkeeps

/-- A replica of one chunk, with a session that is to load it to the CPU. -/
def loading : Traced :=
  { uma := (((construct 4096 false none).allocate (.mapsAt 65536) { artifactId := "a" } 4096).1.planLoad
      (.mapsAt 0) { artifactId := "a" } .cpu none none).1
    generation := update (fun _ => 0) { artifactId := "a" } 1
    plannedIn := update (fun _ => 0) 1 1 }

lemma reaches_loading : Reaches Traced.step Keeps { uma := construct 4096 false none } loading := by
  refine .snoc (t := ⟨.planLoad { artifactId := "a" } .cpu none none, .mapsAt 0⟩)
    (.snoc (t := ⟨.allocate { artifactId := "a" } 4096, .mapsAt 65536⟩) .refl ?_ rfl) trivial rfl
  intro sessionId session hsession
  cases hsession

theorem commits_only_planned_loading :
    Reaches Traced.step Keeps { uma := construct 4096 false none } loading ∧
      (loading.uma.commit (.mapsAt 0) 1 .cpu [] none).2.isOk ∧
      CommitsPlanned loading (.mapsAt 0) 1 .cpu [] none := by
  refine ⟨reaches_loading, by decide, ?_⟩
  refine commits_only_planned 4096 false none reaches_loading _ _ _ _ _ ?_
  intro session hsession
  cases hsession
  exact ⟨rfl, by simp, nofun⟩

/-- The replica is released and allocated again. -/
def reloaded : Traced :=
  { uma := ((loading.uma.release { artifactId := "a" }).1.allocate (.mapsAt 65536)
      { artifactId := "a" } 4096).1
    generation := update loading.generation { artifactId := "a" } 2
    plannedIn := loading.plannedIn }

/-- A session that outlives its allocation marks the chunk of the next one. -/
theorem stale_session_commits :
    ∃ (session : SessionRecord) (alloc alloc' : ReplicaAllocation),
      Reaches Traced.step (fun _ _ => True) { uma := construct 4096 false none } reloaded ∧
      reloaded.uma.sessions 1 = some session ∧
      reloaded.plannedIn 1 = 1 ∧ reloaded.generation session.key = 2 ∧
      (reloaded.uma.commit (.mapsAt 0) 1 .cpu [] none).2.isOk ∧
      reloaded.uma.allocation? session.key = some alloc ∧
      alloc.chunkRecords.map (·.cpu) = [.cold] ∧
      (reloaded.uma.commit (.mapsAt 0) 1 .cpu [] none).1.allocation? session.key = some alloc' ∧
      alloc'.chunkRecords.map (·.cpu) = [.hot] := by
  refine ⟨_, _, _, ?_, rfl, by decide, by decide, by decide, rfl, by decide, rfl, by decide⟩
  exact ((reaches_loading.mono fun _ _ _ => trivial).snoc
    (t := ⟨.release { artifactId := "a" }, .mapsAt 0⟩) trivial rfl).snoc
    (t := ⟨.allocate { artifactId := "a" } 4096, .mapsAt 65536⟩) trivial rfl

end Traced

end TensorCast.Authority
