import TensorCast.Reducer.Shard

/-!
# Waiting with the lock held

A coalesced heartbeat waits for its future inside the section of its shard, and the shard thread needs
the same lock after every heartbeat.  So the wait ends only if the future comes before the next
heartbeat is over; otherwise the shard may stop for ever.
-/

namespace TensorCast.Reducer

open Lib SubmitPc List Option

variable {ω : Type}

/-- The call is inside of the section that holds the lock. -/
def SubmitPc.holds : SubmitPc → Bool
  | .joining _ | .appending _ | .coalesced => true
  | _ => false

def SubmitPc.unfinished : SubmitPc → Bool
  | .unmade | .returned _ | .overloaded | .timedOut => false
  | _ => true

namespace Shard

/-- The intents that were accepted and not yet answered, in the order of the shard thread, each with
the number of its futures that are done. -/
def intents (s : Shard ω) : List (ℕ × ℕ) :=
  match s.thread with
  | .took intent | .executing intent _ => (intent, 0) :: s.queue.map (·, 0)
  | .resolving intent _ next => (intent, next) :: s.queue.map (·, 0)
  | .idle | .cleanup _ => s.queue.map (·, 0)

def isHeartbeat (s : Shard ω) (intent : ℕ × ℕ) : Bool :=
  (s.submits[intent.1]?).any fun call => call.kind = .heartbeat

/-- The heartbeat after which the shard thread needs the lock, if it does not need it now. -/
def nextHeartbeat (s : Shard ω) : Option (ℕ × ℕ) :=
  match s.thread with
  | .cleanup _ => none
  | _ => s.intents.find? s.isHeartbeat

/-- The shard thread will resolve the future, with `held` before it needs the lock. -/
def Awaits (held : Bool) (s : Shard ω) (future : ℕ) : Prop :=
  ∃ intent ∈ s.intents, future ∈ (s.futures intent.1).drop intent.2 ∧
    (held = true → s.nextHeartbeat = some intent)

/-- What the calls of a shard wait for will come; with `held`, although a coalesced call keeps the
lock. -/
structure Live (held : Bool) (s : Shard ω) : Prop where
  known : ∀ i, s.pc i ≠ .unmade → i < s.submits.length
  intents : ∀ intent ∈ s.intents, intent.1 < s.submits.length
  done : ∀ intent ∈ s.intents, intent.2 ≤ (s.futures intent.1).length
  cleaning : ∀ intent, s.thread = .cleanup intent → intent < s.submits.length
  holder : ∀ i, s.lock = some i ↔ (s.pc i).holds = true
  own : ∀ i, i ∈ s.futures i
  waiting : ∀ i, s.pc i = .waiting → s.result i = none → s.Awaits false i
  coalesced : ∀ i, s.pc i = .coalesced → s.result i = none → s.Awaits held i

end Shard

/-- A call puts its future only into an intent that the shard thread comes to, with `held` before it
needs the lock. -/
def Move.prompt (held : Bool) (s : Shard ω) : Move ω → Bool
  | .resume i =>
    match s.pc i with
    | .appending pending =>
      s.intents.any fun intent => intent.1 = pending ∧ (held = true → s.nextHeartbeat = some intent)
    | _ => true
  | _ => true

namespace Shard

variable {cfg : Config} {held : Bool} {s s' : Shard ω}

lemma Live.shard_some [DecidableEq ω] (h : Live held s) (hintents : s.intents ≠ [])
    (hlock : s.lock = none ∨ s.nextHeartbeat ≠ none) :
    (s.shardStep false).isSome = true := by
  rw [shardStep]
  cases hthread : s.thread with
  | idle => cases hq : s.queue <;> simp_all [Shard.intents]
  | took intent => rfl
  | executing intent execution => rfl
  | resolving intent outcome next =>
    have hlt : intent < s.submits.length :=
      h.intents (intent, next) (by simp [Shard.intents, hthread])
    cases hnext : (s.futures intent)[next]? <;> simp [hnext, hlt]
  | cleanup intent =>
    have hlock : s.lock = none := hlock.resolve_right (by simp [nextHeartbeat, hthread])
    simp [hlock, h.cleaning intent hthread]

lemma Live.progress [DecidableEq ω] (cfg : Config) (h : Live true s) {i : ℕ}
    (hi : (s.pc i).unfinished = true) :
    (∃ j, (s.resume cfg j).isSome = true) ∨ ∃ raised, (s.shardStep raised).isSome = true := by
  cases hlock : s.lock with
  | some l =>
    -- the call with the lock goes on, or its future comes before the shard thread needs the lock
    have hholds := (h.holder l).mp hlock
    have hl : l < s.submits.length := h.known l fun hpc => by simp [hpc, holds] at hholds
    cases hpc : s.pc l with
    | joining pending => exact .inl ⟨l, by simp [resume, hpc, hl]⟩
    | appending pending => exact .inl ⟨l, by simp [resume, hpc, hl]⟩
    | coalesced =>
      cases hresult : s.result l with
      | some outcome => exact .inl ⟨l, by simp [resume, hpc, hl, hresult]⟩
      | none =>
        obtain ⟨intent, hintent, -, hnext⟩ := h.coalesced l hpc hresult
        refine .inr ⟨false, h.shard_some (ne_nil_of_mem hintent) (.inr ?_)⟩
        simp [hnext rfl]
    | _ => simp [hpc, holds] at hholds
  | none =>
    have hl : i < s.submits.length := h.known i fun hpc => by simp [hpc, unfinished] at hi
    cases hpc : s.pc i with
    | waiting =>
      cases hresult : s.result i with
      | some outcome => exact .inl ⟨i, by simp [resume, hpc, hl, hresult]⟩
      | none =>
        obtain ⟨intent, hintent, -⟩ := h.waiting i hpc hresult
        exact .inr ⟨false, h.shard_some (ne_nil_of_mem hintent) (.inl hlock)⟩
    | coalesced =>
      have hholds := (h.holder i).mpr (by rw [hpc, holds])
      cases hlock.symm.trans hholds
    | unmade | returned | overloaded | timedOut => simp [hpc, unfinished] at hi
    | _ => exact .inl ⟨i, by simp [resume, hpc, hl, hlock]⟩

/-! ## The steps of the calls -/

/-- A step of a call: what it leaves alone, and what it does to the call, the lock and the queue. -/
structure Called (i : ℕ) (s s' : Shard ω) : Prop where
  thread : s'.thread = s.thread
  result : s'.result = s.result
  submits : s.submits <+: s'.submits
  futures : ∀ intent, s.futures intent <+: s'.futures intent
  made : i < s'.submits.length
  pc : s'.pc = Function.update s.pc i (s'.pc i)
  lock : s'.lock = if (s'.pc i).holds = (s.pc i).holds then s.lock
    else if (s'.pc i).holds then some i else none
  free : (s'.pc i).holds = true → (s.pc i).holds = true ∨ s.lock = none
  queue : s'.queue = s.queue ∨ s'.queue = s.queue ++ [i]
  waiting : s'.pc i = .waiting → s'.queue = s.queue ++ [i]
  coalesced : s'.pc i = .coalesced → ∃ pending, s.pc i = .appending pending ∧
    s'.futures pending = s.futures pending ++ [i]

lemma resume_called [DecidableEq ω] {i : ℕ} (h : s.resume cfg i = some s') : Called i s s' := by
  obtain ⟨_, hcall, h⟩ := bind_eq_some_iff.mp h
  have hi := (List.getElem?_eq_some_iff.mp hcall).1
  cases hpc : s.pc i <;> simp only [hpc] at h
  case entering =>
    obtain ⟨hlock, h⟩ := ite_none_right_eq_some.mp h
    cases h
    unfold enter
    split <;> constructor <;> simp [goTo, hpc, hlock, holds, hi]
  case joining pending =>
    cases h
    constructor <;> simp [goTo, hpc, holds, hi]
  case appending pending =>
    cases h
    constructor
    case futures =>
      intro intent
      rcases eq_or_ne intent pending with rfl | hne <;> simp [goTo, *]
    all_goals simp [goTo, hpc, holds, hi]
  case coalesced | waiting =>
    obtain ⟨-, -, rfl⟩ := map_eq_some_iff.mp h
    constructor <;> simp [goTo, hpc, holds, hi]
  case putting =>
    cases h
    unfold put
    split_ifs <;> constructor <;> simp [goTo, hpc, holds, hi]
  case dropping =>
    obtain ⟨hlock, h⟩ := ite_none_right_eq_some.mp h
    cases h
    constructor <;> simp [goTo, hpc, holds, hi]
  all_goals cases h

lemma expire_called {i : ℕ} (h : s.expire i = some s') : Called i s s' := by
  obtain ⟨_, hcall, h⟩ := bind_eq_some_iff.mp h
  have hi := (List.getElem?_eq_some_iff.mp hcall).1
  split at h
  · cases h
    constructor <;> simp_all [goTo, holds]
  · cases h
    constructor <;> simp_all [goTo, holds]
  · cases h

lemma submit_called (h : s.pc s.submits.length = .unmade) (workerKey : ω) (kind : Kind) (now : ℤ)
    (timed : Bool) : Called s.submits.length s (s.submit cfg workerKey kind now timed) := by
  rw [submit]
  split_ifs <;> constructor <;> simp [goTo, h, holds]

namespace Called

variable {i : ℕ}

section

variable (h : Called i s s')

include h

lemma intents : s'.intents = s.intents ∨ s'.intents = s.intents ++ [(i, 0)] := by
  rw [Shard.intents, Shard.intents, h.thread]
  rcases h.queue with hqueue | hqueue <;> rw [hqueue]
  · exact .inl rfl
  · split <;> simp

lemma mem_intents {intent : ℕ × ℕ} (hintent : intent ∈ s.intents) : intent ∈ s'.intents := by
  rcases h.intents with hintents | hintents <;> simp [hintents, hintent]

lemma nextHeartbeat (hs : Live held s) {intent : ℕ × ℕ}
    (hnext : s.nextHeartbeat = some intent) : s'.nextHeartbeat = some intent := by
  have hkind : ∀ intent ∈ s.intents, s'.isHeartbeat intent = s.isHeartbeat intent := by
    intro intent hintent
    obtain ⟨l, hsubmits⟩ := h.submits
    rw [isHeartbeat, isHeartbeat, ← hsubmits, getElem?_append_left (hs.intents intent hintent)]
  rw [Shard.nextHeartbeat] at hnext ⊢
  rw [h.thread]
  split at hnext
  · cases hnext
  · rw [← find?_congr hkind] at hnext
    rcases h.intents with hintents | hintents
    · rwa [hintents]
    · rw [hintents, find?_append, hnext, some_or]

lemma awaits (hs : Live held s) {lock : Bool} {j : ℕ}
    (hj : s.Awaits lock j) : s'.Awaits lock j := by
  obtain ⟨intent, hintent, hleft, hnext⟩ := hj
  refine ⟨intent, h.mem_intents hintent, ?_, fun hlock => h.nextHeartbeat hs (hnext hlock)⟩
  exact (IsPrefix.drop (h.futures intent.1) _).subset hleft

/-- A step of a call keeps the shard live, if a call that comes to wait may do so. -/
lemma live (hs : Live held s)
    (hprompt : ∀ pending, s.pc i = .appending pending → ∃ intent ∈ s.intents, intent.1 = pending ∧
      (held = true → s.nextHeartbeat = some intent)) : Live held s' := by
  have hother (j : ℕ) (hj : j ≠ i) : s'.pc j = s.pc j := by
    rw [h.pc, Function.update_of_ne hj]
  have hlength := h.submits.length_le
  have hnew {intent : ℕ × ℕ} (hintent : intent ∈ s'.intents) :
      intent ∈ s.intents ∨ intent = (i, 0) := by
    rcases h.intents with hintents | hintents <;> simp_all
  constructor
  case known =>
    intro j hj
    rcases eq_or_ne j i with rfl | hne
    · exact h.made
    · exact (hs.known j (hother j hne ▸ hj)).trans_le hlength
  case intents =>
    intro intent hintent
    rcases hnew hintent with hold | rfl
    · exact (hs.intents intent hold).trans_le hlength
    · exact h.made
  case done =>
    intro intent hintent
    rcases hnew hintent with hold | rfl
    · exact (hs.done intent hold).trans (h.futures intent.1).length_le
    · exact Nat.zero_le _
  case cleaning =>
    exact fun intent hthread => (hs.cleaning intent (h.thread ▸ hthread)).trans_le hlength
  case holder =>
    intro j
    have hlock := h.lock
    have hfree := h.free
    have hi := hs.holder i
    have hj := hs.holder j
    rcases eq_or_ne j i with rfl | hne
    · grind
    · grind
  case own => exact fun j => (h.futures j).subset (hs.own j)
  case waiting =>
    intro j hpc hresult
    rw [h.result] at hresult
    rcases eq_or_ne j i with rfl | hne
    · refine ⟨(j, 0), ?_, (h.futures j).subset (hs.own j), nofun⟩
      rw [Shard.intents, h.waiting hpc]
      split <;> simp
    · exact h.awaits hs (hs.waiting j (hother j hne ▸ hpc) hresult)
  case coalesced =>
    intro j hpc hresult
    rw [h.result] at hresult
    rcases eq_or_ne j i with rfl | hne
    · obtain ⟨pending, hpending, hfutures⟩ := h.coalesced hpc
      obtain ⟨intent, hintent, rfl, hnext⟩ := hprompt pending hpending
      refine ⟨intent, h.mem_intents hintent, ?_, fun hheld => h.nextHeartbeat hs (hnext hheld)⟩
      rw [hfutures, drop_append_of_le_length (hs.done intent hintent)]
      simp
    · exact h.awaits hs (hs.coalesced j (hother j hne ▸ hpc) hresult)

end

end Called

/-! ## The steps of the shard thread -/

variable {raised : Bool}

lemma shardStep_cases [DecidableEq ω] (h : s.shardStep raised = some s') :
    (s'.submits = s.submits ∧ s'.pc = s.pc ∧ s'.futures = s.futures ∧ s'.lock = s.lock) ∧
    ((s'.intents = s.intents ∧ s'.result = s.result ∧ ∀ p, s'.thread ≠ .cleanup p) ∨
      (∃ p next future rest, s.intents = (p, next) :: rest ∧ s'.intents = (p, next + 1) :: rest ∧
        (s.futures p)[next]? = some future ∧
        (∀ j, s'.result j = none → s.result j = none ∧ j ≠ future) ∧
        ∀ p, s'.thread ≠ .cleanup p) ∨
      ∃ p next rest, s.intents = (p, next) :: rest ∧ s'.intents = rest ∧
        (s.futures p).length ≤ next ∧ s'.result = s.result ∧
        ∀ q, s'.thread = .cleanup q → q = p ∧ s.isHeartbeat (p, next) = true) := by
  unfold shardStep at h
  cases hthread : s.thread with
  | idle =>
    cases hqueue : s.queue <;> simp only [hthread, hqueue] at h <;> cases h
    exact ⟨⟨rfl, rfl, rfl, rfl⟩, .inl (by simp [intents, hthread, hqueue])⟩
  | took intent | executing intent execution =>
    simp only [hthread] at h
    cases h
    exact ⟨⟨rfl, rfl, rfl, rfl⟩, .inl (by simp [intents, hthread])⟩
  | resolving intent outcome next =>
    have hintents : s.intents = (intent, next) :: s.queue.map (·, 0) := by simp [intents, hthread]
    cases hnext : (s.futures intent)[next]? with
    | some future =>
      simp only [hthread, hnext] at h
      cases h
      refine ⟨⟨rfl, rfl, rfl, rfl⟩, .inr (.inl ⟨intent, next, future, _, hintents, rfl, hnext, ?_,
        by simp⟩)⟩
      grind [Function.update_apply]
    | none =>
      simp only [hthread, hnext] at h
      obtain ⟨call, hcall, rfl⟩ := map_eq_some_iff.mp h
      refine ⟨⟨rfl, rfl, rfl, rfl⟩, .inr (.inr ⟨intent, next, _, hintents, ?_,
        getElem?_eq_none_iff.mp hnext, rfl, ?_⟩)⟩
      · by_cases hkind : call.kind = .heartbeat <;> simp [intents, hkind]
      · by_cases hkind : call.kind = .heartbeat <;> simp [isHeartbeat, hcall, hkind]
  | cleanup intent =>
    simp only [hthread] at h
    obtain ⟨call, -, h⟩ := bind_eq_some_iff.mp h
    obtain ⟨-, h⟩ := ite_none_right_eq_some.mp h
    cases h
    exact ⟨⟨rfl, rfl, rfl, rfl⟩, .inl (by simp [intents, hthread])⟩

lemma find_of_nextHeartbeat {intent : ℕ × ℕ} (h : s.nextHeartbeat = some intent) :
    s.intents.find? s.isHeartbeat = some intent := by
  rw [nextHeartbeat] at h
  split at h
  · cases h
  · exact h

lemma nextHeartbeat_eq (h : ∀ p, s.thread ≠ .cleanup p) :
    s.nextHeartbeat = s.intents.find? s.isHeartbeat := by
  rw [nextHeartbeat]
  split
  · exact absurd ‹_› (h _)
  · rfl

lemma find_tail {first intent : ℕ × ℕ} {rest : List (ℕ × ℕ)} (hintents : s.intents = first :: rest)
    (hne : intent ≠ first) (h : s.nextHeartbeat = some intent) :
    s.isHeartbeat first = false ∧ rest.find? s.isHeartbeat = some intent := by
  have hfind := find_of_nextHeartbeat h
  rw [hintents, find?_cons] at hfind
  split at hfind
  · exact absurd (some_inj.mp hfind).symm hne
  · exact ⟨‹_›, hfind⟩

lemma shardStep_awaits [DecidableEq ω] (h : s.shardStep raised = some s')
    {j : ℕ} (hresult : s'.result j = none) (hj : s.Awaits held j) : s'.Awaits held j := by
  obtain ⟨intent, hintent, hleft, hnext⟩ := hj
  obtain ⟨⟨hsubmits, -, hfutures, -⟩, hcases⟩ := shardStep_cases h
  have hkind : s'.isHeartbeat = s.isHeartbeat := by
    funext intent
    rw [isHeartbeat, isHeartbeat, hsubmits]
  rcases hcases with ⟨hintents, -, hthread⟩ | ⟨p, next, future, rest, hintents, hintents', hfuture,
    hother, hthread⟩ | ⟨p, next, rest, hintents, hintents', hlength, -, hthread⟩
  · refine ⟨intent, hintents ▸ hintent, hfutures ▸ hleft, fun hheld => ?_⟩
    rw [nextHeartbeat_eq hthread, hintents, hkind]
    exact find_of_nextHeartbeat (hnext hheld)
  · by_cases hfirst : intent = (p, next)
    · -- the future that was resolved is another
      subst hfirst
      obtain ⟨hlt, hget⟩ := List.getElem?_eq_some_iff.mp hfuture
      rw [drop_eq_getElem_cons hlt, hget] at hleft
      refine ⟨(p, next + 1), by simp [hintents'], ?_, fun hheld => ?_⟩
      · rw [hfutures]
        exact (mem_cons.mp hleft).resolve_left (hother j hresult).2
      · have hheartbeat := find?_some (find_of_nextHeartbeat (hnext hheld))
        rw [nextHeartbeat_eq hthread, hintents', hkind]
        exact find?_cons_of_pos hheartbeat
    · rw [hintents] at hintent
      have hmem := (mem_cons.mp hintent).resolve_left hfirst
      refine ⟨intent, by simp [hintents', hmem], hfutures ▸ hleft, fun hheld => ?_⟩
      obtain ⟨hnot, hfind⟩ := find_tail hintents hfirst (hnext hheld)
      rw [nextHeartbeat_eq hthread, hintents', hkind, find?_cons_of_neg, hfind]
      simpa [isHeartbeat] using hnot
  · have hne : intent ≠ (p, next) := by
      rintro rfl
      rw [drop_eq_nil_of_le hlength] at hleft
      cases hleft
    rw [hintents] at hintent
    have hmem := (mem_cons.mp hintent).resolve_left hne
    refine ⟨intent, hintents' ▸ hmem, hfutures ▸ hleft, fun hheld => ?_⟩
    obtain ⟨hnot, hfind⟩ := find_tail hintents hne (hnext hheld)
    rw [nextHeartbeat_eq fun q hq => by simp [(hthread q hq).2] at hnot, hintents', hkind, hfind]

lemma Live.shardStep [DecidableEq ω] (h : Live held s)
    (hstep : s.shardStep raised = some s') : Live held s' := by
  obtain ⟨⟨hsubmits, hpc, hfutures, hlock⟩, hcases⟩ := shardStep_cases hstep
  have hintents : ∀ intent ∈ s'.intents, intent.1 < s.submits.length ∧
      intent.2 ≤ (s.futures intent.1).length := by
    have hold := fun intent hintent => And.intro (h.intents intent hintent) (h.done intent hintent)
    rcases hcases with ⟨hsame, -⟩ | ⟨p, next, future, rest, hs, hs', hfuture, -⟩ |
      ⟨p, next, rest, hs, hs', -⟩
    · rwa [hsame]
    · rw [hs, forall_mem_cons] at hold
      rw [hs', forall_mem_cons]
      exact ⟨⟨hold.1.1, (List.getElem?_eq_some_iff.mp hfuture).1⟩, hold.2⟩
    · rw [hs, forall_mem_cons] at hold
      exact hs' ▸ hold.2
  have hresult : ∀ j, s'.result j = none → s.result j = none := by
    intro j hj
    rcases hcases with ⟨-, hsame, -⟩ | ⟨p, next, future, rest, -, -, -, hother, -⟩ |
      ⟨p, next, rest, -, -, -, hsame, -⟩
    · rwa [hsame] at hj
    · exact (hother j hj).1
    · rwa [hsame] at hj
  constructor
  case known =>
    rw [hpc, hsubmits]
    exact h.known
  case intents =>
    rw [hsubmits]
    exact fun intent hintent => (hintents intent hintent).1
  case done =>
    rw [hfutures]
    exact fun intent hintent => (hintents intent hintent).2
  case cleaning =>
    intro q hq
    rw [hsubmits]
    rcases hcases with ⟨-, -, hthread⟩ | ⟨p, next, future, rest, -, -, -, -, hthread⟩ |
      ⟨p, next, rest, hs, -, -, -, hthread⟩
    · exact absurd hq (hthread q)
    · exact absurd hq (hthread q)
    · rw [(hthread q hq).1]
      exact h.intents (p, next) (hs ▸ mem_cons_self)
  case holder =>
    rw [hlock, hpc]
    exact h.holder
  case own =>
    rw [hfutures]
    exact h.own
  case waiting =>
    rw [hpc]
    exact fun j hj hnone => shardStep_awaits hstep hnone (h.waiting j hj (hresult j hnone))
  case coalesced =>
    rw [hpc]
    exact fun j hj hnone => shardStep_awaits hstep hnone (h.coalesced j hj (hresult j hnone))

/-! ## Runs -/

lemma live_start : Live held ({} : Shard ω) := by
  constructor <;> simp [intents, holds]

lemma Live.step [DecidableEq ω] (h : Live held s) {move : Move ω}
    (hprompt : move.prompt held s = true) (hstep : step cfg move s = some s') : Live held s' := by
  cases move with
  | submit workerKey kind now timed =>
    have hnew : s.pc s.submits.length = .unmade := by
      by_contra hne
      exact lt_irrefl _ (h.known _ hne)
    cases hstep
    exact (submit_called hnew workerKey kind now timed).live h (by simp [hnew])
  | resume i =>
    refine (resume_called hstep).live h fun pending hpending => ?_
    rw [Move.prompt, hpending] at hprompt
    obtain ⟨intent, hintent, hok⟩ := any_eq_true.mp hprompt
    exact ⟨intent, hintent, of_decide_eq_true hok⟩
  | expire i =>
    refine (expire_called hstep).live h fun pending hpending => ?_
    obtain ⟨_, -, hstep⟩ := bind_eq_some_iff.mp hstep
    simp [hpending] at hstep
  | shard raised => exact h.shardStep hstep

end Shard

/-- **A reducer goes on.**  If a coalesced heartbeat puts its future only into the intent after which
the shard thread needs the lock next, a shard with a call of `submit` that has not ended can take a
step: that of a call that was routed to it, or that of its thread. -/
theorem reducer_goes_on [DecidableEq ω] (cfg : Config) (crc32 : ω → ℕ) (shards : Shards ω)
    (h : Reaches (step cfg crc32)
      (fun shards move => (move.aim cfg crc32).2.prompt true (shards (move.aim cfg crc32).1) = true)
      started shards)
    (shardId i : ℕ) (hi : ((shards shardId).pc i).unfinished = true) :
    ∃ move, ((∃ j, move = .resume shardId j) ∨ ∃ raised, move = .shard shardId raised) ∧
      (step cfg crc32 move shards).isSome = true := by
  have hshard := Reaches.component (fun s move => Move.prompt true s move = true) h shardId
  have hlive : Shard.Live true (shards shardId) :=
    hshard.invariant Shard.live_start fun s move s' _ hprompt hstep hs => hs.step hprompt hstep
  rcases hlive.progress cfg hi with ⟨j, hj⟩ | ⟨raised, hraised⟩
  · exact ⟨.resume shardId j, .inl ⟨j, rfl⟩, isSome_map.trans hj⟩
  · exact ⟨.shard shardId raised, .inr ⟨raised, rfl⟩, isSome_map.trans hraised⟩

/-- One shard, whose queue holds one intent. -/
def narrow : Config := Config.mk' 1 1 100

/-- The second heartbeat of a worker waits with the lock held while the first is in the queue. -/
theorem reducer_goes_on_waiting :
    ∃ shards : Shards Unit, (shards 0).lock = some 1 ∧ (shards 0).pc 1 = .coalesced ∧
      (shards 0).result 1 = none ∧
      ∃ move, ((∃ j, move = .resume 0 j) ∨ ∃ raised, move = .shard 0 raised) ∧
        (step narrow (fun _ => 0) move shards).isSome = true := by
  have hrun : ∃ shards : Shards Unit, run (step narrow fun _ => 0)
      (fun shards move => (move.aim narrow fun _ => 0).2.prompt true
        (shards (move.aim narrow fun _ => 0).1))
      [.submit () .heartbeat 0 false, .resume 0 0, .resume 0 0,
        .submit () .heartbeat 50 false, .resume 0 1, .resume 0 1, .resume 0 1] started = some shards ∧
      (shards 0).lock = some 1 ∧ (shards 0).pc 1 = .coalesced ∧ (shards 0).result 1 = none :=
    ⟨_, rfl, rfl, rfl, rfl⟩
  obtain ⟨shards, hrun, hlock, hpc, hresult⟩ := hrun
  refine ⟨shards, hlock, hpc, hresult, ?_⟩
  exact reducer_goes_on narrow _ shards (reaches_of_run hrun) 0 1 (by rw [hpc]; rfl)

/-- The second heartbeat of a worker comes when the first has been executed, and is coalesced into
it before the shard thread takes the lock.  Then no thread can go on. -/
theorem reducer_stops :
    ∃ shards : Shards Unit, Reaches (step narrow fun _ => 0) (fun _ _ => True) started shards ∧
      ((shards 0).pc 1).unfinished = true ∧ ∀ j raised,
        step narrow (fun _ => 0) (.resume 0 j) shards = none ∧
        step narrow (fun _ => 0) (.expire 0 j) shards = none ∧
        step narrow (fun _ => 0) (.shard 0 raised) shards = none := by
  have hrun : ∃ shards : Shards Unit, run (step narrow fun _ => 0) (fun _ _ => true)
      [.submit () .heartbeat 0 false, .resume 0 0, .resume 0 0, .shard 0 false, .shard 0 false,
        .shard 0 false, .shard 0 false, .shard 0 false, .submit () .heartbeat 50 false,
        .resume 0 1, .resume 0 1, .resume 0 1, .resume 0 0] started = some shards ∧
      ((shards 0).pc 1).unfinished = true ∧ (∀ j raised,
        step narrow (fun _ => 0) (.resume 0 j) shards = none ∧
        step narrow (fun _ => 0) (.expire 0 j) shards = none ∧
        step narrow (fun _ => 0) (.shard 0 raised) shards = none) := by
    refine ⟨_, rfl, rfl, fun j raised => ?_⟩
    rcases j with _ | _ | j <;> exact ⟨rfl, rfl, rfl⟩
  obtain ⟨shards, hrun, hstops⟩ := hrun
  exact ⟨shards, (reaches_of_run hrun).mono fun _ _ _ => trivial, hstops⟩

end TensorCast.Reducer
