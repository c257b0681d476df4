import TensorCast.Lib.Transition

/-!
# Programs of atomic sections

A program that works on a shared state under locks is a sequence of atomic sections: each one reads
the state, writes it, and says how the program goes on.  A pool runs such programs side by side: each
step of a run calls a program, or lets one thread run its next section.

`Safe` is the rule for one program among others: every section keeps an invariant and does no more to
the state than it is allowed to, and what the program knows between two sections survives whatever
the others are allowed to do.
-/

namespace TensorCast.Lib

universe u v w

/-- A program over a shared state `σ` with a result in `α`. -/
inductive Program (σ : Type u) (α : Type v) : Type (max u v)
  | done (result : α)
  | atomic (write : σ → σ) (next : σ → Program σ α)

namespace Program

variable {σ : Type u} {α β : Type v}

def bind : Program σ α → (α → Program σ β) → Program σ β
  | done result, k => k result
  | atomic write next, k => atomic write fun s => (next s).bind k

instance : Monad (Program σ) where
  pure := done
  bind := bind

@[simp] lemma done_bind (a : α) (k : α → Program σ β) : done a >>= k = k a := rfl

/-- One section. -/
def atomically (f : σ → α × σ) : Program σ α :=
  atomic (fun s => (f s).2) fun s => done (f s).1

def read (f : σ → α) : Program σ α := atomically fun s => (f s, s)

/-- A section that only writes. -/
def modify (f : σ → σ) : Program σ PUnit := atomically fun s => (⟨⟩, f s)

/-! ## Safety -/

variable (P : σ → Prop) (assumed allowed : σ → σ → Prop)

/-- What the others may do does not make it false. -/
def Stable (p : σ → Prop) : Prop := ∀ s s', P s → allowed s s' → p s → p s'

variable {P allowed} in
lemma Stable.true : Stable P allowed fun _ => True := fun _ _ _ _ _ => trivial

variable {P allowed} in
lemma Stable.and {p q : σ → Prop} (hp : Stable P allowed p) (hq : Stable P allowed q) :
    Stable P allowed fun s => p s ∧ q s :=
  fun s s' hs h hpq => ⟨hp s s' hs h hpq.1, hq s s' hs h hpq.2⟩

/-- From `pre` the program keeps the invariant `P` and does only what is allowed, if its own sections
do what is assumed of them; in the end its result satisfies `post`. -/
def Safe : Program σ α → (σ → Prop) → (α → σ → Prop) → Prop
  | done result, pre, post => ∀ s, P s → pre s → post result s
  | atomic write next, pre, post => ∀ s, P s → pre s → assumed s (write s) →
      P (write s) ∧ allowed s (write s) ∧
      ∃ mid, Stable P allowed mid ∧ mid (write s) ∧ Safe (next s) mid post

variable {P assumed allowed}

variable {p : Program σ α}

lemma Safe.mono {pre pre' : σ → Prop} {post post' : α → σ → Prop}
    (h : Safe P assumed allowed p pre post) (hpre : ∀ s, pre' s → pre s)
    (hpost : ∀ a s, P s → post a s → post' a s) : Safe P assumed allowed p pre' post' := by
  induction p generalizing pre pre' with
  | done result => exact fun s hs hp => hpost _ _ hs (h s hs (hpre s hp))
  | atomic write next ih =>
    intro s hs hp hassumed
    obtain ⟨hP, hallowed, mid, hstable, hmid, hnext⟩ := h s hs (hpre s hp) hassumed
    exact ⟨hP, hallowed, mid, hstable, hmid, ih s hnext fun _ => id⟩

variable {pre : σ → Prop}

lemma Safe.bind {k : α → Program σ β} {mid : α → σ → Prop} {post : β → σ → Prop}
    (h : Safe P assumed allowed p pre mid) (hk : ∀ a, Safe P assumed allowed (k a) (mid a) post) :
    Safe P assumed allowed (p >>= k) pre post := by
  induction p generalizing pre with
  | done result =>
    -- the first program is over: what it has reached is what the second starts with
    have hnext := hk result
    rw [done_bind]
    cases hka : k result with
    | done b =>
      rw [hka] at hnext
      exact fun s hs hp => hnext s hs (h s hs hp)
    | atomic write next =>
      rw [hka] at hnext
      exact fun s hs hp => hnext s hs (h s hs hp)
  | atomic write next ih =>
    intro s hs hp hassumed
    obtain ⟨hP, hallowed, m, hstable, hm, hnext⟩ := h s hs hp hassumed
    exact ⟨hP, hallowed, m, hstable, hm, ih s hnext⟩

variable {post : α → σ → Prop}

lemma Safe.map {f : α → β} (h : Safe P assumed allowed p pre post) :
    Safe P assumed allowed (f <$> p) pre fun _ _ => True :=
  h.bind fun _ _ _ _ => trivial

lemma Safe.frame {pre q : σ → Prop}
    (h : Safe P assumed allowed p pre post) (hq : Stable P allowed q) :
    Safe P assumed allowed p (fun s => pre s ∧ q s) fun a s => post a s ∧ q s := by
  induction p generalizing pre with
  | done result => exact fun s hs hp => ⟨h s hs hp.1, hp.2⟩
  | atomic write next ih =>
    intro s hs hp hassumed
    obtain ⟨hP, hallowed, _, hstable, hmid, hnext⟩ := h s hs hp.1 hassumed
    exact ⟨hP, hallowed, _, hstable.and hq, ⟨hmid, hq s _ hs hallowed hp.2⟩, ih s hnext⟩

lemma Safe.atomically {f : σ → α × σ}
    (hstable : ∀ a, Stable P allowed (post a))
    (h : ∀ s, P s → pre s → assumed s (f s).2 →
      P (f s).2 ∧ allowed s (f s).2 ∧ post (f s).1 (f s).2) :
    Safe P assumed allowed (atomically f) pre post := by
  intro s hs hp hassumed
  obtain ⟨hP, hallowed, hpost⟩ := h s hs hp hassumed
  exact ⟨hP, hallowed, post (f s).1, hstable _, hpost, fun _ _ => id⟩

/-- A loop over a list, each round of which has its own precondition. -/
lemma Safe.forIn {ι : Type w} {items : List ι} {init : β} {body : ι → β → Program σ (ForInStep β)}
    {pre : ι → σ → Prop} (hpre : ∀ i ∈ items, Stable P allowed (pre i))
    (h : ∀ i ∈ items, ∀ b, Safe P assumed allowed (body i b) (pre i) fun _ _ => True) :
    Safe P assumed allowed (ForIn.forIn items init body) (fun s => ∀ i ∈ items, pre i s)
      fun _ _ => True := by
  induction items generalizing init with
  | nil => exact fun _ _ _ => trivial
  | cons i rest ih =>
    rw [List.forIn_cons]
    have hrest : Stable P allowed fun s => ∀ j ∈ rest, pre j s :=
      fun s s' hs hstep hp j hj => hpre j (List.mem_cons_of_mem i hj) s s' hs hstep (hp j hj)
    have hfirst := (h i List.mem_cons_self init).frame hrest
    refine (hfirst.mono (fun s hp => ⟨hp i List.mem_cons_self,
      fun j hj => hp j (List.mem_cons_of_mem i hj)⟩) fun _ _ _ => id).bind fun result => ?_
    cases result with
    | done b => exact fun _ _ _ => trivial
    | yield b =>
      refine (ih (fun j hj => hpre j (List.mem_cons_of_mem i hj))
        fun j hj => h j (List.mem_cons_of_mem i hj)).mono (fun s hp => hp.2) fun _ _ _ => id

end Program

/-! ## Pools -/

/-- The state that the threads share, and what is left of the program of each call. -/
structure Pool (κ : Type*) (σ : Type u) (α : Type v) where
  shared : σ
  threads : List (κ × Program σ α) := []

namespace Pool

variable {κ : Type*} {σ : Type u} {α : Type v}

/-- A call, or the next section of a thread. -/
inductive Move (κ : Type*)
  | call (c : κ)
  | resume (i : ℕ)

def step (program : κ → Program σ α) (move : Move κ) (pool : Pool κ σ α) : Option (Pool κ σ α) :=
  match move with
  | .call c => some { pool with threads := pool.threads ++ [(c, program c)] }
  | .resume i =>
    match pool.threads[i]? with
    | some (c, .atomic write next) =>
      some { shared := write pool.shared, threads := pool.threads.set i (c, next pool.shared) }
    | _ => none

variable {program : κ → Program σ α} {pool pool' : Pool κ σ α}

lemma step_cases {move : Move κ} (h : step program move pool = some pool') :
    (∃ c, move = .call c ∧ pool' = { pool with threads := pool.threads ++ [(c, program c)] }) ∨
    ∃ i c write next, move = .resume i ∧ pool.threads[i]? = some (c, .atomic write next) ∧
      pool' =
        { shared := write pool.shared, threads := pool.threads.set i (c, next pool.shared) } := by
  cases move with
  | call c => exact .inl ⟨c, rfl, (Option.some.inj h).symm⟩
  | resume i =>
    right
    rw [step] at h
    cases hthread : pool.threads[i]? with
    | none =>
      simp only [hthread] at h
      cases h
    | some thread =>
      obtain ⟨c, p⟩ := thread
      cases p with
      | done a =>
        simp only [hthread] at h
        cases h
      | atomic write next =>
        simp only [hthread] at h
        exact ⟨i, c, write, next, rfl, hthread, (Option.some.inj h).symm⟩

/-- What every thread knows of itself and of the shared state: it holds at a call, each section
of the thread keeps it, and so do the sections of the others. -/
lemma forall_threads {allowed : Pool κ σ α → Move κ → Prop} {init : σ}
    {A : κ → Program σ α → σ → Prop}
    (hrun : Reaches (step program) allowed { shared := init } pool)
    (hcall : ∀ c s, A c (program c) s)
    (hnext : ∀ c write next s, A c (.atomic write next) s → A c (next s) (write s))
    (hother : ∀ (pool : Pool κ σ α) (i j : ℕ) c p c' write next, allowed pool (.resume j) → i ≠ j →
      pool.threads[i]? = some (c, p) → pool.threads[j]? = some (c', .atomic write next) →
      A c p pool.shared → A c p (write pool.shared)) :
    ∀ (i : ℕ) c p, pool.threads[i]? = some (c, p) → A c p pool.shared := by
  refine hrun.invariant (P := fun pool => ∀ (i : ℕ) c p, pool.threads[i]? = some (c, p) →
    A c p pool.shared) (fun i c p h => by simp at h) ?_
  intro pool move pool' _ hallowed hstep ih i c p hthread
  rcases step_cases hstep with ⟨c', rfl, rfl⟩ | ⟨j, c', write, next, rfl, hmover, rfl⟩
  · rcases getElem?_concat_cases hthread with hthread | ⟨-, hnew⟩
    · exact ih i c p hthread
    · cases hnew
      exact hcall _ _
  · rcases getElem?_set_cases hthread with ⟨-, hmoved⟩ | ⟨hne, hthread⟩
    · cases hmoved
      exact hnext _ _ _ _ (ih j c _ hmover)
    · exact hother pool i j c p c' write next hallowed hne hthread hmover (ih i c p hthread)

section Safety

open Program List

variable {P : σ → Prop} {assumed : κ → σ → σ → Prop} {allowed : σ → σ → Prop}

/-- The invariant holds, and every thread knows enough to go on. -/
structure Sound (P : σ → Prop) (assumed : κ → σ → σ → Prop) (allowed : σ → σ → Prop)
    (pool : Pool κ σ α) : Prop where
  inv : P pool.shared
  thread : ∀ thread ∈ pool.threads, ∃ pre, Stable P allowed pre ∧ pre pool.shared ∧
    Safe P (assumed thread.1) allowed thread.2 pre fun _ _ => True

lemma Sound.section_allowed (h : Sound P assumed allowed pool) {i : ℕ} {c : κ} {write : σ → σ}
    {next : σ → Program σ α} (hthread : pool.threads[i]? = some (c, .atomic write next))
    (hassumed : assumed c pool.shared (write pool.shared)) :
    P (write pool.shared) ∧ allowed pool.shared (write pool.shared) ∧
      ∃ mid, Stable P allowed mid ∧ mid (write pool.shared) ∧
        Safe P (assumed c) allowed (next pool.shared) mid fun _ _ => True := by
  obtain ⟨_, -, hpre, hsafe⟩ := h.thread _ (mem_of_getElem? hthread)
  exact hsafe pool.shared h.inv hpre hassumed

lemma Sound.step (h : Sound P assumed allowed pool) {move : Move κ}
    (hcall : ∀ c, move = .call c → ∃ pre, Stable P allowed pre ∧ pre pool.shared ∧
      Safe P (assumed c) allowed (program c) pre fun _ _ => True)
    (hassumed : ∀ i c write next, move = .resume i →
      pool.threads[i]? = some (c, .atomic write next) → assumed c pool.shared (write pool.shared))
    (hstep : Pool.step program move pool = some pool') : Sound P assumed allowed pool' := by
  rcases step_cases hstep with ⟨c, rfl, rfl⟩ | ⟨i, c, write, next, rfl, hthread, rfl⟩
  · refine ⟨h.inv, forall_mem_append.mpr ⟨h.thread, ?_⟩⟩
    exact forall_mem_singleton.mpr (hcall c rfl)
  · obtain ⟨hP, hallowed, mid, hstable, hmid, hnext⟩ :=
      h.section_allowed hthread (hassumed i c write next rfl hthread)
    refine ⟨hP, forall_mem_set (fun thread hmem => ?_) ⟨mid, hstable, hmid, hnext⟩⟩
    -- the other threads know what they knew
    obtain ⟨pre, hpre, hheld, hsafe⟩ := h.thread thread hmem
    exact ⟨pre, hpre, hpre _ _ h.inv hallowed hheld, hsafe⟩

end Safety

end Pool

end TensorCast.Lib
