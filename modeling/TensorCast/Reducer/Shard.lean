import TensorCast.Lib.Transition

/-!
# The reducer of worker control intents

`WorkerControlReducer` hands the control-plane writes of a worker to one of several shard threads,
through a bounded queue for each shard.  A heartbeat that finds a pending heartbeat of its worker is
coalesced: it puts its operation and its future into the pending intent, and waits for the future with
the lock of the shard still held.  A step is a section under the lock, an operation on the queue, a
future that is resolved or whose wait ends, or one access of an intent that is made without a lock.
-/

namespace TensorCast.Reducer

open Lib

/-! ## A shard -/

/-- The kinds of intents; the reducer treats heartbeats in a way of their own. -/
inductive Kind
  | heartbeat
  | other (kind : String)
deriving DecidableEq, Repr

/-- The settings of a reducer, after `__init__` has clamped them. -/
structure Config where
  shardCount : ℕ
  queueCapacity : ℕ
  coalesceWindow : ℕ
deriving DecidableEq, Repr

/-- `__init__`; the window is in milliseconds. -/
def Config.mk' (shardCount queueCapacity coalesceWindowMs : ℤ) : Config where
  shardCount := (max 1 shardCount).toNat
  queueCapacity := (max 1 queueCapacity).toNat
  coalesceWindow := (max 0 coalesceWindowMs).toNat

/-- What a future is resolved with: which execution of the shard thread, and whether it raised. -/
structure Outcome where
  execution : ℕ
  raised : Bool
deriving DecidableEq, Repr

/-- The three places that name a pending intent, and `coalesced`, are inside the locked section. -/
inductive SubmitPc
  | unmade
  | entering
  | joining (pending : ℕ)
  | appending (pending : ℕ)
  | coalesced
  | putting
  | dropping
  | waiting
  | returned (outcome : Outcome)
  | overloaded
  | timedOut
deriving DecidableEq, Repr

/-- The place of the shard thread in `_shard_loop`; intents go by the number of the `submit` that
made them. -/
inductive ShardPc
  | idle
  | took (intent : ℕ)
  | executing (intent execution : ℕ)
  | resolving (intent : ℕ) (outcome : Outcome) (next : ℕ)
  | cleanup (intent : ℕ)
deriving DecidableEq, Repr

variable {ω : Type}

/-- The arguments of a `submit`, its reading of the clock, and how many executions had begun when
it was called. -/
structure Submit (ω : Type) where
  workerKey : ω
  kind : Kind
  now : ℤ
  timed : Bool
  madeAt : ℕ
deriving DecidableEq, Repr

/-- A shard with the calls of `submit` that were routed to it.  The intent that a call makes has the
call's number.  `submitted` lists the calls in the order in which their operations were put into the
queue or a pending intent, `executions` the operations in the order in which they were begun. -/
structure Shard (ω : Type) where
  submits : List (Submit ω) := []
  pc : ℕ → SubmitPc := fun _ => .unmade
  operation : ℕ → ℕ := id
  futures : ℕ → List ℕ := fun i => [i]
  result : ℕ → Option Outcome := fun _ => none
  queue : List ℕ := []
  lock : Option ℕ := none
  pendingHeartbeats : ω → Option ℕ := fun _ => none
  thread : ShardPc := .idle
  executions : List ℕ := []
  submitted : List ℕ := []

inductive Move (ω : Type)
  | submit (workerKey : ω) (kind : Kind) (now : ℤ) (timed : Bool)
  | resume (i : ℕ)
  | expire (i : ℕ)
  | shard (raised : Bool)
deriving DecidableEq, Repr

namespace Shard

variable (cfg : Config)

def goTo (i : ℕ) (pc : SubmitPc) (s : Shard ω) : Shard ω := { s with pc := Function.update s.pc i pc }

/-- A call of `submit` up to its first shared access. -/
def submit (workerKey : ω) (kind : Kind) (now : ℤ) (timed : Bool) (s : Shard ω) : Shard ω :=
  let i := s.submits.length
  let call : Submit ω := ⟨workerKey, kind, now, timed, s.executions.length⟩
  let made := { s with submits := s.submits ++ [call] }
  if kind = .heartbeat ∧ 0 < cfg.coalesceWindow then made.goTo i .entering else made.goTo i .putting

section Submitting

variable [DecidableEq ω]

/-- A pending heartbeat of the worker that is young enough to be joined. -/
def joinable (call : Submit ω) (s : Shard ω) : Option ℕ := do
  let pending ← s.pendingHeartbeats call.workerKey
  let made ← s.submits[pending]?
  if call.now - made.now ≤ cfg.coalesceWindow then some pending else none

/-- The section of a heartbeat: it stays in it when it is coalesced. -/
def enter (i : ℕ) (call : Submit ω) (s : Shard ω) : Shard ω :=
  match s.joinable cfg call with
  | some pending => { s with lock := some i }.goTo i (.joining pending)
  | none =>
    { s with
      pendingHeartbeats := Function.update s.pendingHeartbeats call.workerKey (some i) }.goTo i
        .putting

/-- `put_nowait`, with what follows when the queue is full. -/
def put (i : ℕ) (call : Submit ω) (s : Shard ω) : Shard ω :=
  if s.queue.length < cfg.queueCapacity then
    { s with queue := s.queue ++ [i], submitted := s.submitted ++ [i] }.goTo i .waiting
  else if call.kind = .heartbeat then s.goTo i .dropping
  else s.goTo i .overloaded

/-- The next step of a call. -/
def resume (i : ℕ) (s : Shard ω) : Option (Shard ω) := do
  let call ← s.submits[i]?
  match s.pc i with
  | .entering => if s.lock = none then some (s.enter cfg i call) else none
  | .joining pending =>
    some ({ s with
      operation := Function.update s.operation pending i
      submitted := s.submitted ++ [i] }.goTo i (.appending pending))
  | .appending pending =>
    some ({ s with
      futures := Function.update s.futures pending (s.futures pending ++ [i]) }.goTo i .coalesced)
  | .coalesced => (s.result i).map fun outcome => { s with lock := none }.goTo i (.returned outcome)
  | .putting => some (s.put cfg i call)
  | .dropping =>
    if s.lock = none then
      some ({ s with
        pendingHeartbeats := Function.update s.pendingHeartbeats call.workerKey none }.goTo i
          .overloaded)
    else none
  | .waiting => (s.result i).map fun outcome => s.goTo i (.returned outcome)
  | .unmade | .returned _ | .overloaded | .timedOut => none

/-- The wait of a call that was given a timeout ends without a result. -/
def expire (i : ℕ) (s : Shard ω) : Option (Shard ω) := do
  let call ← s.submits[i]?
  match s.pc i, call.timed with
  | .coalesced, true => some ({ s with lock := none }.goTo i .timedOut)
  | .waiting, true => some (s.goTo i .timedOut)
  | _, _ => none

/-- The next step of the shard thread; `raised` says how an operation ends. -/
def shardStep (raised : Bool) (s : Shard ω) : Option (Shard ω) :=
  match s.thread with
  | .idle =>
    match s.queue with
    | [] => none
    | intent :: rest => some { s with queue := rest, thread := .took intent }
  | .took intent =>
    some { s with
      executions := s.executions ++ [s.operation intent]
      thread := .executing intent s.executions.length }
  | .executing intent execution =>
    some { s with thread := .resolving intent ⟨execution, raised⟩ 0 }
  | .resolving intent outcome next =>
    match (s.futures intent)[next]? with
    | some future =>
      some { s with
        result := if s.result future = none then Function.update s.result future (some outcome)
          else s.result
        thread := .resolving intent outcome (next + 1) }
    | none =>
      s.submits[intent]?.map fun call =>
        { s with thread := if call.kind = .heartbeat then .cleanup intent else .idle }
  | .cleanup intent => do
    let call ← s.submits[intent]?
    if s.lock = none then
      some { s with
        thread := .idle
        pendingHeartbeats := if s.pendingHeartbeats call.workerKey = some intent then
          Function.update s.pendingHeartbeats call.workerKey none else s.pendingHeartbeats }
    else none

def step : Move ω → Shard ω → Option (Shard ω)
  | .submit workerKey kind now timed, s => some (s.submit cfg workerKey kind now timed)
  | .resume i, s => s.resume cfg i
  | .expire i, s => s.expire i
  | .shard raised, s => s.shardStep raised

end Submitting

end Shard

/-! ## The reducer -/

/-- The shards of a started reducer. -/
abbrev Shards (ω : Type) := ℕ → Shard ω

/-- A call of `submit`, or a step of a thread of a shard. -/
inductive ReducerMove (ω : Type)
  | submit (workerKey : ω) (kind : Kind) (now : ℤ) (timed : Bool)
  | resume (shardId i : ℕ)
  | expire (shardId i : ℕ)
  | shard (shardId : ℕ) (raised : Bool)
deriving DecidableEq, Repr

variable (cfg : Config) (crc32 : ω → ℕ)

def selectShard (workerKey : ω) : ℕ := crc32 workerKey % cfg.shardCount

def ReducerMove.aim : ReducerMove ω → ℕ × Move ω
  | .submit workerKey kind now timed =>
    (selectShard cfg crc32 workerKey, .submit workerKey kind now timed)
  | .resume shardId i => (shardId, .resume i)
  | .expire shardId i => (shardId, .expire i)
  | .shard shardId raised => (shardId, .shard raised)

def step [DecidableEq ω] : ReducerMove ω → Shards ω → Option (Shards ω) :=
  productStep (ReducerMove.aim cfg crc32) (Shard.step cfg)

/-- A reducer that has just been started. -/
def started : Shards ω := fun _ => {}

end TensorCast.Reducer
