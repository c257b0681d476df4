import TensorCast.Core.Status
import TensorCast.Lib.Transition

/-!
# The credit ledger of the staging flow controller

`FlowCreditLedger` hands out a fixed number of staging segments.  An `acquire` that cannot be granted
queues a waiter and sleeps; whoever changes the outstanding credit wakes waiters from the front.
Every section that holds the mutex is one step, so that an `acquire` which waits takes two.  A woken
waiter is out of the queue, and its credit is charged only when its thread has the mutex again.
-/

namespace TensorCast.Flow

open Core Lib

/-! ## The ledger -/

/-- A waiter; `arrival` stands for its address and counts the waiters queued before it. -/
structure Waiter where
  arrival : ℕ
  requested : ℤ
deriving DecidableEq, Repr

/-- A ledger, with the waiters whose `ready` flag is set and whose thread has not run since. -/
structure FlowCreditLedger where
  totalCredit : ℤ
  positive : 0 < totalCredit
  outstanding : ℤ := 0
  waiters : List Waiter := []
  woken : List Waiter := []
  arrivals : ℕ := 0
deriving DecidableEq, Repr

/-- What an `acquire` has come to when it gives up the mutex for the first time. -/
inductive Acquired
  | granted (ledger : FlowCreditLedger)
  | waiting (ledger : FlowCreditLedger)

/-- The loop of `wake_waiters_locked`: the waiters it makes ready, and those it leaves. -/
def wakeLoop (available : ℤ) : List Waiter → List Waiter × List Waiter
  | [] => ([], [])
  | waiter :: rest =>
    if waiter.requested ≤ available then
      let (ready, left) := wakeLoop (available - waiter.requested) rest
      (waiter :: ready, left)
    else
      ([], waiter :: rest)

namespace FlowCreditLedger

def availableCredit (ledger : FlowCreditLedger) : ℤ := ledger.totalCredit - ledger.outstanding

def wakeWaitersLocked (ledger : FlowCreditLedger) : FlowCreditLedger :=
  let (ready, left) := wakeLoop ledger.availableCredit ledger.waiters
  { ledger with woken := ledger.woken ++ ready, waiters := left }

/-- The end of `acquire` and of `try_acquire`. -/
def charge (segments : ℤ) (ledger : FlowCreditLedger) : FlowCreditLedger :=
  wakeWaitersLocked { ledger with outstanding := ledger.outstanding + segments }

def checkRequested (requestedSegments : ℤ) (ledger : FlowCreditLedger) : StatusOr Unit := do
  refuseIf (requestedSegments ≤ 0) (.invalidArgument "requested_segments must be > 0")
  refuseIf (ledger.totalCredit < requestedSegments)
    (.invalidArgument "requested_segments exceeds ledger capacity")

/-- `acquire` up to its return, or up to its wait. -/
def acquire (requestedSegments : ℤ) (ledger : FlowCreditLedger) : StatusOr Acquired := do
  ledger.checkRequested requestedSegments
  let immediate := ledger.waiters.isEmpty && requestedSegments ≤ ledger.availableCredit
  if immediate then
    return .granted (ledger.charge requestedSegments)
  else
    let waiter : Waiter := ⟨ledger.arrivals, requestedSegments⟩
    return .waiting
      { ledger with waiters := ledger.waiters ++ [waiter], arrivals := ledger.arrivals + 1 }

/-- `acquire` from its wait on, once its waiter is ready: what it was granted and the ledger. -/
def resume (arrival : ℕ) (ledger : FlowCreditLedger) : Option (ℤ × FlowCreditLedger) := do
  let waiter ← ledger.woken.find? (·.arrival = arrival)
  let awake := { ledger with woken := ledger.woken.erase waiter }
  return (waiter.requested, awake.charge waiter.requested)

def tryAcquire (requestedSegments : ℤ) (ledger : FlowCreditLedger) :
    StatusOr (ℤ × FlowCreditLedger) := do
  ledger.checkRequested requestedSegments
  refuseIf (ledger.availableCredit ≤ 0) ⟨.unavailable, "no staging credit available"⟩
  let grant := min requestedSegments ledger.availableCredit
  return (grant, ledger.charge grant)

def release (segments : ℤ) (ledger : FlowCreditLedger) : FlowCreditLedger :=
  if segments ≤ 0 then
    ledger
  else
    wakeWaitersLocked { ledger with outstanding := max 0 (ledger.outstanding - segments) }

end FlowCreditLedger

/-! ## The ledger and its callers -/

/-- The ledger, what is left of each lease, and the waiters whose `acquire` has returned, in order. -/
structure World where
  ledger : FlowCreditLedger
  leases : List ℤ := []
  granted : List ℕ := []
deriving DecidableEq, Repr

/-- The sections of the ledger's mutex.  A release says which lease its segments are of. -/
inductive Op
  | acquire (requestedSegments : ℤ)
  | resume (arrival : ℕ)
  | tryAcquire (requestedSegments : ℤ)
  | release (lease : ℕ) (segments : ℤ)
deriving DecidableEq, Repr

def step : Op → World → Option World
  | .acquire requestedSegments, world =>
    match world.ledger.acquire requestedSegments with
    | .error _ => some world
    | .ok (.granted ledger) =>
      some { world with ledger, leases := world.leases ++ [requestedSegments] }
    | .ok (.waiting ledger) => some { world with ledger }
  | .resume arrival, world =>
    (world.ledger.resume arrival).map fun (segments, ledger) =>
      { ledger, leases := world.leases ++ [segments], granted := world.granted ++ [arrival] }
  | .tryAcquire requestedSegments, world =>
    match world.ledger.tryAcquire requestedSegments with
    | .error _ => some world
    | .ok (grant, ledger) => some { world with ledger, leases := world.leases ++ [grant] }
  | .release lease segments, world =>
    some
      { world with
        ledger := world.ledger.release segments
        leases := if segments ≤ 0 then world.leases
          else world.leases.modify lease (· - segments) }

/-- The callers release no more of a lease than is left of it. -/
def Op.honest (world : World) : Op → Bool
  | .release lease segments => world.leases[lease]?.any (segments ≤ ·)
  | _ => true

/-- No section runs while a woken waiter has yet to run, except its own.  Where several are woken at
once, they run in that order, with nobody left in the queue. -/
def Op.undisturbed (ledger : FlowCreditLedger) : Op → Bool
  | .resume arrival =>
    match ledger.woken with
    | [] => false
    | waiter :: others => waiter.arrival = arrival && (others.isEmpty || ledger.waiters.isEmpty)
  | _ => ledger.woken.isEmpty

end TensorCast.Flow
