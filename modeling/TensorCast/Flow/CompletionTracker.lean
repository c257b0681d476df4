import TensorCast.Core.Status
import TensorCast.Lib.Agenda

/-!
# The end of a staged transfer

`MtcpTransferCompletionTracker` counts the segments that are with the transport and reports the end of
the transfer through a callback.  Its callers run on several threads, and every access to one of its
atomics is a step.  The steps come in one order, as if the accesses were sequentially consistent; the
source asks for acquire and release.  The count stays below `2 ^ 31`.
-/

namespace TensorCast.Flow.Completion

open Core Lib List

/-- The atomics, the statuses that the callback was given, and what the callers have done: how many
segments were added, and which of the ended ones succeeded. -/
structure MtcpTransferCompletionTracker where
  pendingSegments : ℤ := 0
  finalWindowEnqueued : Bool := false
  segmentFailure : Bool := false
  completed : Bool := false
  reported : List (StatusOr Unit) := []
  added : ℤ := 0
  outcomes : List Bool := []

/-- The steps of the calls; `segmentFinished` is the first one of `mark_segment_finished`, and
`completeOnce` includes the callback. -/
inductive Action
  | addPendingSegments (segmentCount : ℤ)
  | storeFinal
  | segmentFinished (success : Bool)
  | fetchSub
  | storeZero
  | loadFinal
  | loadPending
  | loadFailure
  | completeOnce (status : StatusOr Unit)

inductive Call
  | addPendingSegments (segmentCount : ℤ)
  | markFinalWindowEnqueued
  | markSegmentFinished (success : Bool)
  | failFast (status : StatusOr Unit)

def Call.start : Call → List Action
  | .addPendingSegments segmentCount => [.addPendingSegments segmentCount]
  | .markFinalWindowEnqueued => [.storeFinal]
  | .markSegmentFinished success => [.segmentFinished success]
  | .failFast (.ok ()) =>
    [.completeOnce (.error (.internal "MTCP transfer fail_fast requires non-OK status"))]
  | .failFast (.error status) => [.completeOnce (.error status)]

def act (a : Action) (t : MtcpTransferCompletionTracker) :
    Option (MtcpTransferCompletionTracker × List Action) :=
  match a with
  | .addPendingSegments segmentCount =>
    some (if segmentCount ≤ 0 then t else { t with
      pendingSegments := t.pendingSegments + segmentCount, added := t.added + segmentCount }, [])
  | .storeFinal => some ({ t with finalWindowEnqueued := true }, [.loadFinal])
  | .segmentFinished success =>
    some ({ t with
      segmentFailure := t.segmentFailure || !success, outcomes := success :: t.outcomes }, [.fetchSub])
  | .fetchSub =>
    some ({ t with pendingSegments := t.pendingSegments - 1 },
      if t.pendingSegments ≤ 0 then [.storeZero, .loadFinal] else [.loadFinal])
  | .storeZero => some ({ t with pendingSegments := 0 }, [])
  | .loadFinal => some (t, if t.finalWindowEnqueued then [.loadPending] else [])
  | .loadPending => some (t, if t.pendingSegments ≠ 0 then [] else [.loadFailure])
  | .loadFailure =>
    some (t, [.completeOnce (if t.segmentFailure then
      .error ⟨.unavailable, "MTCP send completed with segment failures"⟩ else .ok ())])
  | .completeOnce status =>
    some (if t.completed then t else { t with completed := true, reported := t.reported ++ [status] },
      [])

abbrev Calls := Agendas MtcpTransferCompletionTracker Action

def step : Agendas.Move Call → Calls → Option Calls := Agendas.step Call.start act

/-- A segment is added before the final window is marked, and ends after it was added. -/
def orderly (t : MtcpTransferCompletionTracker) : Action → Bool
  | .addPendingSegments _ => !t.finalWindowEnqueued
  | .segmentFinished _ => t.outcomes.length < t.added
  | _ => true

/-! ## What holds all along -/

/-- It looks at the atomics, or reports. -/
def Action.checks : Action → Bool
  | .loadFinal | .loadPending | .loadFailure | .completeOnce _ => true
  | _ => false

def Action.subtracts : Action → Bool
  | .fetchSub => true
  | _ => false

/-- Every segment has ended, and there will be no other one. -/
def MtcpTransferCompletionTracker.Done (t : MtcpTransferCompletionTracker) : Prop :=
  t.finalWindowEnqueued = true ∧ t.pendingSegments = 0

/-- What is known when an action is about to be taken. -/
def MtcpTransferCompletionTracker.Ready (t : MtcpTransferCompletionTracker) : Action → Prop
  | .loadPending => t.finalWindowEnqueued = true
  | .loadFailure => t.Done
  | .completeOnce status => status = .ok () → t.Done ∧ t.segmentFailure = false
  | .storeZero => False
  | _ => True

structure Sound (t : MtcpTransferCompletionTracker) (pending : Multiset Action) : Prop where
  ready : ∀ a ∈ pending, t.Ready a
  count : t.pendingSegments = t.added - t.outcomes.length + pending.countP (·.subtracts = true)
  ended : t.outcomes.length ≤ t.added
  failure : t.segmentFailure = t.outcomes.any (!·)
  once : t.reported.length = if t.completed then 1 else 0
  truthful : .ok () ∈ t.reported → t.Done ∧ t.segmentFailure = false
  noticed : t.completed = false → t.Done → ∃ a ∈ pending, a.checks = true

variable {t t' : MtcpTransferCompletionTracker} {a : Action} {more : List Action}
  {others : Multiset Action}

open MtcpTransferCompletionTracker

lemma Sound.act (h : Sound t (a ::ₘ others)) (ha : orderly t a = true)
    (hact : act a t = some (t', more)) : Sound t' ((more : Multiset Action) + others) := by
  obtain ⟨hready, hcount, hended, hfailure, honce, htruthful, hnoticed⟩ := h
  have hknown := hready a (by simp)
  rw [Multiset.countP_cons] at hcount
  have hkept : t.finalWindowEnqueued = true → t'.finalWindowEnqueued = true := by
    clear * - hact
    cases a <;> cases hact <;> grind
  -- no segment is left to change the flags when the transfer is done
  have hdone : t.Done → t'.Done ∧ t'.segmentFailure = t.segmentFailure := by
    clear * - hact ha hknown hcount hended
    cases a <;> cases hact <;> grind [Done, orderly, Ready, Action.subtracts]
  refine ⟨?_, ?_, ?_, ?_, ?_, ?_, fun hopen hdone' => ?_⟩
  · simp only [Multiset.mem_add, Multiset.mem_coe]
    rintro b (hb | hb)
    · clear * - hact hknown hcount hended hb
      cases a <;> cases hact <;> grind [Done, Ready, Action.subtracts]
    · have hb := hready b (by simp [hb])
      clear * - hb hkept hdone
      cases b <;> simp_all [Ready]
  · rw [Multiset.countP_add, Multiset.coe_countP]
    clear * - hact hknown hcount
    cases a <;> cases hact <;> grind [Ready, Action.subtracts]
  · clear * - hact ha hended
    cases a <;> cases hact <;> grind [orderly]
  · clear * - hact hfailure
    cases a <;> cases hact <;> grind
  · clear * - hact honce
    cases a <;> cases hact <;> grind
  · clear * - hact hknown htruthful hdone
    cases a <;> cases hact <;> grind [Ready]
  · -- the action leads to the next look at the atomics, or is not the awaited one
    have hlook : more.any Action.checks = true ∨
        a.checks = false ∧ t.completed = false ∧ t.Done := by
      clear * - hact ha hknown hopen hdone'
      cases a <;> cases hact <;> grind [Done, orderly, Ready, Action.checks]
    simp only [Multiset.mem_add, Multiset.mem_coe]
    rcases hlook with hlook | ⟨hother, hcompleted, htdone⟩
    · obtain ⟨b, hb, hchecks⟩ := any_eq_true.1 hlook
      exact ⟨b, .inl hb, hchecks⟩
    · obtain ⟨b, hb, hchecks⟩ := hnoticed hcompleted htdone
      exact ⟨b, .inr ((Multiset.mem_cons.1 hb).resolve_left (by grind)), hchecks⟩

lemma Sound.cons (h : Sound t others) (hready : t.Ready a) (hcount : a.subtracts = false) :
    Sound t (a ::ₘ others) := by
  refine ⟨by simpa using ⟨hready, h.ready⟩, by simpa [hcount] using h.count, h.ended, h.failure,
    h.once, h.truthful, fun hopen hdone => ?_⟩
  obtain ⟨b, hb, hchecks⟩ := h.noticed hopen hdone
  exact ⟨b, Multiset.mem_cons_of_mem hb, hchecks⟩

lemma Sound.call (h : Sound t others) (c : Call) : Sound t ((c.start : Multiset Action) + others) := by
  rcases c with _ | _ | _ | _ | _ <;> exact h.cons (by simp [Ready]) rfl

def orderlyNext (p : Calls) : Agendas.Move Call → Bool
  | .call _ => true
  | .resume i => (p.threads[i]?.bind head?).all (orderly p.shared)

/-- A segment is added and ends, and the final window is marked. -/
def oneSegment : List (Agendas.Move Call) :=
  [.call (.addPendingSegments 1), .resume 0, .call (.markSegmentFinished true)] ++
    replicate 3 (.resume 1) ++ .call .markFinalWindowEnqueued :: replicate 5 (.resume 2)

end TensorCast.Flow.Completion
