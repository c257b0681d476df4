import Mathlib

/-!
# Statuses

Fallible code of the store returns an `absl::Status`, or a value or such a status.  A status
is its code and its message; `StatusOr` is the error monad over it.
-/

namespace TensorCast.Core

/-- The codes of `absl::Status` that the modelled code produces or tests for. -/
inductive StatusCode
  | cancelled
  | invalidArgument
  | deadlineExceeded
  | notFound
  | alreadyExists
  | permissionDenied
  | resourceExhausted
  | failedPrecondition
  | aborted
  | outOfRange
  | unimplemented
  | internal
  | unavailable
  | dataLoss
  | unauthenticated
deriving DecidableEq, Repr

structure Status where
  code : StatusCode
  message : String
deriving DecidableEq, Repr

/-- A value, or the status that says why there is none. -/
abbrev StatusOr (α : Type) := Except Status α

namespace Status

def invalidArgument (message : String) : Status := ⟨.invalidArgument, message⟩
def notFound (message : String) : Status := ⟨.notFound, message⟩
def alreadyExists (message : String) : Status := ⟨.alreadyExists, message⟩
def permissionDenied (message : String) : Status := ⟨.permissionDenied, message⟩
def resourceExhausted (message : String) : Status := ⟨.resourceExhausted, message⟩
def failedPrecondition (message : String) : Status := ⟨.failedPrecondition, message⟩
def aborted (message : String) : Status := ⟨.aborted, message⟩
def outOfRange (message : String) : Status := ⟨.outOfRange, message⟩
def unimplemented (message : String) : Status := ⟨.unimplemented, message⟩
def internal (message : String) : Status := ⟨.internal, message⟩
def dataLoss (message : String) : Status := ⟨.dataLoss, message⟩
def unauthenticated (message : String) : Status := ⟨.unauthenticated, message⟩

end Status

variable {α β : Type}

/-- A check that fails with the given status. -/
def refuseIf (condition : Prop) [Decidable condition] (status : Status) : StatusOr Unit :=
  if condition then .error status else .ok ()

@[simp] lemma refuseIf_eq_ok {condition : Prop} [Decidable condition] {status : Status} {u : Unit} :
    refuseIf condition status = .ok u ↔ ¬ condition := by
  rw [refuseIf]
  split_ifs with h
  · simp [h]
  · simp [h]

/-- The call returned a value. -/
def StatusOr.IsOk (r : StatusOr α) : Prop := ∃ a, r = .ok a

lemma bind_eq_ok {r : StatusOr α} {f : α → StatusOr β} {b : β} :
    (r >>= f) = .ok b ↔ ∃ a, r = .ok a ∧ f a = .ok b := by
  constructor
  · intro h
    cases r with
    | error e => simp [bind, Except.bind] at h
    | ok a => exact ⟨a, rfl, h⟩
  · rintro ⟨a, rfl, h⟩
    exact h

@[simp] lemma ok_bind (a : α) (f : α → StatusOr β) : ((.ok a : StatusOr α) >>= f) = f a := rfl

@[simp] lemma error_bind (e : Status) (f : α → StatusOr β) :
    ((.error e : StatusOr α) >>= f) = .error e := rfl

end TensorCast.Core
