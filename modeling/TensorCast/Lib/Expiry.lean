import Mathlib

/-!
# Queues of deadlines that are not cleaned

A table gives every key a deadline, which can be moved.  The queue is not searched for the old entry
then: the key gets the next generation, a new entry is pushed, and an entry of an earlier generation
is skipped when it comes up.  `Tracks`: an entry of the generation that the table has now carries the
deadline that the table has now, and no entry is ahead of the table.
-/

namespace TensorCast.Lib

structure Stamp (τ : Type*) where
  generation : ℕ
  deadline : τ

structure QueueEntry (κ τ : Type*) where
  key : κ
  stamp : Stamp τ

variable {κ τ : Type*} {queue queue' : List (QueueEntry κ τ)} {table table' : κ → Option (Stamp τ)}
  {entry : QueueEntry κ τ} {stamp : Stamp τ}

def Tracks (queue : List (QueueEntry κ τ)) (table : κ → Option (Stamp τ)) : Prop :=
  ∀ entry ∈ queue, ∀ stamp, table entry.key = some stamp →
    entry.stamp.generation ≤ stamp.generation ∧
      (entry.stamp.generation = stamp.generation → entry.stamp.deadline = stamp.deadline)

namespace Tracks

lemma nil : Tracks [] table := nofun

lemma push (h : Tracks queue table) (entry : QueueEntry κ τ)
    (hentry : ∀ stamp, table entry.key = some stamp → entry.stamp = stamp) :
    Tracks (entry :: queue) table := by
  rintro other (_ | ⟨_, hother⟩) stamp hstamp
  · obtain rfl := hentry stamp hstamp
    exact ⟨le_rfl, fun _ => rfl⟩
  · exact h other hother stamp hstamp

lemma change (h : Tracks queue table)
    (hchange : ∀ entry ∈ queue, ∀ stamp, table' entry.key = some stamp →
      table entry.key = some stamp ∨ entry.stamp.generation < stamp.generation) :
    Tracks queue table' := by
  intro entry hentry stamp hstamp
  rcases hchange entry hentry stamp hstamp with hold | hlt
  · exact h entry hentry stamp hold
  · exact ⟨hlt.le, fun heq => absurd heq hlt.ne⟩

lemma thin (h : Tracks queue table) (hsub : ∀ entry ∈ queue', entry ∈ queue) : Tracks queue' table :=
  fun entry hentry => h entry (hsub entry hentry)

lemma due [LE τ] {now : τ} (h : Tracks queue table) (hentry : entry ∈ queue)
    (hstamp : table entry.key = some stamp) (hgen : entry.stamp.generation = stamp.generation)
    (hdue : entry.stamp.deadline ≤ now) : stamp.deadline ≤ now :=
  (h entry hentry stamp hstamp).2 hgen ▸ hdue

end Tracks

end TensorCast.Lib
