import TensorCast.Lib.Slice

/-!
# What a sink is asked to write

Both the source-ordered scheduler and the pump hand bytes to a sink that writes them at an offset
of the destination.  Their runs are judged by the destination bytes that were written: a list of
offsets with bytes, in which nothing is missing and nothing comes twice.
-/

namespace TensorCast.Sink

open Lib

structure SinkWrite where
  offset : UInt64
  data : List UInt8
deriving DecidableEq, Repr

/-- The destination bytes of a write. -/
def SinkWrite.cells (w : SinkWrite) : List (ℕ × UInt8) :=
  w.data.mapIdx fun k byte => (w.offset.toNat + k, byte)

/-- The destination bytes of writes. -/
def written (writes : List SinkWrite) : List (ℕ × UInt8) := writes.flatMap SinkWrite.cells

lemma written_append (ws ws' : List SinkWrite) : written (ws ++ ws') = written ws ++ written ws' :=
  List.flatMap_append

/-- What a destination byte is asked to be. -/
def cellOf (target : ℕ → UInt8) (d : ℕ) : ℕ × UInt8 := (d, target d)

lemma cells_slice {target : ℕ → UInt8} {offset : UInt64} {f : ℕ → UInt8} {a n : ℕ}
    (h : ∀ k < n, f (a + k) = target (offset.toNat + k)) :
    (SinkWrite.mk offset (slice f a n)).cells = slice (cellOf target) offset.toNat n := by
  refine eq_slice_of_getElem? (by simp [SinkWrite.cells]) fun k hk => ?_
  rw [SinkWrite.cells, List.getElem?_mapIdx]
  show Option.map _ (slice f a n)[k]? = _
  rw [getElem?_slice hk, h k hk]
  rfl

/-! ## Buffers -/

/-- A buffer whose first bytes were overwritten. -/
def fill (data : List UInt8) (buffer : ℕ → UInt8) (i : ℕ) : UInt8 := data.getD i (buffer i)

lemma fill_slice {content buffer : ℕ → UInt8} {a n i : ℕ} (hi : i < n) :
    fill (slice content a n) buffer i = content (a + i) := by
  rw [fill, List.getD_eq_getElem?_getD, getElem?_slice hi, Option.getD_some]

end TensorCast.Sink
