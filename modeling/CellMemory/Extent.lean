import CellMemory.Cell
import CellMemory.Size

/-! # Extents

A half-open range of positions in a buffer, counted in cells or in bytes.

* `Extent.positions`: the positions in it, in order.
* `Extent.Inside`: the range lies within a given number of positions.
* `Extent.inBytes?`: the bytes of a range of cells.
* `Extent.cellStarts`: where each of the cells of a range of bytes starts.
-/

namespace CellMemory
set_option autoImplicit false

/-- The positions from `start` up to and without `stop`. -/
structure Extent where
  start : Nat
  stop : Nat
deriving DecidableEq, Repr

namespace Extent

def length (e : Extent) : Nat := e.stop - e.start

def positions (e : Extent) : List Nat := List.range' e.start e.length

/-- The range is one of the first `size` positions. -/
def Inside (e : Extent) (size : Nat) : Prop := e.start ≤ e.stop ∧ e.stop ≤ size

instance (e : Extent) (size : Nat) : Decidable (e.Inside size) :=
  inferInstanceAs (Decidable (_ ∧ _))

/-- The bytes of a range of cells, if their positions are sizes. -/
def inBytes? (e : Extent) : Option Extent := do
  let start ← Size.mul? e.start Cell.size
  let stop ← Size.mul? e.stop Cell.size
  return ⟨start, stop⟩

/-- The first byte of each whole cell in a range of bytes. -/
def cellStarts (e : Extent) : List Nat :=
  List.range' e.start (e.length / Cell.size) Cell.size

instance : Membership Nat Extent where
  mem e n := e.start ≤ n ∧ n < e.stop

instance (n : Nat) (e : Extent) : Decidable (n ∈ e) :=
  inferInstanceAs (Decidable (e.start ≤ n ∧ n < e.stop))

@[simp] theorem mem_positions {e : Extent} {n : Nat} : n ∈ e.positions ↔ n ∈ e := by
  have h : n ∈ e ↔ e.start ≤ n ∧ n < e.stop := Iff.rfl
  rw [h, positions, List.mem_range'_1, length]
  omega

end Extent

end CellMemory
