import CellMemory.Extent
import CellMemory.Fault
import CellMemory.Size

/-! # Layouts

A buffer starts with a prefix of so many cells; the data cells follow. The layout says how long
the prefix is, and with it where data cell `i` lies and how large a buffer has to be.

* `Layout.prefixBytes`, `Layout.totalCells`, `Layout.totalBytes`: sizes, cut off at `Size.limit`.
* `Layout.cellCountFor`: the number of data cells in a buffer of a given length.
* `Layout.cellExtent`, `Layout.byteExtent`: where a run of data cells lies.
-/

namespace CellMemory
set_option autoImplicit false

/-- The number of cells reserved in front of the data. -/
@[ext] structure Layout where
  prefixCells : Nat
  prefixCells_le : prefixCells ≤ Size.limit := by decide
deriving DecidableEq, Repr

namespace Layout

/-- The usual prefix, with just enough room for a header. -/
instance : Inhabited Layout := ⟨{ prefixCells := 3 }⟩

def bare : Layout := { prefixCells := 0 }

def ofPrefixCells? (n : Nat) : Option Layout :=
  if h : n ≤ Size.limit then some ⟨n, h⟩ else none

def prefixBytes (l : Layout) : Nat := Size.mulSat l.prefixCells Cell.size

def totalCells (l : Layout) (cellCount : Nat) : Nat := Size.addSat l.prefixCells cellCount

def totalBytes (l : Layout) (cellCount : Nat) : Nat :=
  Size.mulSat (l.totalCells cellCount) Cell.size

/-- The number of data cells in a buffer of `length` bytes, which has to consist of whole cells and
to hold the whole prefix. -/
def cellCountFor (l : Layout) (length : Nat) : Except Fault Nat :=
  match Size.mul? l.prefixCells Cell.size with
  | none => .error (.invalidBufferLength length Size.limit)
  | some prefixBytes =>
    if length % Cell.size ≠ 0 ∨ length < prefixBytes then
      .error (.invalidBufferLength length prefixBytes)
    else .ok ((length - prefixBytes) / Cell.size)

/-- The cells of the buffer that hold the `count` data cells from `index` on, provided that they
are among the `cellCount` data cells and that the byte just past them has a position. -/
def cellExtent? (l : Layout) (cellCount index count : Nat) : Option Extent := do
  let last ← Size.add? index count
  if cellCount < last then none
  let start ← Size.add? l.prefixCells index
  let stop ← Size.add? start count
  let _ ← Size.mul? stop Cell.size
  return ⟨start, stop⟩

def cellExtent (l : Layout) (cellCount index count : Nat) : Except Fault Extent :=
  match l.cellExtent? cellCount index count with
  | none => .error (.outOfBounds index count cellCount)
  | some e => .ok e

/-- The bytes of the buffer that hold a run of data cells. Only the byte just past them has been
looked at before they are computed. -/
def byteExtent (l : Layout) (cellCount index count : Nat) : Except Failure Extent :=
  match l.cellExtent cellCount index count with
  | .error fault => .error (.fault fault)
  | .ok cells =>
    match cells.inBytes? with
    | none => .error (.panic .overflow)
    | some e => .ok e

end Layout

end CellMemory
