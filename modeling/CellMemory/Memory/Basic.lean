import CellMemory.Buffer
import CellMemory.Event
import CellMemory.Layout.Basic

/-! # Memories

A memory is a buffer under a layout: the cells of the prefix and, after them, the data cells.

* `Memory`: the buffer holds exactly the cells that the layout and the number of data cells call
  for, and they are fewer than `Memory.cellLimit`.
* `Memory.bytes`, `Memory.dataBytes`: the whole buffer, and the data region.
* `Memory.slice`, `Memory.cellsIn`: the content of a range, which has to lie in the buffer.
* `Memory.store`: the only way to change the buffer. `Memory.admits` is the check before it.
* `Memory.allocate`, `Memory.ofBytes`: a zeroed memory, and one that takes its content from bytes.
-/

namespace CellMemory
set_option autoImplicit false

/-- The number of cells that no memory reaches, `2 ^ 61`: the bytes of fewer cells can be counted in
63 bits. -/
def Memory.cellLimit : Nat := 2305843009213693952

/-- A buffer that holds the prefix and the data cells and nothing else. -/
@[ext] structure Memory where
  buffer : Buffer
  cellCount : Nat
  layout : Layout
  size_buffer : buffer.size = (layout.prefixCells + cellCount) * Cell.size
  cells_lt : layout.prefixCells + cellCount < Memory.cellLimit
deriving DecidableEq

namespace Memory

/-! ## Measures and content -/

def bytes (m : Memory) : List UInt8 := m.buffer.toList

def cells (m : Memory) : Nat := m.buffer.size / Cell.size

def prefixCells (m : Memory) : Nat := m.layout.prefixCells

def dataBytes (m : Memory) : List UInt8 := m.bytes.drop (m.prefixCells * Cell.size)

/-! ## Ranges of the buffer -/

/-- Breaks off unless a range of bytes lies in the buffer. -/
def inside (m : Memory) (e : Extent) : Except Panic Unit :=
  if e.Inside m.buffer.size then .ok () else .error .bounds

def slice (m : Memory) (e : Extent) : Except Panic (List UInt8) := do
  m.inside e
  return m.buffer.slice e

def cellsIn (m : Memory) (e : Extent) : Except Panic (List Cell) :=
  if e.Inside m.cells then .ok (e.positions.map m.buffer.cell) else .error .bounds

/-- Breaks off unless a range lies in the buffer and is as long as the bytes that are to fill it. -/
def admits (m : Memory) (e : Extent) (bytes : List UInt8) : Except Panic Unit := do
  m.inside e
  if bytes.length = e.length then return () else throw .lengths

/-- Puts bytes into the buffer from a position on. The layout, the number of cells and the size stay
what they are. -/
def store (m : Memory) (position : Nat) (bytes : List UInt8) : Memory where
  buffer := m.buffer.store position bytes
  cellCount := m.cellCount
  layout := m.layout
  size_buffer := by rw [Buffer.size_store, m.size_buffer]
  cells_lt := m.cells_lt

/-! ## New memories -/

/-- A memory of so many zeroed data cells, behind a zeroed prefix. It is announced before it is
found to be too large. -/
def allocate (cellCount : Nat) (layout : Layout) : Traced (Except Failure Memory) where
  value :=
    if h : layout.totalCells cellCount < cellLimit then
      have exact : layout.totalCells cellCount = layout.prefixCells + cellCount :=
        Size.addSat_eq_of_lt (Nat.lt_trans h (by decide))
      .ok {
        buffer := .zeros (layout.totalCells cellCount * Cell.size)
        cellCount
        layout
        size_buffer := by rw [Buffer.size_zeros, exact]
        cells_lt := by rw [← exact]; exact h }
    else .error (.panic .capacity)
  events := [.allocating cellCount layout.prefixCells (layout.totalBytes cellCount)]

/-- The memory whose buffer holds the given bytes. The number of data cells follows from their
length. -/
def ofBytes (bytes : List UInt8) (layout : Layout) : Traced (Except Failure Memory) :=
  match layout.cellCountFor bytes.length with
  | .error fault => { value := .error (.fault fault) }
  | .ok cellCount =>
    let blank := allocate cellCount layout
    match blank.value with
    | .error failure => { value := .error failure, events := blank.events }
    | .ok m =>
      match m.admits ⟨0, m.buffer.size⟩ bytes with
      | .error panic => { value := .error (.panic panic), events := blank.events }
      | .ok () =>
        { value := .ok (m.store 0 bytes)
          events := blank.events ++ [.adopted bytes.length cellCount] }

end Memory

end CellMemory
