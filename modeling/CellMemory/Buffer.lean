import CellMemory.Extent

/-! # Buffers

A buffer is a row of bytes of fixed length. Its list of bytes, `Buffer.toList`, is the view in
which the operations are described.

* `Buffer.zeros`: a buffer of zeros.
* `Buffer.store`: puts bytes from a position on; what would lie past the end is dropped.
* `Buffer.slice`, `Buffer.cell`: the bytes of a range, and the cell at a place.
-/

namespace CellMemory
set_option autoImplicit false

structure Buffer where
  data : ByteArray

namespace Buffer

instance : DecidableEq Buffer := fun a b =>
  decidable_of_iff (a.data.data = b.data.data)
    ⟨fun h => congrArg mk (ByteArray.ext h), fun h => congrArg (fun b => b.data.data) h⟩

def toList (b : Buffer) : List UInt8 := b.data.data.toList

def size (b : Buffer) : Nat := b.data.size

def zeros (n : Nat) : Buffer := ⟨⟨Array.replicate n 0⟩⟩

def set (b : Buffer) (position : Nat) (byte : UInt8) : Buffer :=
  if h : position < b.data.size then ⟨b.data.set position byte h⟩ else b

def store (b : Buffer) (position : Nat) : List UInt8 → Buffer
  | [] => b
  | byte :: rest => (b.set position byte).store (position + 1) rest

def slice (b : Buffer) (e : Extent) : List UInt8 := (b.data.extract e.start e.stop).data.toList

/-- The byte at a position, or zero past the end. -/
def byte (b : Buffer) (position : Nat) : UInt8 :=
  if h : position < b.data.size then b.data[position] else 0

/-- The cell at a place, counted in cells. -/
def cell (b : Buffer) (n : Nat) : Cell :=
  ⟨b.byte (Cell.size * n), b.byte (Cell.size * n + 1), b.byte (Cell.size * n + 2),
    b.byte (Cell.size * n + 3)⟩

@[simp] theorem length_toList (b : Buffer) : b.toList.length = b.size := by
  simp [toList, size]

@[ext] theorem ext {a b : Buffer} (h : a.toList = b.toList) : a = b := by
  cases a
  cases b
  simp only [toList, Array.toList_inj] at h
  exact congrArg Buffer.mk (ByteArray.ext h)

@[simp] theorem toList_zeros (n : Nat) : (zeros n).toList = List.replicate n 0 := by
  simp [zeros, toList]

@[simp] theorem size_zeros (n : Nat) : (zeros n).size = n := by
  rw [← length_toList, toList_zeros, List.length_replicate]

@[simp] theorem toList_set (b : Buffer) (position : Nat) (byte : UInt8) :
    (b.set position byte).toList = b.toList.set position byte := by
  rw [set]
  split
  next h => simp [toList, ByteArray.set]
  next h =>
    rw [List.set_eq_of_length_le]
    simpa [size] using h

@[simp] theorem size_set (b : Buffer) (position : Nat) (byte : UInt8) :
    (b.set position byte).size = b.size := by
  rw [← length_toList, toList_set, List.length_set, length_toList]

@[simp] theorem size_store (b : Buffer) (position : Nat) (bytes : List UInt8) :
    (b.store position bytes).size = b.size := by
  induction bytes generalizing b position with
  | nil => rfl
  | cons byte rest ih => rw [store, ih, size_set]

/-- Stored bytes that fit replace as many bytes from the position on. -/
theorem toList_store (b : Buffer) (position : Nat) (bytes : List UInt8)
    (h : position + bytes.length ≤ b.size) :
    (b.store position bytes).toList =
      b.toList.take position ++ bytes ++ b.toList.drop (position + bytes.length) := by
  induction bytes generalizing b position with
  | nil => simp [store]
  | cons byte rest ih =>
    have hp : position < b.toList.length := by
      rw [length_toList]
      simp only [List.length_cons] at h
      omega
    rw [store, ih _ _ (by simp only [size_set, List.length_cons] at h ⊢; omega), toList_set,
      List.set_eq_take_append_cons_drop, if_pos hp]
    have htake : (b.toList.take position).length = position := by
      rw [List.length_take]
      omega
    rw [List.take_append, List.drop_append, htake]
    simp only [Nat.add_sub_cancel_left, List.take_succ_cons, List.take_zero]
    rw [List.take_of_length_le (by omega), List.drop_of_length_le (by omega),
      show position + 1 + rest.length - position = rest.length + 1 by omega]
    simp [List.drop_drop, Nat.add_comm, Nat.add_left_comm]

theorem slice_eq (b : Buffer) (e : Extent) :
    b.slice e = (b.toList.drop e.start).take e.length := by
  simp [slice, toList, ByteArray.data_extract, Extent.length]

theorem byte_eq (b : Buffer) (position : Nat) : b.byte position = b.toList.getD position 0 := by
  have hs : b.data.size = b.toList.length := by rw [length_toList, size]
  rw [byte, List.getD_eq_getElem?_getD]
  split
  next h =>
    rw [List.getElem?_eq_getElem (by omega), Option.getD_some]
    rfl
  next h => rw [List.getElem?_eq_none (by omega), Option.getD_none]

end Buffer

end CellMemory
