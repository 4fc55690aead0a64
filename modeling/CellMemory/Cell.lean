import CellMemory.Fault

/-! # Cells

A cell is the unit a memory is addressed by: four bytes, which stand for a 32-bit word with the
least significant byte first.

* `Cell.word`, `Cell.ofWord`: a cell as a word and back; each undoes the other.
* `Cell.ofBytes`: exactly four bytes as a cell.
* `Cell.ofRow`: a row of at most four bytes, filled up with zeros.
* `Cell.chunk`: the whole cells in a list of bytes.
-/

namespace CellMemory
set_option autoImplicit false

/-- Four bytes, the least significant first. -/
@[ext] structure Cell where
  b0 : UInt8
  b1 : UInt8
  b2 : UInt8
  b3 : UInt8
deriving DecidableEq, Repr

namespace Cell

def size : Nat := 4

/-- The bytes of a cell in the order in which a buffer holds them. -/
def bytes (c : Cell) : List UInt8 := [c.b0, c.b1, c.b2, c.b3]

def word (c : Cell) : UInt32 :=
  .ofNat (c.b0.toNat + 256 * c.b1.toNat + 65536 * c.b2.toNat + 16777216 * c.b3.toNat)

def ofWord (w : UInt32) : Cell :=
  ⟨.ofNat w.toNat, .ofNat (w.toNat / 256), .ofNat (w.toNat / 65536), .ofNat (w.toNat / 16777216)⟩

def ofBytes : List UInt8 → Except Panic Cell
  | [b0, b1, b2, b3] => .ok ⟨b0, b1, b2, b3⟩
  | _ => .error .lengths

/-- The first four bytes of a row, with zeros for those that are missing. -/
def pad (row : List UInt8) : Cell :=
  ⟨row.getD 0 0, row.getD 1 0, row.getD 2 0, row.getD 3 0⟩

def ofRow (row : List UInt8) : Except Fault Cell :=
  if row.length ≤ size then .ok (pad row) else .error (.oversizedCell row.length)

/-- The whole cells that a list of bytes holds, from its start; up to three bytes may remain. -/
def chunk : List UInt8 → List Cell
  | b0 :: b1 :: b2 :: b3 :: rest => ⟨b0, b1, b2, b3⟩ :: chunk rest
  | _ => []

@[simp] theorem length_bytes (c : Cell) : c.bytes.length = size := rfl

theorem toNat_word (c : Cell) :
    c.word.toNat =
      c.b0.toNat + 256 * c.b1.toNat + 65536 * c.b2.toNat + 16777216 * c.b3.toNat := by
  have h0 := c.b0.toNat_lt
  have h1 := c.b1.toNat_lt
  have h2 := c.b2.toNat_lt
  have h3 := c.b3.toNat_lt
  rw [word, UInt32.toNat_ofNat']
  omega

@[simp] theorem word_ofWord (w : UInt32) : (ofWord w).word = w := by
  have hw := w.toNat_lt
  apply UInt32.toNat_inj.1
  simp only [toNat_word, ofWord, UInt8.toNat_ofNat']
  omega

@[simp] theorem ofWord_word (c : Cell) : ofWord c.word = c := by
  have h0 := c.b0.toNat_lt
  have h1 := c.b1.toNat_lt
  have h2 := c.b2.toNat_lt
  have h3 := c.b3.toNat_lt
  apply Cell.ext <;> apply UInt8.toNat_inj.1 <;>
    simp only [ofWord, toNat_word, UInt8.toNat_ofNat'] <;> omega

@[simp] theorem ofBytes_bytes (c : Cell) : ofBytes c.bytes = .ok c := rfl

@[simp] theorem chunk_bytes_append (c : Cell) (rest : List UInt8) :
    chunk (c.bytes ++ rest) = c :: chunk rest := rfl

end Cell

end CellMemory
