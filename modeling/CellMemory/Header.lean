import CellMemory.Cell
import CellMemory.LittleEndian

/-! # Headers

The first three cells of a prefix can hold a header, which tells a transport where a memory is
going and how much data follows. Its three words are stored in order, each little-endian.

* `Header.bytes`, `Header.ofBytes`: the codec.
* `Header.forCells`: the header of a memory, for counts that fit a word.
* `Header.validate`: the check of the announced count against the real one.
-/

namespace CellMemory
set_option autoImplicit false

/-- What the transport is told about a memory: the member it is sent to and the number of its data
cells. The third word has no use yet. -/
@[ext] structure Header where
  memberId : UInt32
  cellCount : UInt32
  reserved : UInt32 := 0
deriving DecidableEq, Repr

namespace Header

def cells : Nat := 3

def size : Nat := cells * Cell.size

def bytes (h : Header) : List UInt8 :=
  [h.memberId, h.cellCount, h.reserved].flatMap fun w => LittleEndian.digits Cell.size w.toNat

/-- The word in the `n`-th cell of a list of bytes. -/
def field (bs : List UInt8) (n : Nat) : UInt32 :=
  .ofNat (LittleEndian.value ((bs.drop (Cell.size * n)).take Cell.size))

/-- The header at the start of a list of bytes; what follows it does not matter. -/
def ofBytes (bs : List UInt8) : Except Fault Header :=
  if bs.length < size then .error (.headerUnavailable (bs.length / Cell.size))
  else .ok { memberId := field bs 0, cellCount := field bs 1, reserved := field bs 2 }

/-- The header of a memory of so many data cells, if a word can hold their number. -/
def forCells (memberId : UInt32) (cellCount : Nat) : Except Fault Header :=
  if cellCount < UInt32.size then .ok { memberId, cellCount := .ofNat cellCount }
  else .error (.headerOverflow cellCount)

def validate (h : Header) (cellCount : Nat) : Except Fault Unit :=
  ensureLength cellCount h.cellCount.toNat

@[simp] theorem length_bytes (h : Header) : h.bytes.length = size := rfl

end Header

end CellMemory
