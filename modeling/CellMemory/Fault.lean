import CellMemory.Numeral

/-! # Why a request fails

* `Fault`: the causes for which an operation on layouts, headers or memories is refused, each with
  the numbers that a message about it shows.
* `Fault.message`: the wording.
* `Panic`: a step that has no result at all, which a check before it should have ruled out.
* `Failure`: a fault, a panic, or no memory to work on.
-/

namespace CellMemory
set_option autoImplicit false

inductive Fault where
  | outOfBounds (index count cellCount : Nat)
  | oversizedCell (length : Nat)
  | viewNotSupported (reason : String)
  | lengthMismatch (expected actual : Nat)
  | invalidBufferLength (length prefixBytes : Nat)
  | headerUnavailable (prefixCells : Nat)
  | headerOverflow (cellCount : Nat)
  | headerCodec (text : String) (position : Nat)
deriving DecidableEq, Repr

def Fault.message : Fault → String
  | .outOfBounds index count cellCount =>
    s!"cell range out of bounds: index {index} + span {count} exceeds {cellCount} cells"
  | .oversizedCell length => s!"raw cell write of {length} bytes exceeds the 4-byte cell size"
  | .viewNotSupported reason => s!"view not supported: {reason}"
  | .lengthMismatch expected actual => s!"length mismatch: expected {expected}, got {actual}"
  | .invalidBufferLength length prefixBytes =>
    s!"invalid buffer length {length}: must be a multiple of 4 and at least {prefixBytes} bytes"
  | .headerUnavailable prefixCells =>
    s!"prefix of {prefixCells} cells cannot hold a memory header"
  | .headerOverflow cellCount =>
    s!"{cellCount} data cells cannot be described by a 32-bit header length"
  | .headerCodec text position =>
    s!"header codec error: {text} at 0x{Numeral.hex position}"

/-- Refuses a batch whose length is not the expected one. -/
def ensureLength (expected actual : Nat) : Except Fault Unit :=
  if expected = actual then .ok () else .error (.lengthMismatch expected actual)

/-- A step that cannot be carried out: it asks for more than any allocation can hold, reaches outside
the bytes it works on, copies between stretches of different lengths, or gives a size that does not
fit. -/
inductive Panic where
  | capacity
  | bounds
  | lengths
  | overflow
deriving DecidableEq, Repr

def Panic.message : Panic → String
  | .capacity => "capacity overflow"
  | .bounds => "range out of bounds"
  | .lengths => "lengths differ"
  | .overflow => "arithmetic overflow"

/-- Why there is no result: the request was refused, a step of it could not be carried out, or no
memory is kept under the name given. -/
inductive Failure where
  | fault (fault : Fault)
  | panic (panic : Panic)
  | noMemory
deriving DecidableEq, Repr

end CellMemory
