import CellMemory.Boolean
import CellMemory.Codec

/-! # Kinds of value

The four kinds of value that a cell can hold, each with its own codec.

* `Kind.Value`: what is read; `Kind.Input`: what is offered for writing. They differ for raw cells
  only, where a row may be shorter than a cell, or too long.
* `Kind.encode`, `Kind.decode`, together `Kind.codec`: values and cells.
* `Kind.accept`: the value of an input, or the fault of a row that is too long.
-/

namespace CellMemory
set_option autoImplicit false

/-- How the content of a cell is understood: as an integer in two's complement, as a natural number,
as a boolean pattern, or as the four bytes that it is. -/
inductive Kind where
  | int32
  | uint32
  | boolean
  | raw
deriving DecidableEq, Repr

namespace Kind

abbrev Value : Kind → Type
  | int32 => Int32
  | uint32 => UInt32
  | boolean => Bool
  | raw => Cell

/-- What may be offered for writing: a row of bytes for a raw cell, otherwise a value. -/
abbrev Input : Kind → Type
  | int32 => Int32
  | uint32 => UInt32
  | boolean => Bool
  | raw => List UInt8

instance : (k : Kind) → DecidableEq k.Value
  | int32 => inferInstanceAs (DecidableEq Int32)
  | uint32 => inferInstanceAs (DecidableEq UInt32)
  | boolean => inferInstanceAs (DecidableEq Bool)
  | raw => inferInstanceAs (DecidableEq Cell)

instance : (k : Kind) → DecidableEq k.Input
  | int32 => inferInstanceAs (DecidableEq Int32)
  | uint32 => inferInstanceAs (DecidableEq UInt32)
  | boolean => inferInstanceAs (DecidableEq Bool)
  | raw => inferInstanceAs (DecidableEq (List UInt8))

def encode : (k : Kind) → k.Value → Cell
  | int32, v => .ofWord v.toUInt32
  | uint32, v => .ofWord v
  | boolean, v => .ofWord (Boolean.encode v)
  | raw, c => c

def decode : (k : Kind) → Cell → Traced k.Value
  | int32, c => { value := c.word.toInt32 }
  | uint32, c => { value := c.word }
  | boolean, c => Boolean.decode c.word
  | raw, c => { value := c }

def codec (k : Kind) : Codec k.Value where
  encode := k.encode
  decode := k.decode

/-- A row becomes a cell; everything else that is offered is a value already. -/
def accept : (k : Kind) → k.Input → Except Fault k.Value
  | int32, v => .ok v
  | uint32, v => .ok v
  | boolean, v => .ok v
  | raw, row => Cell.ofRow row

def label : Kind → String
  | int32 => "int32"
  | uint32 => "uint32"
  | boolean => "boolean"
  | raw => "4bytes"

variable (k : Kind) (cells : List Cell)

theorem value_decodeAll :
    (k.codec.decodeAll cells).value = cells.map fun c => (k.decode c).value := rfl

theorem events_decodeAll :
    (k.codec.decodeAll cells).events = cells.flatMap fun c => (k.decode c).events := rfl

end Kind

end CellMemory
