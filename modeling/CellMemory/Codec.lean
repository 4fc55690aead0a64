import CellMemory.Cell
import CellMemory.Event

/-! # Codecs

A value that fills one cell. What is written to runs of cells and read from them may be of any type
that has a codec.

* `Codec`: how the values of a type are kept in cells.
* `Codec.decodeAll`: the values of cells, one after the other.
-/

namespace CellMemory
set_option autoImplicit false

/-- How values of a type are kept in cells, one in each. Reading may have something to report. -/
structure Codec (α : Type) where
  encode : α → Cell
  decode : Cell → Traced α

def Codec.decodeAll {α : Type} (codec : Codec α) (cells : List Cell) : Traced (List α) where
  value := cells.map fun c => (codec.decode c).value
  events := cells.flatMap fun c => (codec.decode c).events

end CellMemory
