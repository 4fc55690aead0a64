import CellMemory.Json.Reader
import CellMemory.Layout.Basic

/-! # Layouts as documents

A layout is configured by a JSON document that gives the number of prefix cells, either as the
member `prefix_cell_count` of an object or as the only item of an array. Where the number is
missing, the usual layout is meant.

* `Layout.toJson`: the document of a layout.
* `Layout.ofJson?`: the layout a document describes. Members with other keys may hold anything.
-/

namespace CellMemory.Layout
set_option autoImplicit false

def prefixKey : String := "prefix_cell_count"

def toJson (l : Layout) : String :=
  "\x7b\"" ++ prefixKey ++ "\":" ++ toString l.prefixCells ++ "\x7d"

/-- The layout with the number of prefix cells that a JSON value gives: a natural number that is a
size. -/
def ofCount? (v : Json.Value) : Option Layout := v.natural?.bind ofPrefixCells?

/-- The layout that at most one number of prefix cells calls for. -/
def ofCounts? : List Json.Value → Option Layout
  | [] => some default
  | [v] => ofCount? v
  | _ => none

def ofValue? : Json.Value → Option Layout
  | .array vs => ofCounts? vs
  | .object members => do
    let keys ← members.mapM fun member => Json.text? member.1
    let named := keys.zip (members.map Prod.snd)
    ofCounts? ((named.filter fun entry => entry.1 = prefixKey.toList).map Prod.snd)
  | _ => none

def ofJson? (text : String) : Option Layout := (Json.read text.toList).bind ofValue?

end CellMemory.Layout
