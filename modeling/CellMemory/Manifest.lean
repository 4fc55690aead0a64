/-! # The manifest of accessors

Tools that look at a program from outside tell reading from writing by the name of an accessor. The
manifest lists every accessor with its direction and with the cells it touches, so that the rule
can be checked.

* `Direction.classify`: the rule, which looks at the first letters of a name.
* `accessors`, `findAccessor`: the list, and the entry of a name.
* `otherOperations`: the names of the operations that touch no cell.
-/

namespace CellMemory
set_option autoImplicit false

inductive Direction where
  | read
  | write
deriving DecidableEq, Repr

def Direction.label : Direction → String
  | read => "read"
  | write => "write"

/-- The direction that a name announces by its first letters, large or small. Only the letters of
ASCII have a large and a small form here. -/
def Direction.classify (name : String) : Option Direction :=
  let letters := name.toList.map Char.toLower
  if read.label.toList.isPrefixOf letters then some read
  else if write.label.toList.isPrefixOf letters then some write
  else none

/-- The cells an accessor touches: one data cell, a run of them, or the cells of the header. -/
inductive Footprint where
  | single
  | run
  | header
deriving DecidableEq, Repr

def Footprint.label : Footprint → String
  | single => "single"
  | run => "run"
  | header => "prefix"

structure Accessor where
  name : String
  direction : Direction
  footprint : Footprint
deriving DecidableEq, Repr

def accessors : List Accessor := [
  ⟨"write_int32", .write, .single⟩,
  ⟨"read_int32", .read, .single⟩,
  ⟨"write_uint32", .write, .single⟩,
  ⟨"read_uint32", .read, .single⟩,
  ⟨"write_boolean", .write, .single⟩,
  ⟨"read_boolean", .read, .single⟩,
  ⟨"write_4bytes", .write, .single⟩,
  ⟨"read_4bytes", .read, .single⟩,
  ⟨"write_int32_batch", .write, .run⟩,
  ⟨"write_uint32_batch", .write, .run⟩,
  ⟨"write_boolean_batch", .write, .run⟩,
  ⟨"write_4bytes_batch", .write, .run⟩,
  ⟨"read_int32_view", .read, .run⟩,
  ⟨"read_uint32_view", .read, .run⟩,
  ⟨"read_4bytes_view", .read, .run⟩,
  ⟨"read_int32_copy", .read, .run⟩,
  ⟨"read_uint32_copy", .read, .run⟩,
  ⟨"read_boolean_copy", .read, .run⟩,
  ⟨"read_4bytes_copy", .read, .run⟩,
  ⟨"write_header", .write, .header⟩,
  ⟨"write_member_id", .write, .header⟩,
  ⟨"read_header", .read, .header⟩]

/-- The operations that are not accessors: they make a memory, tell its measures, or hand over its
bytes as they are. -/
def otherOperations : List String := [
  "new",
  "with_layout",
  "from_bytes",
  "cell_count",
  "prefix_cell_count",
  "layout",
  "total_bytes",
  "as_bytes",
  "data_bytes",
  "into_bytes"]

/-- The entry of the accessor with exactly this name. -/
def findAccessor (name : String) : Option Accessor := accessors.find? fun a => a.name = name

end CellMemory
