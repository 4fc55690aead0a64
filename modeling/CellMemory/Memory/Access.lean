import CellMemory.Header
import CellMemory.Kind
import CellMemory.Memory.Basic

/-! # Access to a memory

An access works on a memory step by step and changes it in place. Its steps can be refused, and they
break off where they reach outside the buffer; what has been changed and reported by then stays.

Data cells are addressed by their index and hold values of some kind. The prefix is reached through
the header only.

* `Access`: the steps on a `Session`, which is a memory at work and the events so far.
* `Access.read`, `Access.write`: one data cell.
* `Access.writeRun`, `Access.readRun`: a run of data cells, for values of any type with a codec.
* `Access.writeBatch`, `Access.copy`, `Access.view`: the same for a kind. A view looks at the cells
  where they are; a copy takes the bytes out of the buffer and reads them there.
* `Access.readHeader`, `Access.writeHeader`, `Access.writeMemberId`, `Access.validateHeader`: the
  header in the prefix.
* `Access.totalBytes`, `Access.dataBytes`: the size of the buffer, and the data region.
-/

namespace CellMemory
set_option autoImplicit false

/-- A memory at work and the events reported so far, oldest first. -/
@[ext] structure Session where
  memory : Memory
  events : List Event := []

/-- Steps on a memory, with a result unless one of them fails. A failure undoes nothing. -/
abbrev Access (α : Type) : Type := EStateM Failure Session α

namespace Access

/-! ## Steps -/

def memory : Access Memory := do return (← get).memory

def report (events : List Event) : Access Unit :=
  modify fun s => { s with events := s.events ++ events }

/-- A result that may be missing; the access ends there if it is. -/
def orFail {ε α : Type} (failure : ε → Failure) : Except ε α → Access α
  | .ok a => pure a
  | .error e => throw (failure e)

def traced {α : Type} (t : Traced α) : Access α := do
  report t.events
  return t.value

def slice (e : Extent) : Access (List UInt8) := do orFail .panic ((← memory).slice e)

/-- Replaces the bytes in a range by as many others. -/
def overwrite (e : Extent) (bytes : List UInt8) : Access Unit := do
  orFail .panic ((← memory).admits e bytes)
  modify fun s => { s with memory := s.memory.store e.start bytes }

/-! ## Where cells lie -/

def cellExtent (index count : Nat) : Access Extent := do
  let m ← memory
  orFail .fault (m.layout.cellExtent m.cellCount index count)

def byteExtent (index count : Nat) : Access Extent := do
  let m ← memory
  orFail id (m.layout.byteExtent m.cellCount index count)

/-- The bytes of the header, if the prefix has room for one. -/
def headerExtent : Access Extent := do
  let m ← memory
  if m.prefixCells < Header.cells then throw (.fault (.headerUnavailable m.prefixCells))
  else return ⟨0, Header.size⟩

/-! ## Measures -/

def totalBytes : Access Nat := do
  match Size.mul? (← memory).cells Cell.size with
  | some n => return n
  | none => throw (.panic .overflow)

def dataBytes : Access (List UInt8) := do
  let m ← memory
  slice ⟨m.layout.prefixBytes, m.buffer.size⟩

/-! ## Single cells -/

def read (k : Kind) (index : Nat) : Access k.Value := do
  let e ← byteExtent index 1
  let cell ← orFail .panic (Cell.ofBytes (← slice e))
  traced (k.decode cell)

/-- Puts a value into a data cell. A row that is too long is refused before the index is looked
at. -/
def write (k : Kind) (index : Nat) (v : k.Input) : Access Unit := do
  let value ← orFail .fault (k.accept v)
  let e ← byteExtent index 1
  overwrite e (k.encode value).bytes

/-! ## Runs of cells -/

section Run
variable {α : Type} (codec : Codec α)

/-- Puts values into a run of data cells, one after the other. The write is reported once the run is
known to exist. -/
def writeRun (start : Nat) (vs : List α) : Access Unit := do
  let e ← byteExtent start vs.length
  report [.writing vs.length start]
  orFail .panic ((← memory).inside e)
  forM (e.cellStarts.zip vs) fun (position, v) =>
    overwrite ⟨position, position + Cell.size⟩ (codec.encode v).bytes

/-- The values in a run of data cells, read from a copy of its bytes. -/
def readRun (start count : Nat) : Access (List α) := do
  let e ← byteExtent start count
  traced (codec.decodeAll (Cell.chunk (← slice e)))

end Run

/-- Puts values into a run of data cells. Every row is checked before the run is looked at. -/
def writeBatch (k : Kind) (start : Nat) (vs : List k.Input) : Access Unit := do
  let values ← orFail .fault (vs.mapM k.accept)
  writeRun k.codec start values

def copy (k : Kind) (start count : Nat) : Access (List k.Value) := readRun k.codec start count

/-- The values in a run of data cells, looked at in place. -/
def view (k : Kind) (start count : Nat) : Access (List k.Value) := do
  let e ← cellExtent start count
  let cells ← orFail .panic ((← memory).cellsIn e)
  return cells.map fun c => (k.decode c).value

/-! ## The header -/

def writeHeader (h : Header) : Access Unit := do
  let e ← headerExtent
  overwrite e h.bytes
  report [.wroteHeader h.memberId h.cellCount]

def writeMemberId (memberId : UInt32) : Access Unit := do
  let h ← orFail .fault (Header.forCells memberId (← memory).cellCount)
  writeHeader h

def readHeader : Access Header := do
  let e ← headerExtent
  orFail .fault (Header.ofBytes (← slice e))

def validateHeader : Access Unit := do
  let h ← readHeader
  orFail .fault (h.validate (← memory).cellCount)

end Access

end CellMemory
