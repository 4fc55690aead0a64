import CellMemory.Memory.Access

/-! # Calls

What can be asked of a memory, as data: a call is one request with its arguments, and a run is a
list of calls made one after the other.

* `Call`, `Answer`: the requests, and what they are answered with.
* `Call.name`: the name under which a request is known.
* `Call.access`: the steps of a call.
* `Memory.perform`, `Memory.run`: the memory and the replies after one call and after a run.
-/

namespace CellMemory
set_option autoImplicit false

/-- A request to a memory. Booleans have to be decoded, so there is no view of them. -/
inductive Call where
  | cellCount
  | prefixCells
  | layout
  | totalBytes
  | bytes
  | dataBytes
  | writeHeader (header : Header)
  | writeMemberId (memberId : UInt32)
  | readHeader
  | validateHeader
  | write (kind : Kind) (index : Nat) (value : kind.Input)
  | read (kind : Kind) (index : Nat)
  | writeBatch (kind : Kind) (start : Nat) (values : List kind.Input)
  | view (kind : Kind) (start count : Nat) (inPlace : kind ≠ .boolean)
  | copy (kind : Kind) (start count : Nat)

def Call.name : Call → String
  | cellCount => "cell_count"
  | prefixCells => "prefix_cell_count"
  | layout => "layout"
  | totalBytes => "total_bytes"
  | bytes => "as_bytes"
  | dataBytes => "data_bytes"
  | writeHeader _ => "write_header"
  | writeMemberId _ => "write_member_id"
  | readHeader => "read_header"
  | validateHeader => "validate_header"
  | write k _ _ => "write_" ++ k.label
  | read k _ => "read_" ++ k.label
  | writeBatch k _ _ => "write_" ++ k.label ++ "_batch"
  | view k _ _ _ => "read_" ++ k.label ++ "_view"
  | copy k _ _ => "read_" ++ k.label ++ "_copy"

/-- What a request is answered with when it succeeds. -/
inductive Answer where
  | done
  | count (n : Nat)
  | verdict (b : Bool)
  | layout (layout : Layout)
  | bytes (bytes : List UInt8)
  | header (header : Header)
  | value (kind : Kind) (value : kind.Value)
  | values (kind : Kind) (values : List kind.Value)
deriving DecidableEq

/-- What comes back from a request: an answer or a failure, and the events of the request. -/
abbrev Reply := Traced (Except Failure Answer)

def Call.access : Call → Access Answer
  | cellCount => do return .count (← Access.memory).cellCount
  | prefixCells => do return .count (← Access.memory).prefixCells
  | layout => do return .layout (← Access.memory).layout
  | totalBytes => do return .count (← Access.totalBytes)
  | bytes => do return .bytes (← Access.memory).bytes
  | dataBytes => do return .bytes (← Access.dataBytes)
  | writeHeader h => do Access.writeHeader h; return .done
  | writeMemberId id => do Access.writeMemberId id; return .done
  | readHeader => do return .header (← Access.readHeader)
  | validateHeader => do Access.validateHeader; return .done
  | write k index v => do Access.write k index v; return .done
  | read k index => do return .value k (← Access.read k index)
  | writeBatch k start vs => do Access.writeBatch k start vs; return .done
  | view k start count _ => do return .values k (← Access.view k start count)
  | copy k start count => do return .values k (← Access.copy k start count)

namespace Memory

/-- Carries out a request. A request that fails leaves the memory as its last step left it. -/
def perform (m : Memory) (c : Call) : Memory × Reply :=
  match c.access.run { memory := m } with
  | .ok answer s => (s.memory, { value := .ok answer, events := s.events })
  | .error failure s => (s.memory, { value := .error failure, events := s.events })

/-- Carries out requests one after the other, whether or not some of them fail. -/
def run (m : Memory) : List Call → Memory × List Reply
  | [] => (m, [])
  | c :: cs =>
    let (next, reply) := m.perform c
    let (last, replies) := next.run cs
    (last, reply :: replies)

end Memory

end CellMemory
