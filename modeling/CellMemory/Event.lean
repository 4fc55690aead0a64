import CellMemory.Numeral

/-! # Events

Operations report what they do as events, which a reader of the log sees in order.

* `Event`: the things reported, with their level and their text.
* `Traced`: a result together with the events reported on the way to it.
-/

namespace CellMemory
set_option autoImplicit false

/-- How detailed an event is: `trace` is for single accesses. -/
inductive Level where
  | debug
  | trace
deriving DecidableEq, Repr

inductive Event where
  | allocating (cellCount prefixCells totalBytes : Nat)
  | adopted (length cellCount : Nat)
  | wroteHeader (memberId cellCount : UInt32)
  | writing (count start : Nat)
  | nonCanonicalBoolean (pattern : UInt32)
deriving DecidableEq, Repr

def Event.level : Event → Level
  | .allocating .. | .adopted .. | .wroteHeader .. => .debug
  | .writing .. | .nonCanonicalBoolean .. => .trace

def Event.text : Event → String
  | .allocating cellCount prefixCells totalBytes =>
    s!"Allocating memory: {cellCount} data cells, {prefixCells} prefix cells, {totalBytes} bytes"
  | .adopted length cellCount => s!"Adopted {length} byte buffer as {cellCount} data cells"
  | .wroteHeader memberId cellCount =>
    s!"Wrote header: member {memberId} with {cellCount} cells"
  | .writing count start => s!"Writing {count} cells from index {start}"
  | .nonCanonicalBoolean pattern =>
    s!"Non-canonical boolean pattern 0x{Numeral.hexWord pattern} read as true"

/-- A result and the events reported on the way to it, oldest first. -/
structure Traced (α : Type) where
  value : α
  events : List Event := []
deriving DecidableEq, Repr

end CellMemory
