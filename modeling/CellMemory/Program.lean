import Std.Data.HashMap
import CellMemory.Call

/-! # Programs

A program works on memories that are kept under names. Its steps make memories, take them away,
copy and compare them, and pass calls on to them.

* `Slots`: the memories kept, by name.
* `Slots.step`, `Slots.run`: what a step and a program do. After a step that fails the program goes
  on.
-/

namespace CellMemory
set_option autoImplicit false

abbrev Slots := Std.HashMap String Memory

/-- A step of a program: keep a zeroed memory or one with given content, give a memory up for its
bytes, keep a copy of it under another name, compare two, or pass a call on to one. -/
inductive Step where
  | allocate (slot : String) (cellCount : Nat) (layout : Layout)
  | adopt (slot : String) (bytes : List UInt8) (layout : Layout)
  | release (slot : String)
  | duplicate (slot target : String)
  | compare (slot other : String)
  | call (slot : String) (call : Call)

namespace Slots

def keep (slots : Slots) (slot : String) (made : Traced (Except Failure Memory)) :
    Slots × Reply :=
  match made.value with
  | .ok m => (slots.insert slot m, { value := .ok .done, events := made.events })
  | .error failure => (slots, { value := .error failure, events := made.events })

def missing (slots : Slots) : Slots × Reply := (slots, { value := .error .noMemory })

def step (slots : Slots) : Step → Slots × Reply
  | .allocate slot cellCount layout => keep slots slot (Memory.allocate cellCount layout)
  | .adopt slot bytes layout => keep slots slot (Memory.ofBytes bytes layout)
  | .release slot =>
    match slots[slot]? with
    | some m => (slots.erase slot, { value := .ok (.bytes m.bytes) })
    | none => missing slots
  | .duplicate slot target =>
    match slots[slot]? with
    | some m => (slots.insert target m, { value := .ok .done })
    | none => missing slots
  | .compare slot other =>
    match slots[slot]?, slots[other]? with
    | some m, some m' => (slots, { value := .ok (.verdict (m = m')) })
    | _, _ => missing slots
  | .call slot c =>
    match slots[slot]? with
    | none => missing slots
    | some m =>
      let (m', reply) := m.perform c
      (slots.insert slot m', reply)

/-- Carries out the steps of a program in order, whether or not some of them fail. -/
def run (slots : Slots) : List Step → Slots × List Reply
  | [] => (slots, [])
  | s :: rest =>
    let (next, reply) := slots.step s
    let (last, replies) := Slots.run next rest
    (last, reply :: replies)

end Slots

end CellMemory
