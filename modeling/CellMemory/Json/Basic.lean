/-! # JSON values

The values a JSON text describes, as trees.

* `Json.Value`: null, truth values, numbers, strings, arrays and objects. The members of an object
  keep their order, and a key may occur more than once.
* `Json.Number`: a number as its digits, so that no number is too large or too long.
* `Json.Piece`, `Json.text?`: what a string consists of, and the characters it stands for. An
  escape may name half of a surrogate pair; only a string in which every half has its partner
  stands for characters.
-/

namespace CellMemory.Json
set_option autoImplicit false

/-- A piece of a string: a character, written as it is or with a short escape, or a code unit of
UTF-16, written with its number. -/
inductive Piece where
  | char (c : Char)
  | unit (u : UInt16)
deriving DecidableEq, Repr

/-- A number: whether it has a minus sign, the digits before and after the point, and the exponent
with its sign. -/
structure Number where
  negative : Bool
  integer : List Char
  fraction : Option (List Char)
  exponent : Option (List Char)
deriving DecidableEq, Repr

inductive Value where
  | null
  | bool (b : Bool)
  | number (n : Number)
  | string (pieces : List Piece)
  | array (items : List Value)
  | object (members : List (List Piece × Value))

/-- The first half of a surrogate pair. -/
def IsHigh (u : UInt16) : Prop := 0xD800 ≤ u.toNat ∧ u.toNat < 0xDC00

/-- The second half of a surrogate pair. -/
def IsLow (u : UInt16) : Prop := 0xDC00 ≤ u.toNat ∧ u.toNat < 0xE000

instance (u : UInt16) : Decidable (IsHigh u) := inferInstanceAs (Decidable (_ ∧ _))

instance (u : UInt16) : Decidable (IsLow u) := inferInstanceAs (Decidable (_ ∧ _))

def pair (high low : UInt16) : Char :=
  .ofNat (0x10000 + (high.toNat - 0xD800) * 0x400 + (low.toNat - 0xDC00))

/-- The characters a string stands for, unless half of a surrogate pair stands alone in it. -/
def text? : List Piece → Option (List Char)
  | [] => some []
  | .char c :: rest => (text? rest).map (c :: ·)
  | .unit u :: rest =>
    if IsHigh u then
      match rest with
      | .unit v :: rest => if IsLow v then (text? rest).map (pair u v :: ·) else none
      | _ => none
    else if IsLow u then none
    else (text? rest).map (.ofNat u.toNat :: ·)

/-- The natural number that a number without sign, fraction and exponent is. -/
def Number.natural? (n : Number) : Option Nat :=
  if n.negative = false ∧ n.fraction = none ∧ n.exponent = none then
    some (Nat.ofDigitChars 10 n.integer 0)
  else none

def Value.natural? : Value → Option Nat
  | number n => n.natural?
  | _ => none

end CellMemory.Json
