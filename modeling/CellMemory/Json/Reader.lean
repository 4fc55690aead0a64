import CellMemory.Json.Basic

/-! # Reading JSON

A strict reader of the JSON grammar: no comments, no spare or missing commas, no leading zeros, no
bare control characters, no unknown escapes.

* `Json.string`, `Json.number`: the tokens. Each takes what it can from the front of a text and
  returns the rest.
* `Json.value`, `Json.items`, `Json.members`: values and the parts of arrays and objects.
* `Json.read`: the value that a whole text describes, with blanks around it.
-/

namespace CellMemory.Json
set_option autoImplicit false

/-! ## Tokens -/

/-- The blanks allowed between tokens: space, tab, line feed and carriage return. -/
def isBlank (c : Char) : Bool := c == ' ' || c == '\t' || c == '\n' || c == '\r'

def skipBlanks (s : List Char) : List Char := s.dropWhile isBlank

def hexDigit? (c : Char) : Option Nat :=
  if '0' ≤ c ∧ c ≤ '9' then some (c.toNat - '0'.toNat)
  else if 'a' ≤ c ∧ c ≤ 'f' then some (c.toNat - 'a'.toNat + 10)
  else if 'A' ≤ c ∧ c ≤ 'F' then some (c.toNat - 'A'.toNat + 10)
  else none

def unit? (a b c d : Char) : Option UInt16 := do
  let a ← hexDigit? a
  let b ← hexDigit? b
  let c ← hexDigit? c
  let d ← hexDigit? d
  return .ofNat (((a * 16 + b) * 16 + c) * 16 + d)

def escape? : Char → Option Char
  | '\x22' => some '\x22'
  | '\\' => some '\\'
  | '/' => some '/'
  | 'b' => some '\x08'
  | 'f' => some '\x0c'
  | 'n' => some '\n'
  | 'r' => some '\r'
  | 't' => some '\t'
  | _ => none

/-- The rest of a string after its opening quote: its pieces, and what follows the closing one. -/
def string : List Char → Option (List Piece × List Char)
  | [] => none
  | '\x22' :: rest => some ([], rest)
  | '\\' :: 'u' :: a :: b :: c :: d :: rest => do
    let u ← unit? a b c d
    let (pieces, rest) ← string rest
    return (.unit u :: pieces, rest)
  | '\\' :: e :: rest => do
    let c ← escape? e
    let (pieces, rest) ← string rest
    return (.char c :: pieces, rest)
  | c :: rest =>
    if c < ' ' ∨ c = '\\' then none
    else do
      let (pieces, rest) ← string rest
      return (.char c :: pieces, rest)

/-- All digits at the front of a text, of which there has to be one. -/
def digits (s : List Char) : Option (List Char × List Char) :=
  match s.takeWhile Char.isDigit with
  | [] => none
  | ds => some (ds, s.dropWhile Char.isDigit)

/-- The digits before the point; a zero stands alone. -/
def integerPart : List Char → Option (List Char × List Char)
  | '0' :: rest => some (['0'], rest)
  | s => digits s

def fractionPart : List Char → Option (Option (List Char) × List Char)
  | '.' :: rest => (digits rest).map fun (ds, rest) => (some ds, rest)
  | s => some (none, s)

def exponentSign : List Char → List Char × List Char
  | '+' :: rest => (['+'], rest)
  | '-' :: rest => (['-'], rest)
  | s => ([], s)

def signedDigits (s : List Char) : Option (Option (List Char) × List Char) :=
  let (sign, s) := exponentSign s
  (digits s).map fun (ds, rest) => (some (sign ++ ds), rest)

def exponentPart : List Char → Option (Option (List Char) × List Char)
  | 'e' :: rest => signedDigits rest
  | 'E' :: rest => signedDigits rest
  | s => some (none, s)

/-- The parts of a number after its sign. -/
def unsigned (negative : Bool) (s : List Char) : Option (Number × List Char) := do
  let (integer, s) ← integerPart s
  let (fraction, s) ← fractionPart s
  let (exponent, s) ← exponentPart s
  return ({ negative, integer, fraction, exponent }, s)

def number : List Char → Option (Number × List Char)
  | '-' :: rest => unsigned true rest
  | s => unsigned false s

def keyword (word : String) (v : Value) (s : List Char) : Option (Value × List Char) :=
  if word.toList.isPrefixOf s then some (v, s.drop word.length) else none

/-! ## Values

The functions below call each other on ever shorter texts, at most twice for each character; the
first argument bounds the depth of these calls. -/

mutual

def value : Nat → List Char → Option (Value × List Char)
  | 0, _ => none
  | depth + 1, s =>
    match s with
    | '\x22' :: rest => (string rest).map fun (pieces, rest) => (.string pieces, rest)
    | '[' :: rest =>
      match skipBlanks rest with
      | ']' :: rest => some (.array [], rest)
      | rest => (items depth rest).map fun (vs, rest) => (.array vs, rest)
    | '\x7b' :: rest =>
      match skipBlanks rest with
      | '\x7d' :: rest => some (.object [], rest)
      | rest => (members depth rest).map fun (ms, rest) => (.object ms, rest)
    | 'n' :: rest => keyword "ull" .null rest
    | 't' :: rest => keyword "rue" (.bool true) rest
    | 'f' :: rest => keyword "alse" (.bool false) rest
    | s => (number s).map fun (n, rest) => (.number n, rest)

/-- The items of an array from one of them up to the closing bracket. -/
def items : Nat → List Char → Option (List Value × List Char)
  | 0, _ => none
  | depth + 1, s => do
    let (v, rest) ← value depth s
    match skipBlanks rest with
    | ']' :: rest => return ([v], rest)
    | ',' :: rest =>
      let (vs, rest) ← items depth (skipBlanks rest)
      return (v :: vs, rest)
    | _ => none

/-- The members of an object from one of them up to the closing brace. -/
def members : Nat → List Char → Option (List (List Piece × Value) × List Char)
  | 0, _ => none
  | depth + 1, s => do
    let '\x22' :: rest := s | none
    let (key, rest) ← string rest
    let ':' :: rest := skipBlanks rest | none
    let (v, rest) ← value depth (skipBlanks rest)
    match skipBlanks rest with
    | '\x7d' :: rest => return ([(key, v)], rest)
    | ',' :: rest =>
      let (ms, rest) ← members depth (skipBlanks rest)
      return ((key, v) :: ms, rest)
    | _ => none

end

/-- The value that a text describes, if it describes one and nothing else. -/
def read (text : List Char) : Option Value := do
  let (v, rest) ← value (2 * text.length + 1) (skipBlanks text)
  if skipBlanks rest = [] then return v else none

end CellMemory.Json
