import CellMemory.Json.Basic

/-! # The grammar of JSON

What the strict reader has to accept, said without it: which texts are written forms of a number, a
string or a value.

* `Json.NumberText`, `Json.StringText`: the tokens that carry data.
* `Json.Written`: the texts of values and of the phrases that values consist of. Blanks stand around
  values and keys, so a whole document is a text of the phrase `element v`.
* `Json.Spells`: the characters that the pieces of a string stand for, where half of a surrogate
  pair stands for nothing without its partner.
-/

namespace CellMemory.Json
set_option autoImplicit false

/-! ## Tokens -/

/-- Space, tab, line feed and carriage return. -/
def blanks : List Char := [' ', '\t', '\n', '\r']

/-- The texts that may stand between tokens. -/
def Blank (s : List Char) : Prop := ∀ c ∈ s, c ∈ blanks

def Digits (s : List Char) : Prop := s ≠ [] ∧ ∀ c ∈ s, c.isDigit = true

/-- The digits before the point. Only the number zero starts with a zero. -/
def IntegerText (s : List Char) : Prop := Digits s ∧ (s.head? = some '0' → s = ['0'])

inductive FractionText : Option (List Char) → List Char → Prop
  | absent : FractionText none []
  | present {ds : List Char} : Digits ds → FractionText (some ds) ('.' :: ds)

inductive ExponentText : Option (List Char) → List Char → Prop
  | absent : ExponentText none []
  | present {e : Char} {sign ds : List Char} : e ∈ ['e', 'E'] → sign ∈ [[], ['+'], ['-']] →
      Digits ds → ExponentText (some (sign ++ ds)) (e :: (sign ++ ds))

/-- The sign of a number; a plus is not written. -/
def minus : Bool → List Char
  | true => ['-']
  | false => []

inductive NumberText : Number → List Char → Prop
  | mk {negative : Bool} {integer f x : List Char} {fraction exponent : Option (List Char)} :
      IntegerText integer → FractionText fraction f → ExponentText exponent x →
      NumberText { negative, integer, fraction, exponent } (minus negative ++ (integer ++ (f ++ x)))

inductive HexDigit : Char → Nat → Prop
  | lower {c : Char} {n : Nat} : "0123456789abcdef".toList[n]? = some c → HexDigit c n
  | upper {c : Char} {n : Nat} : "0123456789ABCDEF".toList[n]? = some c → HexDigit c n

/-- The letters that may follow a backslash, with what they stand for. -/
def shortEscapes : List (Char × Char) :=
  [('\x22', '\x22'), ('\\', '\\'), ('/', '/'), ('b', '\x08'), ('f', '\x0c'), ('n', '\n'),
    ('r', '\r'), ('t', '\t')]

inductive PieceText : Piece → List Char → Prop
  | plain {c : Char} : 0x20 ≤ c.toNat → c ≠ '\x22' → c ≠ '\\' → PieceText (.char c) [c]
  | short {e c : Char} : (e, c) ∈ shortEscapes → PieceText (.char c) ['\\', e]
  | code {a b c d : Char} {i j k l : Nat} {u : UInt16} : HexDigit a i → HexDigit b j →
      HexDigit c k → HexDigit d l → u.toNat = ((i * 16 + j) * 16 + k) * 16 + l →
      PieceText (.unit u) ['\\', 'u', a, b, c, d]

inductive PiecesText : List Piece → List Char → Prop
  | nil : PiecesText [] []
  | cons {p : Piece} {ps : List Piece} {s t : List Char} : PieceText p s → PiecesText ps t →
      PiecesText (p :: ps) (s ++ t)

inductive StringText : List Piece → List Char → Prop
  | quoted {ps : List Piece} {s : List Char} : PiecesText ps s →
      StringText ps ('\x22' :: (s ++ ['\x22']))

/-! ## Values -/

/-- The phrases a text of JSON consists of: a value, a value among blanks, what stands between the
brackets of an array, one member of an object, and what stands between the braces of an object. -/
inductive Phrase where
  | value (v : Value)
  | element (v : Value)
  | items (vs : List Value)
  | member (key : List Piece) (v : Value)
  | members (ms : List (List Piece × Value))

/-- The texts of a phrase. Items and members here are one or more: an empty array has its own
rule, so no comma can stand without an item behind it. -/
inductive Written : Phrase → List Char → Prop
  | null : Written (.value .null) "null".toList
  | true : Written (.value (.bool true)) "true".toList
  | false : Written (.value (.bool false)) "false".toList
  | number {n : Number} {s : List Char} : NumberText n s → Written (.value (.number n)) s
  | string {ps : List Piece} {s : List Char} : StringText ps s → Written (.value (.string ps)) s
  | emptyArray {w : List Char} : Blank w → Written (.value (.array [])) ('[' :: (w ++ [']']))
  | array {vs : List Value} {s : List Char} : Written (.items vs) s →
      Written (.value (.array vs)) ('[' :: (s ++ [']']))
  | emptyObject {w : List Char} : Blank w →
      Written (.value (.object [])) ('\x7b' :: (w ++ ['\x7d']))
  | object {ms : List (List Piece × Value)} {s : List Char} : Written (.members ms) s →
      Written (.value (.object ms)) ('\x7b' :: (s ++ ['\x7d']))
  | element {v : Value} {w s w' : List Char} : Blank w → Written (.value v) s → Blank w' →
      Written (.element v) (w ++ (s ++ w'))
  | lastItem {v : Value} {s : List Char} : Written (.element v) s → Written (.items [v]) s
  | nextItem {v : Value} {vs : List Value} {s t : List Char} : Written (.element v) s →
      Written (.items vs) t → Written (.items (v :: vs)) (s ++ ',' :: t)
  | member {key : List Piece} {v : Value} {w s w' t : List Char} : Blank w → StringText key s →
      Blank w' → Written (.element v) t → Written (.member key v) (w ++ (s ++ (w' ++ ':' :: t)))
  | lastMember {key : List Piece} {v : Value} {s : List Char} : Written (.member key v) s →
      Written (.members [(key, v)]) s
  | nextMember {key : List Piece} {v : Value} {ms : List (List Piece × Value)}
      {s t : List Char} : Written (.member key v) s → Written (.members ms) t →
      Written (.members ((key, v) :: ms)) (s ++ ',' :: t)

/-! ## What a string stands for -/

/-- The characters of a string. No character has the number of half a surrogate pair, so such a
half is spelt only together with its partner. -/
inductive Spells : List Piece → List Char → Prop
  | nil : Spells [] []
  | char {c : Char} {ps : List Piece} {cs : List Char} : Spells ps cs →
      Spells (.char c :: ps) (c :: cs)
  | unit {u : UInt16} {c : Char} {ps : List Piece} {cs : List Char} : c.toNat = u.toNat →
      Spells ps cs → Spells (.unit u :: ps) (c :: cs)
  | pair {u v : UInt16} {c : Char} {ps : List Piece} {cs : List Char} : IsHigh u → IsLow v →
      c.toNat = 0x10000 + (u.toNat - 0xD800) * 0x400 + (v.toNat - 0xDC00) → Spells ps cs →
      Spells (.unit u :: .unit v :: ps) (c :: cs)

/-! ### The characters `text?` finds -/

theorem toNat_ofNat {n : Nat} (hn : n.isValidChar) : (Char.ofNat n).toNat = n := by
  rw [Char.ofNat, dif_pos hn]
  rfl

theorem eq_ofNat_iff {c : Char} {n : Nat} (hn : n.isValidChar) : c = .ofNat n ↔ c.toNat = n :=
  ⟨fun h => h ▸ toNat_ofNat hn, fun h => h ▸ c.ofNat_toNat.symm⟩

theorem isValidChar_of_not_surrogate {u : UInt16} (hu : ¬IsHigh u) (hl : ¬IsLow u) :
    u.toNat.isValidChar := by
  have hlt := u.toNat_lt
  simp only [IsHigh, IsLow] at hu hl
  simp only [Nat.isValidChar]
  omega

theorem not_surrogate_of_toNat_eq {u : UInt16} {c : Char} (h : c.toNat = u.toNat) :
    ¬IsHigh u ∧ ¬IsLow u := by
  have hvalid := c.valid
  simp only [UInt32.isValidChar, Nat.isValidChar] at hvalid
  simp only [IsHigh, IsLow, ← h, Char.toNat]
  omega

theorem isValidChar_pair {u v : UInt16} (hu : IsHigh u) (hv : IsLow v) :
    (0x10000 + (u.toNat - 0xD800) * 0x400 + (v.toNat - 0xDC00)).isValidChar := by
  simp only [IsHigh, IsLow] at hu hv
  simp only [Nat.isValidChar]
  omega

theorem text?_unit {u : UInt16} (hu : ¬IsHigh u) (hl : ¬IsLow u) (ps : List Piece) :
    text? (.unit u :: ps) = (text? ps).map (.ofNat u.toNat :: ·) := by
  rw [text?.eq_def]
  simp only [if_neg hu, if_neg hl]

theorem text?_of_spells {ps : List Piece} {cs : List Char} (h : Spells ps cs) :
    text? ps = some cs := by
  induction h with
  | nil => rfl
  | char _ ih => rw [text?, ih, Option.map_some]
  | unit hc _ ih =>
    obtain ⟨hu, hl⟩ := not_surrogate_of_toNat_eq hc
    rw [text?_unit hu hl, ih, Option.map_some,
      ← (eq_ofNat_iff (isValidChar_of_not_surrogate hu hl)).mpr hc]
  | pair hu hv hc _ ih =>
    rw [text?, if_pos hu, if_pos hv, ih, Option.map_some, pair,
      ← (eq_ofNat_iff (isValidChar_pair hu hv)).mpr hc]

theorem spells_of_text? {ps : List Piece} {cs : List Char} (h : text? ps = some cs) :
    Spells ps cs := by
  induction ps using text?.induct generalizing cs with
  | case1 =>
    obtain rfl : [] = cs := Option.some.inj h
    exact .nil
  | case2 c rest ih =>
    obtain ⟨ds, hds, rfl⟩ := Option.map_eq_some_iff.mp h
    exact .char (ih hds)
  | case3 u hu v rest hv ih =>
    rw [text?, if_pos hu, if_pos hv] at h
    obtain ⟨ds, hds, rfl⟩ := Option.map_eq_some_iff.mp h
    exact .pair hu hv (toNat_ofNat (isValidChar_pair hu hv)) (ih hds)
  | case4 u hu v rest hv => simp [text?, hu, hv] at h
  | case5 u rest hu hrest =>
    rw [text?.eq_def] at h
    simp only [if_pos hu] at h
    cases h
  | case6 u rest hu hl =>
    rw [text?.eq_def] at h
    simp only [if_neg hu, if_pos hl] at h
    cases h
  | case7 u rest hu hl ih =>
    rw [text?_unit hu hl] at h
    obtain ⟨ds, hds, rfl⟩ := Option.map_eq_some_iff.mp h
    exact .unit (toNat_ofNat (isValidChar_of_not_surrogate hu hl)) (ih hds)

theorem text?_eq_some_iff {ps : List Piece} {cs : List Char} :
    text? ps = some cs ↔ Spells ps cs :=
  ⟨spells_of_text?, text?_of_spells⟩

end CellMemory.Json
