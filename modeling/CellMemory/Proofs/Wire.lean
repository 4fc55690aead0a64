import CellMemory.Proofs.Outcome

/-! # The bytes of values

The codec of each kind as a table between values and four bytes, without words and cells in between.

* `Kind.wire`: the bytes that an input is written as. `Kind.bytes_cellOf` finds them in its cell.
* `Kind.meaning`: the value that four bytes are read as. `Kind.value_decode` says that it is the one
  decoded.
* `Kind.value_decode_cellOf`: what was written is what is read back.
-/

namespace CellMemory.Kind
set_option autoImplicit false

/-- The bytes of an input: two's complement and plain binary, least significant byte first, four
times the same byte for a boolean, and a row with zeros behind it. -/
def wire : (k : Kind) → k.Input → List UInt8
  | int32, v => LittleEndian.digits 4 (v.toInt % UInt32.size).toNat
  | uint32, v => LittleEndian.digits 4 v.toNat
  | boolean, b => List.replicate 4 (if b then 0xFF else 0x00)
  | raw, row => row ++ List.replicate (4 - row.length) 0

/-- The value that four bytes stand for; any byte other than zero makes a boolean true. -/
def meaning : (k : Kind) → List UInt8 → k.Value
  | int32, bs => .ofInt (LittleEndian.value bs)
  | uint32, bs => .ofNat (LittleEndian.value bs)
  | boolean, bs => bs.any (· != 0)
  | raw, bs => Cell.pad bs

/-! ## Writing -/

theorem toNat_toUInt32 (v : Int32) : v.toUInt32.toNat = (v.toInt % UInt32.size).toNat := by
  have h := BitVec.toNat_ofInt v.toInt (n := 32)
  rw [Int32.toInt, BitVec.ofInt_toInt] at h
  exact h

theorem bytes_pad (row : List UInt8) (h : row.length ≤ Cell.size) :
    (Cell.pad row).bytes = row ++ List.replicate (4 - row.length) 0 := by
  match row with
  | [] | [_] | [_, _] | [_, _, _] | [_, _, _, _] => rfl
  | _ :: _ :: _ :: _ :: _ :: rest =>
    simp only [List.length_cons, Cell.size] at h
    omega

theorem bytes_cellOf (k : Kind) (v : k.Input) (h : k.excess? v = none) :
    (k.cellOf v).bytes = k.wire v := by
  cases k with
  | int32 =>
    have hdigits := LittleEndian.digits_word v.toUInt32
    rw [toNat_toUInt32] at hdigits
    exact hdigits.symm
  | uint32 => exact (LittleEndian.digits_word v).symm
  | boolean => cases v <;> rfl
  | raw =>
    by_cases hlen : v.length ≤ Cell.size
    · exact bytes_pad v hlen
    · simp only [excess?, if_neg hlen] at h
      cases h

/-! ## Reading -/

theorem word_eq (c : Cell) : c.word = .ofNat (LittleEndian.value c.bytes) := by
  rw [LittleEndian.value_bytes, UInt32.ofNat_toNat]

theorem word_eq_zero (c : Cell) : c.word = 0 ↔ c.b0 = 0 ∧ c.b1 = 0 ∧ c.b2 = 0 ∧ c.b3 = 0 := by
  simp only [← UInt32.toNat_inj, ← UInt8.toNat_inj, Cell.toNat_word, UInt32.toNat_zero,
    UInt8.toNat_zero]
  omega

theorem value_decode (k : Kind) (c : Cell) : (k.decode c).value = k.meaning c.bytes := by
  cases k with
  | int32 =>
    have hword := congrArg UInt32.toInt32 (word_eq c)
    rw [UInt32.toInt32_ofNat', ← Int32.ofInt_eq_ofNat] at hword
    exact hword
  | uint32 => exact word_eq c
  | boolean =>
    have hzero := word_eq_zero c
    rw [Bool.eq_iff_iff]
    simp only [decode, Boolean.decode, Boolean.falsePattern, meaning, Cell.bytes, bne_iff_ne,
      List.any_cons, List.any_nil, Bool.or_false, Bool.or_eq_true, ne_eq, hzero,
      Decidable.not_and_iff_or_not]
  | raw => rfl

theorem value_decode_cellOf (k : Kind) (v : k.Input) :
    (k.decode (k.cellOf v)).value = k.stored v := by
  cases k with
  | int32 =>
    have hword := congrArg UInt32.toInt32 (Cell.word_ofWord v.toUInt32)
    rw [Int32.toInt32_toUInt32] at hword
    exact hword
  | uint32 => exact Cell.word_ofWord v
  | boolean => cases v <;> decide
  | raw => rfl

end CellMemory.Kind
