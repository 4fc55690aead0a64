/-! # Numerals

Hexadecimal numerals as they stand in messages, with digits `0` to `9` and `a` to `f`.

* `Numeral.hex`: as few digits as the number needs.
* `Numeral.hexWord`: the eight digits of a 32-bit word, leading zeros included.
-/

namespace CellMemory.Numeral
set_option autoImplicit false

def hex (n : Nat) : String := String.ofList (Nat.toDigits 16 n)

/-- The hexadecimal numeral of a word, filled up to eight digits with leading zeros. -/
def hexWord (w : UInt32) : String :=
  String.ofList ((Nat.toDigits 16 w.toNat).leftpad 8 '0')

end CellMemory.Numeral
