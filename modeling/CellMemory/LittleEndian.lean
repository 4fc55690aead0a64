/-! # Little-endian numbers

A number written as bytes, the least significant byte first.

* `LittleEndian.digits`: the given count of base-256 digits of a number.
* `LittleEndian.value`: the number that a list of bytes stands for.
* `value_digits`, `digits_value`: each undoes the other, on numbers that fit the width.
-/

namespace CellMemory.LittleEndian
set_option autoImplicit false

/-- The lowest `width` base-256 digits of a number, least significant first. -/
def digits : (width : Nat) → Nat → List UInt8
  | 0, _ => []
  | width + 1, n => UInt8.ofNat n :: digits width (n / 256)

/-- The number whose base-256 digits are given, least significant first. -/
def value : List UInt8 → Nat
  | [] => 0
  | b :: bs => b.toNat + 256 * value bs

/-- How many numbers can be written in so many bytes. -/
def span : (width : Nat) → Nat
  | 0 => 1
  | width + 1 => 256 * span width

theorem value_digits (width n : Nat) : value (digits width n) = n % span width := by
  induction width generalizing n with
  | zero => simp [digits, value, span, Nat.mod_one]
  | succ width ih => rw [digits, value, ih, span, Nat.mod_mul, UInt8.toNat_ofNat']

theorem value_lt (bs : List UInt8) : value bs < span bs.length := by
  induction bs with
  | nil => simp [value, span]
  | cons b bs ih =>
    have hb := b.toNat_lt
    rw [value, List.length_cons, span]
    omega

theorem digits_value (bs : List UInt8) : digits bs.length (value bs) = bs := by
  induction bs with
  | nil => rfl
  | cons b bs ih =>
    have hb := b.toNat_lt
    have hq : (b.toNat + 256 * value bs) / 256 = value bs := by omega
    have hr : UInt8.ofNat (b.toNat + 256 * value bs) = b := by
      apply UInt8.toNat_inj.1
      rw [UInt8.toNat_ofNat']
      omega
    rw [List.length_cons, value, digits, hq, ih, hr]

end CellMemory.LittleEndian
