/-! # Sizes that fit in 64 bits

Counts, indices and byte lengths are natural numbers here, but they are shared with machines that
hold them in 64 bits, so sums and products of sizes say what becomes of a result that does not fit.

* `Size.limit`: the largest size.
* `Size.add?`, `Size.mul?`: the exact result, or nothing when it does not fit.
* `Size.addSat`, `Size.mulSat`: the exact result, cut off at the limit.
-/

namespace CellMemory.Size
set_option autoImplicit false

/-- The largest size, `2 ^ 64 - 1`. -/
def limit : Nat := 18446744073709551615

def fit? (n : Nat) : Option Nat := if n ≤ limit then some n else none

def add? (a b : Nat) : Option Nat := fit? (a + b)

def mul? (a b : Nat) : Option Nat := fit? (a * b)

def addSat (a b : Nat) : Nat := min (a + b) limit

def mulSat (a b : Nat) : Nat := min (a * b) limit

@[simp] theorem fit?_eq_some {n k : Nat} : fit? n = some k ↔ n ≤ limit ∧ n = k := by
  simp [fit?]

@[simp] theorem fit?_eq_none {n : Nat} : fit? n = none ↔ limit < n := by
  simp [fit?]

theorem addSat_eq_of_lt {a b : Nat} (h : addSat a b < limit) : addSat a b = a + b := by
  simp only [addSat] at h ⊢
  omega

end CellMemory.Size
