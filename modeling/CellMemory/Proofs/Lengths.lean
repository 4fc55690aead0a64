import CellMemory.Proofs.Origin

/-! # Lengths of buffers

The length of a buffer follows from the number of its data cells, and the number of data cells from
the length. One way sums and products are cut off where they no longer fit, the other way they are
refused. A length that was cut off is no whole number of cells, so it is not taken for a length.

* `Layout.exists_cellCountFor_iff`: which lengths are those of buffers.
* `Layout.fault_of_cellCountFor`: what every other length is refused with.
* `Layout.cellCountFor_totalBytes`: there and back, as far as the length fits.
* `Layout.lengths_inverse`: these facts together.
-/

namespace CellMemory.Layout
set_option autoImplicit false

variable (l : Layout)

/-! ## From the length to the number of cells -/

/-- The size of the prefix that is reported is the one that is cut off, also where a prefix of that
size could not be computed. -/
theorem fault_of_cellCountFor (length : Nat) (fault : Fault)
    (h : l.cellCountFor length = .error fault) :
    fault = .invalidBufferLength length l.prefixBytes := by
  rw [cellCountFor] at h
  rw [prefixBytes_eq]
  by_cases hfits : l.prefixCells * Cell.size ≤ Size.limit
  · rw [(Size.mul?_eq_some _ _ _).2 ⟨hfits, rfl⟩] at h
    dsimp only at h
    split at h
    · rw [Nat.min_eq_left hfits, Except.error.inj h]
    · cases h
  · have hnone : Size.mul? l.prefixCells Cell.size = none :=
      Size.fit?_eq_none.2 (Nat.lt_of_not_le hfits)
    rw [hnone] at h
    rw [Nat.min_eq_right (Nat.le_of_not_le hfits), Except.error.inj h]

theorem exists_cellCountFor_iff (length : Nat) (hlength : length ≤ Size.limit) :
    (∃ n, l.cellCountFor length = .ok n) ↔ length % 4 = 0 ∧ 4 * l.prefixCells ≤ length := by
  constructor
  · rintro ⟨n, hn⟩
    obtain ⟨-, rfl⟩ := (l.cellCountFor_eq_ok length n).1 hn
    simp only [Cell.size]
    omega
  · rintro ⟨hwhole, hroom⟩
    refine ⟨length / 4 - l.prefixCells, (l.cellCountFor_eq_ok _ _).2 ?_⟩
    simp only [Cell.size]
    omega

/-! ## There and back -/

theorem totalBytes_of_cellCountFor (length n : Nat) (hlength : length ≤ Size.limit)
    (h : l.cellCountFor length = .ok n) :
    l.totalBytes n = length ∧ 4 * l.totalCells n = length := by
  obtain ⟨-, rfl⟩ := (l.cellCountFor_eq_ok length n).1 h
  refine ⟨(l.totalBytes_eq n).trans (Nat.min_eq_left hlength), ?_⟩
  simp only [totalCells, Size.addSat, Cell.size] at hlength ⊢
  omega

theorem totalBytes_eq_limit (n : Nat) (h : Size.limit < 4 * (l.prefixCells + n)) :
    l.totalBytes n = Size.limit := by
  rw [totalBytes_eq, Nat.mul_comm]
  exact Nat.min_eq_right (Nat.le_of_lt h)

/-- The largest size is one byte short of a whole number of cells. -/
theorem cellCountFor_limit :
    l.cellCountFor Size.limit = .error (.invalidBufferLength Size.limit l.prefixBytes) := by
  cases h : l.cellCountFor Size.limit with
  | ok n =>
    have hwhole := ((l.exists_cellCountFor_iff _ (Nat.le_refl _)).1 ⟨n, h⟩).1
    exact absurd hwhole (by decide)
  | error fault => rw [l.fault_of_cellCountFor _ fault h]

theorem cellCountFor_totalBytes (n : Nat) :
    l.cellCountFor (l.totalBytes n) = .ok n ↔ 4 * (l.prefixCells + n) ≤ Size.limit := by
  constructor
  · intro h
    apply Nat.le_of_not_lt
    intro hlarge
    rw [l.totalBytes_eq_limit n hlarge, cellCountFor_limit] at h
    cases h
  · intro hfits
    have hsize : (l.prefixCells + n) * Cell.size ≤ Size.limit := by
      rw [Nat.mul_comm]
      exact hfits
    rw [totalBytes_eq, Nat.min_eq_left hsize, cellCountFor_eq_ok]
    exact ⟨Nat.le_trans (Nat.mul_le_mul_right _ (Nat.le_add_right _ _)) hsize, rfl⟩

/-- The two computations undo each other. A length has a number of data cells exactly when it is a
whole number of cells and holds the prefix, and then it is the length for that number, with no cut-off
in it. The length for a number of data cells leads back to that number as long as it fits. Past that
it is cut off, and then it is refused, as is the largest size in general. Every length that is refused
is reported with the size of the prefix that the layout has, cut off or not. -/
theorem lengths_inverse :
    (∀ length ≤ Size.limit,
      ((∃ n, l.cellCountFor length = .ok n) ↔ length % 4 = 0 ∧ 4 * l.prefixCells ≤ length) ∧
      ∀ n, l.cellCountFor length = .ok n →
        l.totalBytes n = length ∧ 4 * l.totalCells n = length) ∧
    (∀ n, (l.cellCountFor (l.totalBytes n) = .ok n ↔ 4 * (l.prefixCells + n) ≤ Size.limit) ∧
      (Size.limit < 4 * (l.prefixCells + n) →
        l.totalBytes n = Size.limit ∧
        l.cellCountFor (l.totalBytes n) =
          .error (.invalidBufferLength Size.limit l.prefixBytes))) ∧
    (∀ n, l.cellCountFor Size.limit ≠ .ok n) ∧
    ∀ length fault, l.cellCountFor length = .error fault →
      fault = .invalidBufferLength length l.prefixBytes := by
  refine ⟨?_, ?_, ?_, l.fault_of_cellCountFor⟩
  · intro length hlength
    exact ⟨l.exists_cellCountFor_iff length hlength,
      fun n => l.totalBytes_of_cellCountFor length n hlength⟩
  · intro n
    refine ⟨l.cellCountFor_totalBytes n, ?_⟩
    intro hlarge
    have hlimit := l.totalBytes_eq_limit n hlarge
    exact ⟨hlimit, hlimit ▸ l.cellCountFor_limit⟩
  · intro n h
    rw [cellCountFor_limit] at h
    cases h

/-- The largest prefix that can be counted in bytes: without data its buffer has the largest length
there is, and one data cell more is cut off and refused. A prefix that is too large for that is
reported as the largest size. -/
theorem lengths_inverse_largest_prefix :
    ∃ l l' : Layout, l.prefixCells = 4611686018427387903 ∧ l'.prefixCells = 9223372036854775807 ∧
      (∃ n, l.cellCountFor 18446744073709551612 = .ok n) ∧
      l.cellCountFor (l.totalBytes 0) = .ok 0 ∧
      l.cellCountFor (l.totalBytes 1) =
        .error (.invalidBufferLength Size.limit l.prefixBytes) ∧
      ∀ fault, l'.cellCountFor 16 = .error fault →
        fault = .invalidBufferLength 16 l'.prefixBytes := by
  obtain ⟨hlengths, hback, -, -⟩ := lengths_inverse { prefixCells := 4611686018427387903 }
  obtain ⟨-, -, -, hfaults⟩ := lengths_inverse { prefixCells := 9223372036854775807 }
  refine ⟨_, _, rfl, rfl, ?_, (hback 0).1.2 (by decide), ((hback 1).2 (by decide)).2, hfaults 16⟩
  exact (hlengths _ (by decide)).1.2 (by decide)

end CellMemory.Layout
