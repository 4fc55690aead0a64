import CellMemory.Proofs.Origin
import CellMemory.Proofs.Run

/-! # Sizes that never change, and calls that never panic

The only request that has no result at all is one for a memory of too many cells. From the moment
there is a memory its layout and its number of data cells are fixed, its buffer holds exactly the
cells that they call for, and every call is answered or refused.

* `Memory.perform_ne_panic`: a call is never broken off, whatever its arguments.
* `Memory.perform_totalBytes`, `Memory.perform_dataBytes`: the sizes that calls answer with.
* `Origin.safe_runs`: from the making of a memory to the end of any run.
-/

namespace CellMemory
set_option autoImplicit false

namespace Memory

variable (m : Memory)

theorem perform_ne_panic (c : Call) (p : Panic) : (m.perform c).2.value ≠ .error (.panic p) := by
  intro hpanic
  cases h : c.refusal m with
  | none =>
    rw [m.perform_accepted c h] at hpanic
    cases hpanic
  | some fault =>
    rw [m.perform_refused c fault h] at hpanic
    cases hpanic

/-! ## Sizes -/

theorem perform_totalBytes :
    (m.perform .totalBytes).2.value = .ok (.count (4 * (m.prefixCells + m.cellCount))) := by
  rw [m.perform_accepted .totalBytes rfl, Nat.mul_comm]
  rfl

theorem length_dataBytes : m.dataBytes.length = 4 * m.cellCount := by
  rw [dataBytes, List.length_drop, length_bytes, Cell.size]
  omega

theorem perform_dataBytes :
    ∃ bytes, (m.perform .dataBytes).2.value = .ok (.bytes bytes) ∧
      bytes.length = 4 * m.cellCount := by
  rw [m.perform_accepted .dataBytes rfl]
  exact ⟨m.dataBytes, rfl, m.length_dataBytes⟩

end Memory

namespace Origin

/-- A zeroed memory is made unless it would have `2 ^ 61` cells or more, and making one of fewer than
`2 ^ 63` bytes does not panic. Every memory keeps its layout and its number of data cells through any
run, and after it has exactly as many bytes as these call for; then no call panics, whatever its
arguments. -/
theorem safe_runs :
    (∀ cellCount layout failure,
      (Memory.allocate cellCount layout).value = .error failure ↔
        Memory.cellLimit ≤ layout.prefixCells + cellCount ∧ failure = .panic .capacity) ∧
    (∀ (layout : Layout) cellCount,
      Memory.cellLimit ≤ layout.totalCells cellCount ↔
        Memory.cellLimit ≤ layout.prefixCells + cellCount) ∧
    (∀ bytes layout p, bytes.length < Memory.cellLimit * Cell.size →
      (Memory.ofBytes bytes layout).value ≠ .error (.panic p)) ∧
    ∀ (o : Origin) (m : Memory) (calls : List Call), o.make.value = .ok m →
      let last := (m.run calls).1
      let total := o.layout.prefixCells + o.cellCount
      last.layout = o.layout ∧ last.cellCount = o.cellCount ∧
        last.cells = total ∧ total < Memory.cellLimit ∧
        (last.perform .totalBytes).2.value = .ok (.count (4 * total)) ∧
        last.layout.totalBytes last.cellCount = 4 * total ∧
        last.bytes.length = 4 * total ∧
        (∃ bytes, (last.perform .dataBytes).2.value = .ok (.bytes bytes) ∧
          bytes.length = 4 * o.cellCount) ∧
        ∀ c p, (last.perform c).2.value ≠ .error (.panic p) := by
  refine ⟨?_, ?_, fun bytes layout p => Memory.ofBytes_ne_panic bytes layout p, ?_⟩
  · intro cellCount layout failure
    by_cases h : layout.prefixCells + cellCount < Memory.cellLimit
    · obtain ⟨m, hm, -⟩ := Memory.exists_allocate cellCount layout h
      rw [hm]
      simp only [reduceCtorEq, false_iff, not_and]
      exact fun hle => absurd h (Nat.not_lt.2 hle)
    · rw [Memory.allocate_of_le cellCount layout (Nat.not_lt.1 h), Except.error.injEq, eq_comm]
      exact (and_iff_right (Nat.not_lt.1 h)).symm
  · intro layout cellCount
    rw [← Nat.not_lt, ← Nat.not_lt]
    exact not_congr (layout.totalCells_lt cellCount)
  · intro o m calls hmake last total
    have hlayout : last.layout = o.layout :=
      (m.layout_run calls).trans ((o.make_eq_ok m).1 hmake).1
    have hcount : last.cellCount = o.cellCount :=
      (m.cellCount_run calls).trans (o.cellCount_of_make m hmake)
    have htotal : last.prefixCells + last.cellCount = total := by
      rw [Memory.prefixCells, hlayout, hcount]
    refine ⟨hlayout, hcount, ?_, ?_, ?_, ?_, ?_, ?_, last.perform_ne_panic⟩
    · rw [last.cells_eq, htotal]
    · rw [← htotal]
      exact last.cells_lt
    · rw [last.perform_totalBytes, htotal]
    · rw [last.layout_totalBytes, htotal, Nat.mul_comm]
      rfl
    · rw [last.length_bytes, htotal, Nat.mul_comm]
      rfl
    · rw [← hcount]
      exact last.perform_dataBytes

/-- Two data cells behind the usual prefix, of zeros or of twenty bytes: the sizes after a write
that is refused and one that is not. -/
theorem safe_runs_two_cells :
    (Memory.ofBytes (List.replicate 20 7) default).value ≠ .error (.panic .lengths) ∧
      ∃ m, (Memory.allocate 2 default).value = .ok m ∧
        let last := (m.run [.write .int32 2 5, .write .int32 1 5]).1
        last.cellCount = 2 ∧ last.bytes.length = 20 ∧
          (last.perform (.read .int32 1)).2.value ≠ .error (.panic .bounds) := by
  obtain ⟨-, -, hbytes, hruns⟩ := safe_runs
  refine ⟨hbytes _ default .lengths (by decide), _, rfl, ?_⟩
  obtain ⟨-, hcount, -, -, -, -, hlength, -, hcalls⟩ :=
    hruns (.blank 2 default) _ [.write .int32 2 5, .write .int32 1 5] rfl
  exact ⟨hcount, hlength, hcalls (.read .int32 1) .bounds⟩

end Origin

end CellMemory
