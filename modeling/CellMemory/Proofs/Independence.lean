import CellMemory.Proofs.Effects
import CellMemory.Proofs.Tiling

/-! # Writes that do not meet, and writes that cover others

A write looks at the sizes of a memory and never at its content. So writes into different cells can
change places, and a write over all the cells of an earlier one leaves nothing of it.

* `Call.Writes`, `Call.target`: the calls for writing, and the cells of the buffer that they are for.
* `Call.puts`: what a call puts into a cell, and `Call.isSome_puts`: into which.
* `Memory.cell_perform`: the step, cell by cell. `Memory.reply_of_writes`: the replies.
* `Memory.perform_comm`, `Memory.perform_absorb`: two writes.
* `Memory.replies_run`, `Memory.run_perm`: runs of writes.
* `Memory.writes_independent`: these facts together.
-/

namespace CellMemory
set_option autoImplicit false

namespace Call

/-- The call is for writing. -/
def Writes (c : Call) : Prop := c.role.map Prod.fst = some .write

instance (c : Call) : Decidable c.Writes := inferInstanceAs (Decidable (_ = _))

/-- The cells of the buffer that a call for writing is for: its data cells, which come after the
prefix, or all of the prefix if it writes a header. -/
def target (l : Layout) : Call → Extent
  | write _ index _ => ⟨l.prefixCells + index, l.prefixCells + index + 1⟩
  | writeBatch _ start vs => ⟨l.prefixCells + start, l.prefixCells + start + vs.length⟩
  | writeHeader _ | writeMemberId _ => ⟨0, l.prefixCells⟩
  | _ => ⟨0, 0⟩

/-- What a call puts into a cell of the buffer, if it is not refused. -/
def puts (m : Memory) (n : Nat) (c : Call) : Option Cell :=
  if c.refusal m = none ∧ c.place m ≤ n then (c.written m)[n - c.place m]? else none

/-! ## What a write depends on -/

section Sizes
variable (m m' : Memory) (c : Call) (hlayout : m.layout = m'.layout)
  (hcount : m.cellCount = m'.cellCount)

include hlayout hcount

theorem refusal_of_writes (hc : c.Writes) : c.refusal m = c.refusal m' := by
  have hrun := m.runRefusal_congr m' hcount
  have hheader := m.headerRefusal_congr m' hlayout
  cases c with
  | write k index v => rw [refusal, refusal, hrun]
  | writeBatch k start vs => rw [refusal, refusal, hrun]
  | writeHeader h => exact hheader
  | writeMemberId id => rw [refusal, refusal, hheader, hcount]
  | _ => cases hc

theorem puts_congr (hc : c.Writes) (n : Nat) : c.puts m n = c.puts m' n := by
  have hplace : c.place m = c.place m' := by
    cases c <;> simp only [place, Memory.prefixCells, hlayout]
  have hwritten : c.written m = c.written m' := by
    cases c <;> simp only [written, hcount]
  rw [puts, puts, c.refusal_of_writes m m' hlayout hcount hc, hplace, hwritten]

end Sizes

/-! ## Where a write puts something -/

variable (m : Memory) (c : Call)

theorem mem_target_header (n : Nat) (h : m.headerRefusal = none) :
    (0 ≤ n ∧ n < 0 + Header.cells) ↔
      n ∈ (⟨0, m.prefixCells⟩ : Extent) ∧ (n < Header.cells ∨ m.prefixCells ≤ n) := by
  have hroom := m.headerRefusal_eq_none.1 h
  have hmem : n ∈ (⟨0, m.prefixCells⟩ : Extent) ↔ 0 ≤ n ∧ n < m.prefixCells := Iff.rfl
  rw [hmem]
  omega

theorem mem_target_run (start count n : Nat) :
    (m.prefixCells + start ≤ n ∧ n < m.prefixCells + start + count) ↔
      n ∈ (⟨m.prefixCells + start, m.prefixCells + start + count⟩ : Extent) ∧
        (n < Header.cells ∨ m.prefixCells ≤ n) :=
  ⟨fun h => ⟨h, .inr (Nat.le_trans (Nat.le_add_right _ _) h.1)⟩, And.left⟩

theorem mem_target (hc : c.Writes) (h : c.refusal m = none) (n : Nat) :
    (c.place m ≤ n ∧ n < c.place m + (c.written m).length) ↔
      n ∈ c.target m.layout ∧ (n < Header.cells ∨ m.prefixCells ≤ n) := by
  -- a header is not all of its target, and the second condition says so
  cases c with
  | write k index v => exact mem_target_run m index 1 n
  | writeBatch k start vs =>
    rw [written, List.length_map]
    exact mem_target_run m start vs.length n
  | writeHeader header => exact mem_target_header m n h
  | writeMemberId id => exact mem_target_header m n (headerRefusal_of_writeMemberId m id h)
  | _ => cases hc

/-- A write that is not refused puts something into every cell of its target, except that it leaves
the part of the prefix that is not the header. -/
theorem isSome_puts (hc : c.Writes) (n : Nat) :
    (c.puts m n).isSome ↔
      c.refusal m = none ∧ n ∈ c.target m.layout ∧ (n < Header.cells ∨ m.prefixCells ≤ n) := by
  by_cases h : c.refusal m = none
  · have hspan : (c.puts m n).isSome ↔
        c.place m ≤ n ∧ n < c.place m + (c.written m).length := by
      by_cases hle : c.place m ≤ n
      · rw [puts, if_pos ⟨h, hle⟩, isSome_getElem?]
        omega
      · rw [puts, if_neg fun hput => hle hput.2]
        exact ⟨fun hnone => (Bool.false_ne_true hnone).elim, fun hin => absurd hin.1 hle⟩
    rw [hspan, c.mem_target m hc h, and_iff_right h]
  · rw [puts, if_neg fun hput => h hput.1]
    exact ⟨fun hnone => (Bool.false_ne_true hnone).elim, fun hput => absurd hput.1 h⟩

theorem puts_of_apart (c' : Call) (hc : c.Writes) (hc' : c'.Writes)
    (hapart : (c.target m.layout).Apart (c'.target m.layout)) (n : Nat) :
    c.puts m n = none ∨ c'.puts m n = none := by
  cases hput : c.puts m n with
  | none => exact .inl rfl
  | some cell =>
    obtain ⟨-, htarget, -⟩ := (c.isSome_puts m hc n).1 (Option.isSome_of_mem hput)
    right
    rw [← Option.not_isSome_iff_eq_none]
    exact fun hput' => hapart n htarget ((c'.isSome_puts m hc' n).1 hput').2.1

theorem puts_of_covered (c' : Call) (hc : c.Writes) (hc' : c'.Writes) (h : c'.refusal m = none)
    (hcover : ∀ n ∈ c.target m.layout, n ∈ c'.target m.layout) (n : Nat) :
    c.puts m n = none ∨ (c'.puts m n).isSome := by
  cases hput : c.puts m n with
  | none => exact .inl rfl
  | some cell =>
    obtain ⟨-, htarget, hwhere⟩ := (c.isSome_puts m hc n).1 (Option.isSome_of_mem hput)
    exact .inr ((c'.isSome_puts m hc' n).2 ⟨h, hcover n htarget, hwhere⟩)

end Call

namespace Memory

variable (m : Memory)

/-! ## One write -/

theorem cell_perform (c : Call) (n : Nat) :
    (m.perform c).1.buffer.cell n = (c.puts m n).getD (m.buffer.cell n) := by
  cases h : c.refusal m with
  | none =>
    rw [m.perform_accepted c h, c.effect_eq m, m.cell_putCells _ n _ (c.written_fits m h), Call.puts]
    by_cases hle : c.place m ≤ n
    · rw [if_pos hle, if_pos ⟨h, hle⟩, List.getD_eq_getElem?_getD]
    · rw [if_neg hle, if_neg fun hput => hle hput.2, Option.getD_none]
  | some fault =>
    rw [m.perform_refused c fault h, Call.puts, h, if_neg fun hput => Option.some_ne_none fault hput.1,
      Option.getD_none]

/-- A write after another call: it puts into each cell what it would have put there before. -/
theorem cell_perform_perform (c c' : Call) (hc' : c'.Writes) (n : Nat) :
    ((m.perform c).1.perform c').1.buffer.cell n =
      (c'.puts m n).getD ((c.puts m n).getD (m.buffer.cell n)) := by
  rw [cell_perform, cell_perform,
    c'.puts_congr (m.perform c).1 m (m.layout_perform c) (m.cellCount_perform c) hc' n]

theorem reply_of_writes (m' : Memory) (c : Call) (hc : c.Writes) (hlayout : m.layout = m'.layout)
    (hcount : m.cellCount = m'.cellCount) : (m.perform c).2 = (m'.perform c).2 := by
  apply m.reply_congr m' c (c.refusal_of_writes m m' hlayout hcount hc)
  intro _
  cases c with
  | write _ _ _ | writeBatch _ _ _ | writeHeader _ => exact ⟨rfl, rfl⟩
  | writeMemberId id =>
    rw [Call.report, Call.report, hcount]
    exact ⟨rfl, rfl⟩
  | _ => cases hc

/-! ## Two writes -/

variable (a b : Call) (ha : a.Writes) (hb : b.Writes)

include ha hb

theorem perform_comm (h : (a.target m.layout).Apart (b.target m.layout)) :
    ((m.perform a).1.perform b).1 = ((m.perform b).1.perform a).1 := by
  apply eq_of_cells
  · simp only [layout_perform]
  · simp only [cellCount_perform]
  · intro n
    rw [m.cell_perform_perform a b hb n, m.cell_perform_perform b a ha n]
    rcases a.puts_of_apart m b ha hb h n with hnone | hnone
    · rw [hnone, Option.getD_none, Option.getD_none]
    · rw [hnone, Option.getD_none, Option.getD_none]

theorem perform_absorb (hsucceeds : Reply.succeeded (m.perform b).2 = true)
    (hcover : ∀ n ∈ a.target m.layout, n ∈ b.target m.layout) :
    ((m.perform a).1.perform b).1 = (m.perform b).1 := by
  have hrefusal : b.refusal m = none := by
    rcases m.perform_cases b with ⟨hfailed, -⟩ | ⟨-, hrefusal, -⟩
    · rw [hfailed] at hsucceeds
      cases hsucceeds
    · exact hrefusal
  apply eq_of_cells
  · simp only [layout_perform]
  · simp only [cellCount_perform]
  · intro n
    rw [m.cell_perform_perform a b hb n, m.cell_perform b n]
    rcases a.puts_of_covered m b ha hb hrefusal hcover n with hnone | hsome
    · rw [hnone, Option.getD_none]
    · obtain ⟨cell, hput⟩ := Option.isSome_iff_exists.1 hsome
      rw [hput, Option.getD_some, Option.getD_some]

end Memory

/-! ## Many writes -/

namespace Memory

variable (m : Memory)

/-- Every write of a run is answered as if it were the only one. -/
theorem replies_run (calls : List Call) (h : ∀ c ∈ calls, c.Writes) :
    (m.run calls).2 = calls.map fun c => (m.perform c).2 := by
  induction calls generalizing m with
  | nil => rfl
  | cons c rest ih =>
    have hrest : ((m.perform c).1.run rest).2 = rest.map fun c' => (m.perform c').2 := by
      rw [ih _ fun c' hc' => h c' (List.mem_cons_of_mem c hc'), List.map_inj_left]
      intro c' hc'
      exact reply_of_writes _ _ c' (h c' (List.mem_cons_of_mem c hc')) (m.layout_perform c)
        (m.cellCount_perform c)
    rw [List.map_cons, ← hrest]
    rfl

/-- The induction is on how the list is reordered: the swap of two neighbours is `perform_comm`. -/
theorem run_perm {calls calls' : List Call} (hperm : calls.Perm calls')
    (hwrites : ∀ c ∈ calls, c.Writes)
    (hapart : calls.Pairwise fun a b => (a.target m.layout).Apart (b.target m.layout)) :
    (m.run calls).1 = (m.run calls').1 := by
  induction hperm generalizing m with
  | nil => rfl
  | cons c _ ih =>
    rw [run_cons, run_cons]
    apply ih _ fun c' hc' => hwrites c' (List.mem_cons_of_mem c hc')
    rw [m.layout_perform c]
    exact hapart.of_cons
  | swap a b rest =>
    have hswap := m.perform_comm b a (hwrites b List.mem_cons_self)
      (hwrites a (List.mem_cons_of_mem b List.mem_cons_self))
      (List.rel_of_pairwise_cons hapart List.mem_cons_self)
    rw [run_cons, run_cons, run_cons, run_cons, hswap]
  | trans hfirst _ ih ih' =>
    apply (ih m hwrites hapart).trans
    apply ih' m fun c hc => hwrites c (hfirst.mem_iff.2 hc)
    exact hfirst.pairwise hapart Extent.Apart.symm

/-- Two writes whose cells are apart can be made in either order: the memory is the same in the end and
each of them gets the same reply, whether it succeeds or fails. A write that succeeds and is for all
cells of the write before it leaves nothing of that one, which may have succeeded or failed. Any number
of writes whose cells are apart can be made in any order. -/
theorem writes_independent :
    (∀ a b : Call, a.Writes → b.Writes → (a.target m.layout).Apart (b.target m.layout) →
      (m.run [a, b]).1 = (m.run [b, a]).1 ∧ (m.run [a, b]).2 = (m.run [b, a]).2.reverse) ∧
    (∀ a b : Call, a.Writes → b.Writes → Reply.succeeded (m.perform b).2 = true →
      (∀ n ∈ a.target m.layout, n ∈ b.target m.layout) →
      (m.run [a, b]).1 = (m.run [b]).1) ∧
    ∀ calls calls' : List Call, calls.Perm calls' → (∀ c ∈ calls, c.Writes) →
      (calls.Pairwise fun a b => (a.target m.layout).Apart (b.target m.layout)) →
      (m.run calls).1 = (m.run calls').1 := by
  refine ⟨?_, m.perform_absorb, fun _ _ => m.run_perm⟩
  intro a b ha hb hapart
  refine ⟨m.perform_comm a b ha hb hapart, ?_⟩
  have hpair (c c' : Call) (hc : c.Writes) (hc' : c'.Writes) :
      (m.run [c, c']).2 = [(m.perform c).2, (m.perform c').2] := by
    apply m.replies_run [c, c']
    rw [List.forall_mem_cons, List.forall_mem_singleton]
    exact ⟨hc, hc'⟩
  rw [hpair a b ha hb, hpair b a hb ha]
  rfl

/-- Three zeroed data cells: a header and the first of them, written in either order; a batch that
leaves nothing of a write before it; and three writes reordered, one of which fails. -/
theorem writes_independent_three_cells :
    ∃ m, (Memory.allocate 3 default).value = .ok m ∧
      (m.run [.writeMemberId 9, .write .int32 0 (-1)]).1 =
        (m.run [.write .int32 0 (-1), .writeMemberId 9]).1 ∧
      (m.run [.write .int32 1 5, .writeBatch .uint32 0 [1, 2]]).1 =
        (m.run [.writeBatch .uint32 0 [1, 2]]).1 ∧
      (m.run [.writeHeader ⟨1, 2, 3⟩, .write .raw 0 [1, 2, 3, 4, 5], .write .boolean 1 true]).1 =
        (m.run [.write .boolean 1 true, .writeHeader ⟨1, 2, 3⟩, .write .raw 0 [1, 2, 3, 4, 5]]).1 := by
  refine ⟨_, rfl, ?_⟩
  obtain ⟨hcomm, habsorb, hperm⟩ := writes_independent _
  refine ⟨?_, ?_, ?_⟩
  · exact (hcomm _ _ (by decide) (by decide) (by decide)).1
  · apply habsorb _ _ (by decide) (by decide) (by decide)
    rintro n ⟨hfrom, hto⟩
    exact ⟨Nat.le_of_lt hfrom, hto⟩
  · apply hperm _ _ ?_ (by decide) (by decide)
    exact @List.perm_append_comm _ [_, _] [_]

end Memory

end CellMemory
