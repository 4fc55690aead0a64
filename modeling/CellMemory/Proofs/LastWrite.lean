import CellMemory.Proofs.Origin
import CellMemory.Proofs.Run
import CellMemory.Proofs.Wire

/-! # The last write wins

A data cell holds what the last successful write to it has put there, whatever else has been asked of
the memory before, in between and afterwards.

* `Call.gives`: what a write has for a data cell.
* `Call.dataCell_effect`: the step, on cells; `Call.bytes_dataCell_effect` is the same on bytes.
* `Memory.dataCell_run`, `Memory.bytes_dataCell_run`: runs.
* `Origin.last_write_wins`: the bytes in the whole buffer, and what they are read as.
-/

namespace CellMemory
set_option autoImplicit false

namespace Call

/-- The input that a call has for a data cell, if it writes to that cell. -/
def gives (i : Nat) : Call → Option ((k : Kind) × k.Input)
  | write k index v => if index = i then some ⟨k, v⟩ else none
  | writeBatch k start vs => if start ≤ i then vs[i - start]?.map fun v => ⟨k, v⟩ else none
  | _ => none

/-! ## One call -/

variable (m : Memory) (i : Nat)

theorem dataCell_header (h : Header) (hp : Header.cells ≤ m.prefixCells) :
    (m.store 0 h.bytes).dataCell i = m.dataCell i := by
  rw [Header.bytes_eq]
  exact m.dataCell_putCells_prefix 0 i _ (by rw [Nat.zero_add]; exact hp)

theorem dataCell_cellsOf (k : Kind) (start : Nat) (vs : List k.Input)
    (h : start + vs.length ≤ m.cellCount) :
    (m.putCells (m.prefixCells + start) (vs.map k.cellOf)).dataCell i =
      ((gives i (.writeBatch k start vs)).map fun w => w.1.cellOf w.2).getD (m.dataCell i) := by
  rw [m.dataCell_putCells start i _ (by rw [List.length_map]; exact h), gives]
  by_cases hle : start ≤ i
  · rw [if_pos hle, if_pos hle, List.getD_eq_getElem?_getD, List.getElem?_map, Option.map_map]
    rfl
  · rw [if_neg hle, if_neg hle]
    rfl

theorem gives_singleton (k : Kind) (index : Nat) (v : k.Input) :
    gives i (.writeBatch k index [v]) = gives i (.write k index v) := by
  simp only [gives]
  by_cases hi : index = i
  · rw [if_pos hi, if_pos (Nat.le_of_eq hi), hi, Nat.sub_self]
    rfl
  · rw [if_neg hi]
    by_cases hle : index ≤ i
    · rw [if_pos hle, List.getElem?_eq_none (by rw [List.length_singleton]; omega)]
      rfl
    · rw [if_neg hle]

theorem dataCell_effect (c : Call) (h : c.refusal m = none) :
    (c.effect m).dataCell i = ((c.gives i).map fun w => w.1.cellOf w.2).getD (m.dataCell i) := by
  cases c with
  | writeHeader header => exact dataCell_header m i header (m.headerRefusal_eq_none.1 h)
  | writeMemberId id =>
    have hheader := headerRefusal_of_writeMemberId m id h
    exact dataCell_header m i _ (m.headerRefusal_eq_none.1 hheader)
  | write k index v =>
    have hlt := (m.runRefusal_eq_none index 1).1 (Option.or_eq_none_iff.1 h).2
    rw [← gives_singleton]
    exact dataCell_cellsOf m i k index [v] hlt
  | writeBatch k start vs =>
    have hle := (m.runRefusal_eq_none start vs.length).1 (Option.or_eq_none_iff.1 h).2
    exact dataCell_cellsOf m i k start vs hle
  | _ => rfl

theorem excess_of_gives (c : Call) (h : c.refusal m = none) (w : (k : Kind) × k.Input)
    (hw : c.gives i = some w) : w.1.excess? w.2 = none := by
  cases c with
  | write k index v =>
    have hrow := (k.rowRefusal_eq_none _).1 (Option.or_eq_none_iff.1 h).1
    rw [List.findSome?_singleton] at hrow
    by_cases hi : index = i
    · rw [gives, if_pos hi, Option.some.injEq] at hw
      rw [← hw]
      exact hrow
    · rw [gives, if_neg hi] at hw
      cases hw
  | writeBatch k start vs =>
    have hrows := (k.rowRefusal_eq_none _).1 (Option.or_eq_none_iff.1 h).1
    by_cases hle : start ≤ i
    · rw [gives, if_pos hle] at hw
      obtain ⟨v, hv, rfl⟩ := Option.map_eq_some_iff.1 hw
      exact List.findSome?_eq_none_iff.1 hrows v (List.mem_of_getElem? hv)
    · rw [gives, if_neg hle] at hw
      cases hw
  | _ => cases hw

theorem bytes_dataCell_effect (c : Call) (h : c.refusal m = none) :
    ((c.effect m).dataCell i).bytes =
      ((c.gives i).map fun w => w.1.wire w.2).getD (m.dataCell i).bytes := by
  rw [dataCell_effect m i c h]
  cases hw : c.gives i with
  | none => rfl
  | some w => exact w.1.bytes_cellOf w.2 (excess_of_gives m i c h w hw)

end Call

/-! ## Runs -/

namespace Memory

variable (m : Memory) (i : Nat) (calls : List Call)

/-- The input of the last successful write to a data cell. -/
def lastGiven : Option ((k : Kind) × k.Input) := Call.latest (Call.gives i) calls (m.run calls).2

theorem dataCell_run :
    (m.run calls).1.dataCell i =
      ((m.lastGiven i calls).map fun w => w.1.cellOf w.2).getD (m.dataCell i) :=
  m.view_run (Call.gives i) calls (fun m' => m'.dataCell i) (fun w => w.1.cellOf w.2)
    fun m' c _ _ hc => c.dataCell_effect m' i hc

theorem bytes_dataCell_run :
    ((m.run calls).1.dataCell i).bytes =
      ((m.lastGiven i calls).map fun w => w.1.wire w.2).getD (m.dataCell i).bytes :=
  m.view_run (Call.gives i) calls (fun m' => (m'.dataCell i).bytes) (fun w => w.1.wire w.2)
    fun m' c _ _ hc => c.bytes_dataCell_effect m' i hc

theorem perform_read (k : Kind) (h : i < m.cellCount) :
    (m.perform (.read k i)).2.value = .ok (.value k (k.decode (m.dataCell i)).value) := by
  rw [m.perform_accepted (.read k i) ((m.runRefusal_eq_none i 1).2 h)]
  rfl

end Memory

/-! ## From the making of a memory on -/

namespace Origin

/-- The bytes of a data cell at the start. -/
def initial (i : Nat) : Origin → List UInt8
  | blank _ _ => List.replicate 4 0
  | adopted bytes layout => (bytes.drop (4 * (layout.prefixCells + i))).take 4

theorem bytes_dataCell_make (o : Origin) (m : Memory) (i : Nat) (h : o.make.value = .ok m)
    (hi : i < m.cellCount) : (m.dataCell i).bytes = o.initial i := by
  have hcount := o.cellCount_of_make m h
  obtain ⟨hlayout, hbytes⟩ := (o.make_eq_ok m).1 h
  rw [m.bytes_dataCell i hi, hbytes, Memory.prefixCells, hlayout, Nat.mul_comm]
  cases o with
  | blank cellCount layout =>
    simp only [Origin.cellCount] at hcount
    rw [content, initial, List.drop_replicate, List.take_replicate, Origin.layout]
    congr 1
    simp only [Cell.size]
    omega
  | adopted bytes layout => rfl

/-- Take a memory made in any way, any calls on it, and one of its data cells. After the calls its
four bytes in the whole buffer are the encoding of what the last successful write to it gave, or, if
there was none, what they were at the start. Every kind of read succeeds there and is answered with
the value of these bytes, which is the value written if the kind is that of the write. -/
theorem last_write_wins (o : Origin) (m : Memory) (h : o.make.value = .ok m) (calls : List Call)
    (i : Nat) (hi : i < m.cellCount) :
    let last := (m.run calls).1
    let given := m.lastGiven i calls
    let content := (last.bytes.drop (4 * (o.layout.prefixCells + i))).take 4
    (content = match given with
      | some ⟨k, v⟩ => k.wire v
      | none => o.initial i) ∧
    (∀ k, (last.perform (.read k i)).2.value = .ok (.value k (k.meaning content))) ∧
    (∀ k v, given = some ⟨k, v⟩ →
      (last.perform (.read k i)).2.value = .ok (.value k (k.stored v))) := by
  intro last given content
  have hlast : i < last.cellCount := Nat.lt_of_lt_of_eq hi (m.cellCount_run calls).symm
  have hlayout : last.layout = o.layout := (m.layout_run calls).trans ((o.make_eq_ok m).1 h).1
  have hcontent : (last.dataCell i).bytes = content := by
    rw [last.bytes_dataCell i hlast, Memory.prefixCells, hlayout, Nat.mul_comm]
    rfl
  refine ⟨?_, ?_, ?_⟩
  · have hrun : (last.dataCell i).bytes =
        (given.map fun w => w.1.wire w.2).getD (m.dataCell i).bytes := m.bytes_dataCell_run i calls
    rw [← hcontent, hrun, o.bytes_dataCell_make m i h hi]
    cases given <;> rfl
  · intro k
    rw [last.perform_read i k hlast, k.value_decode, hcontent]
  · intro k v hgiven
    have hrun : last.dataCell i =
        (given.map fun w => w.1.cellOf w.2).getD (m.dataCell i) := m.dataCell_run i calls
    rw [last.perform_read i k hlast, hrun, hgiven, Option.map_some, Option.getD_some, k.value_decode_cellOf]

/-- The second of two data cells after a batch, a row that is too long, a header and a write to the
first one: it holds what the batch gave it. -/
theorem last_write_wins_second_cell :
    ∃ m, (Memory.allocate 2 default).value = .ok m ∧
      let last := (m.run [.writeBatch .int32 0 [7, -8], .write .raw 1 [1, 2, 3, 4, 5],
        .writeMemberId 9, .write .boolean 0 true]).1
      (last.bytes.drop 16).take 4 = [0xF8, 0xFF, 0xFF, 0xFF] ∧
        (last.perform (.read .int32 1)).2.value = .ok (.value .int32 (-8)) := by
  refine ⟨_, rfl, ?_⟩
  have h := last_write_wins (.blank 2 default) _ rfl [.writeBatch .int32 0 [7, -8],
    .write .raw 1 [1, 2, 3, 4, 5], .writeMemberId 9, .write .boolean 0 true] 1 (by decide)
  obtain ⟨hcontent, -, hread⟩ := h
  exact ⟨hcontent, hread .int32 (-8) rfl⟩

end Origin

end CellMemory
