import CellMemory.Proofs.Run

/-! # What a call leaves as it was

Whatever a call does to a memory, it puts some cells at one place of the buffer: those of a header at
its start, those of a run among the data, or none. Everything outside stays what it was.

* `Call.place`, `Call.written`: the place and the cells. `Call.effect_eq`: they are all there is to an
  effect.
* `Call.written_cases`: where that can be, on a memory that does not refuse the call.
* `Call.getElem?_effect`: the bytes outside.
* `Memory.reply_congr`: when two memories reply alike.
* `Memory.invariant_run`, `Memory.getElem?_run`: what each call keeps, a run keeps.
-/

namespace CellMemory
set_option autoImplicit false

/-! ## Bytes by their positions -/

theorem Buffer.getElem?_toList (b : Buffer) (n : Nat) :
    b.toList[n]? = if n < b.size then some (b.byte n) else none := by
  rw [b.byte_eq, List.getD_eq_getElem?_getD]
  by_cases hn : n < b.toList.length
  · rw [List.getElem?_eq_getElem hn, if_pos (by rw [← b.length_toList]; exact hn), Option.getD_some]
  · rw [List.getElem?_eq_none (Nat.not_lt.1 hn), if_neg (by rw [← b.length_toList]; exact hn)]

theorem Cell.length_flatMap_bytes (cells : List Cell) :
    (cells.flatMap Cell.bytes).length = cells.length * Cell.size := by
  induction cells with
  | nil => rfl
  | cons c cells ih =>
    rw [List.flatMap_cons, List.length_append, ih, Cell.length_bytes, List.length_cons, Nat.succ_mul,
      Nat.add_comm]

/-- Where the bytes of cells that start at a place end. -/
theorem Cell.add_length_flatMap_bytes (place : Nat) (cells : List Cell) :
    place * Cell.size + (cells.flatMap Cell.bytes).length = (place + cells.length) * Cell.size := by
  rw [Cell.length_flatMap_bytes, Nat.add_mul]

namespace Memory

variable (m : Memory)

theorem bytes_putCells (place : Nat) (cells : List Cell)
    (h : (place + cells.length) * Cell.size ≤ m.buffer.size) :
    (m.putCells place cells).bytes =
      m.bytes.take (place * Cell.size) ++ cells.flatMap Cell.bytes ++
        m.bytes.drop ((place + cells.length) * Cell.size) := by
  have hlength := Cell.add_length_flatMap_bytes place cells
  have hstore := m.buffer.toList_store (place * Cell.size) (cells.flatMap Cell.bytes)
    (by rw [hlength]; exact h)
  rw [hlength] at hstore
  exact hstore

theorem getElem?_putCells_of_outside (place n : Nat) (cells : List Cell)
    (h : (place + cells.length) * Cell.size ≤ m.buffer.size)
    (hn : n < place * Cell.size ∨ (place + cells.length) * Cell.size ≤ n) :
    (m.putCells place cells).bytes[n]? = m.bytes[n]? := by
  have hlength := Cell.add_length_flatMap_bytes place cells
  have hbyte : (m.putCells place cells).buffer.byte n = m.buffer.byte n := by
    apply m.buffer.byte_store_of_outside
    · rw [hlength]
      exact h
    · rw [hlength]
      exact hn
  rw [bytes, bytes, Buffer.getElem?_toList, Buffer.getElem?_toList, size_putCells, hbyte]

/-- A stretch of bytes, from one position to another, depends on the bytes at its positions only. -/
theorem stretch_congr (m' : Memory) (start stop : Nat)
    (h : ∀ n, start ≤ n → n < stop → m.bytes[n]? = m'.bytes[n]?) :
    (m.bytes.take stop).drop start = (m'.bytes.take stop).drop start := by
  apply List.ext_getElem?
  intro n
  rw [List.getElem?_drop, List.getElem?_drop, List.getElem?_take, List.getElem?_take]
  by_cases hn : start + n < stop
  · rw [if_pos hn, if_pos hn]
    exact h (start + n) (Nat.le_add_right start n) hn
  · rw [if_neg hn, if_neg hn]

end Memory

/-! ## Effects as cells at a place -/

def Header.asCells (h : Header) : List Cell :=
  [.ofWord h.memberId, .ofWord h.cellCount, .ofWord h.reserved]

theorem Memory.store_header (m : Memory) (h : Header) : m.store 0 h.bytes = m.putCells 0 h.asCells := by
  rw [Header.bytes_eq, putCells, Nat.zero_mul, Header.asCells]

namespace Call

/-- Where a call puts cells, counted in cells of the buffer. -/
def place (m : Memory) : Call → Nat
  | write _ index _ => m.prefixCells + index
  | writeBatch _ start _ => m.prefixCells + start
  | _ => 0

/-- The cells that a call puts into the buffer if it is carried out. -/
def written (m : Memory) : Call → List Cell
  | writeHeader h => h.asCells
  | writeMemberId id => (Header.mk id (.ofNat m.cellCount) 0).asCells
  | write k _ v => [k.cellOf v]
  | writeBatch k _ vs => vs.map k.cellOf
  | _ => []

variable (m : Memory) (c : Call)

theorem effect_eq : c.effect m = m.putCells (c.place m) (c.written m) := by
  cases c with
  | writeHeader h => exact m.store_header h
  | writeMemberId id => exact m.store_header _
  | _ => rfl

/-- The cells of a call are either none, or a header in a prefix that has room for it, or a run of
data cells. -/
theorem written_cases (h : c.refusal m = none) :
    (c.place m = 0 ∧ c.written m = []) ∨
      (c.place m = 0 ∧ (c.written m).length = Header.cells ∧ Header.cells ≤ m.prefixCells) ∨
      (m.prefixCells ≤ c.place m ∧
        c.place m + (c.written m).length ≤ m.prefixCells + m.cellCount) := by
  cases c with
  | writeHeader header => exact .inr (.inl ⟨rfl, rfl, m.headerRefusal_eq_none.1 h⟩)
  | writeMemberId id =>
    have hheader := headerRefusal_of_writeMemberId m id h
    exact .inr (.inl ⟨rfl, rfl, m.headerRefusal_eq_none.1 hheader⟩)
  | write k index v =>
    have hle := (m.runRefusal_eq_none index 1).1 (Option.or_eq_none_iff.1 h).2
    refine .inr (.inr ⟨Nat.le_add_right _ _, ?_⟩)
    rw [place, written, List.length_singleton, Nat.add_assoc]
    exact Nat.add_le_add_left hle _
  | writeBatch k start vs =>
    have hle := (m.runRefusal_eq_none start vs.length).1 (Option.or_eq_none_iff.1 h).2
    refine .inr (.inr ⟨Nat.le_add_right _ _, ?_⟩)
    rw [place, written, List.length_map, Nat.add_assoc]
    exact Nat.add_le_add_left hle _
  | _ => exact .inl ⟨rfl, rfl⟩

theorem written_fits (h : c.refusal m = none) :
    (c.place m + (c.written m).length) * Cell.size ≤ m.buffer.size := by
  have hcells : c.place m + (c.written m).length ≤ m.prefixCells + m.cellCount := by
    rcases c.written_cases m h with ⟨hplace, hnone⟩ | ⟨hplace, hlength, hroom⟩ | ⟨-, hle⟩
    · rw [hplace, hnone]
      exact Nat.zero_le _
    · rw [hplace, hlength]
      omega
    · exact hle
  rw [m.size_eq]
  exact Nat.mul_le_mul_right _ hcells

theorem getElem?_effect (h : c.refusal m = none) (n : Nat)
    (hn : n < c.place m * Cell.size ∨ (c.place m + (c.written m).length) * Cell.size ≤ n) :
    (c.effect m).bytes[n]? = m.bytes[n]? := by
  rw [c.effect_eq m]
  exact m.getElem?_putCells_of_outside _ n _ (c.written_fits m h) hn

end Call

/-! ## Calls on two memories -/

namespace Memory

variable (m m' : Memory)

theorem runRefusal_congr (h : m.cellCount = m'.cellCount) (start count : Nat) :
    m.runRefusal start count = m'.runRefusal start count := by
  rw [runRefusal, runRefusal, h]

theorem headerRefusal_congr (h : m.layout = m'.layout) : m.headerRefusal = m'.headerRefusal := by
  rw [headerRefusal, headerRefusal, prefixCells, prefixCells, h]

/-- Two memories that refuse a call alike reply to it alike, if they do when they accept it. -/
theorem reply_congr (c : Call) (hrefusal : c.refusal m = c.refusal m')
    (hreply : c.refusal m = none → c.answer m = c.answer m' ∧ c.report m = c.report m') :
    (m.perform c).2 = (m'.perform c).2 := by
  cases h : c.refusal m with
  | none =>
    obtain ⟨hanswer, hreport⟩ := hreply h
    rw [m.perform_accepted c h, m'.perform_accepted c (hrefusal.symm.trans h), hanswer, hreport]
  | some fault =>
    rw [m.perform_refused c fault h, m'.perform_refused c fault (hrefusal.symm.trans h)]

end Memory

/-! ## Runs -/

namespace Memory

variable (m : Memory)

theorem run_cons (c : Call) (rest : List Call) :
    (m.run (c :: rest)).1 = ((m.perform c).1.run rest).1 := rfl

theorem run_append (xs ys : List Call) : (m.run (xs ++ ys)).1 = ((m.run xs).1.run ys).1 := by
  induction xs generalizing m with
  | nil => rfl
  | cons c xs ih => exact ih (m.perform c).1

theorem prefixCells_run (calls : List Call) : (m.run calls).1.prefixCells = m.prefixCells :=
  congrArg Layout.prefixCells (m.layout_run calls)

variable (allowed : Call → Prop) (calls : List Call) (hcalls : ∀ c ∈ calls, allowed c)

include hcalls

/-- A property that every call of some sort keeps holds after any run of such calls. As in
`view_run`, the step is asked of the memories on the way only. -/
theorem invariant_run (P : Memory → Prop) (hm : P m)
    (hstep : ∀ (m' : Memory) (c : Call), m'.layout = m.layout → m'.cellCount = m.cellCount →
      allowed c → c.refusal m' = none → P m' → P (c.effect m')) :
    P (m.run calls).1 := by
  induction calls generalizing m with
  | nil => exact hm
  | cons c rest ih =>
    have hallowed := hcalls c List.mem_cons_self
    have hnext : P (m.perform c).1 := by
      rcases m.perform_cases c with ⟨-, hsame⟩ | ⟨-, hrefusal, heffect⟩
      · rw [hsame]
        exact hm
      · rw [heffect]
        exact hstep m c rfl rfl hallowed hrefusal hm
    refine ih (m.perform c).1 (fun c' hc' => hcalls c' (List.mem_cons_of_mem c hc')) hnext ?_
    intro m' c' hlayout hcount
    exact hstep m' c' (hlayout.trans (m.layout_perform c)) (hcount.trans (m.cellCount_perform c))

theorem getElem?_run (n : Nat)
    (hstep : ∀ (m' : Memory) (c : Call), m'.prefixCells = m.prefixCells → allowed c →
      c.refusal m' = none → (c.effect m').bytes[n]? = m'.bytes[n]?) :
    (m.run calls).1.bytes[n]? = m.bytes[n]? := by
  apply m.invariant_run allowed calls hcalls (fun m' => m'.bytes[n]? = m.bytes[n]?) rfl
  intro m' c hlayout _ hc hrefusal hbyte
  exact (hstep m' c (congrArg Layout.prefixCells hlayout) hc hrefusal).trans hbyte

end Memory

end CellMemory
