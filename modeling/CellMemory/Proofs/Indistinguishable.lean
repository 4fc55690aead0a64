import CellMemory.Proofs.Effects
import CellMemory.Proofs.LastWrite
import CellMemory.Proofs.Safety

/-! # Data regions that cannot be told apart

The calls on data cells see the data region and nothing else. Two memories with equal data regions
answer all such calls alike, wherever in their buffers the regions lie, and go on to have equal data
regions. Two memories that answer even the reads of single cells alike have equal data regions.

* `Memory.SameData`: the relation, and `Memory.sameData_iff` for the same cell by cell.
* `Call.OnCells`: the calls on data cells.
* `Memory.SameData.reply`, `Memory.SameData.perform`, `Memory.SameData.run`: one call, and a run, on
  both memories.
* `Memory.SameData.of_reads`: the way back.
* `Memory.cells_fully_abstract`: both ways together, and what becomes of the prefixes.
-/

namespace CellMemory
set_option autoImplicit false

/-! ## Data regions cell by cell -/

namespace Memory

theorem chunk_dataBytes (m : Memory) : Cell.chunk m.dataBytes = m.dataCells 0 m.cellCount := by
  have hslice : m.buffer.slice (m.runBytes 0 m.cellCount) = m.dataBytes := by
    rw [Buffer.slice_eq, length_runBytes]
    apply List.take_of_length_le
    rw [List.length_drop, Buffer.length_toList, size_eq, runBytes]
    simp only [Cell.size]
    omega
  have hchunk := m.buffer.chunk_slice (m.prefixCells + 0) m.cellCount
    (m.run_stop_le 0 m.cellCount (Nat.le_of_eq (Nat.zero_add _)))
  rw [map_cell_runCells] at hchunk
  rw [← hslice]
  exact hchunk

/-- As many data cells and the same bytes in them. Nothing is said about the prefixes. -/
structure SameData (a b : Memory) : Prop where
  cellCount : a.cellCount = b.cellCount
  dataBytes : a.dataBytes = b.dataBytes

variable {a b : Memory}

theorem sameData_iff :
    a.SameData b ↔ a.cellCount = b.cellCount ∧ ∀ i < a.cellCount, a.dataCell i = b.dataCell i := by
  have hcells (hcount : a.cellCount = b.cellCount) :
      Cell.chunk a.dataBytes = Cell.chunk b.dataBytes ↔
        ∀ i < a.cellCount, a.dataCell i = b.dataCell i := by
    rw [chunk_dataBytes, chunk_dataBytes, ← hcount, dataCells, dataCells, List.map_inj_left]
    constructor
    · intro h i hi
      exact h i (List.mem_range'_1.2 ⟨Nat.zero_le i, by omega⟩)
    · intro h i hi
      exact h i (by have := (List.mem_range'_1.1 hi).2; omega)
  constructor
  · rintro ⟨hcount, hdata⟩
    exact ⟨hcount, (hcells hcount).1 (congrArg Cell.chunk hdata)⟩
  · rintro ⟨hcount, hdata⟩
    have hwhole (m : Memory) : m.dataBytes.length % Cell.size = 0 := by
      rw [length_dataBytes, Cell.size, Nat.mul_mod_right]
    have hchunks := congrArg (List.flatMap Cell.bytes) ((hcells hcount).2 hdata)
    rw [Cell.flatMap_bytes_chunk _ (hwhole a), Cell.flatMap_bytes_chunk _ (hwhole b)] at hchunks
    exact ⟨hcount, hchunks⟩

theorem SameData.dataCells (h : a.SameData b) (start count : Nat)
    (hle : start + count ≤ a.cellCount) : a.dataCells start count = b.dataCells start count := by
  rw [Memory.dataCells, Memory.dataCells, List.map_inj_left]
  intro i hi
  have hlt := (List.mem_range'_1.1 hi).2
  exact (sameData_iff.1 h).2 i (by omega)

end Memory

/-! ## Calls on data cells -/

namespace Call

/-- The call reads or writes data cells, one or a run of them. -/
def OnCells : Call → Prop
  | write _ _ _ | read _ _ | writeBatch _ _ _ | view _ _ _ _ | copy _ _ _ => True
  | _ => False

/-- Every index and every count among the arguments fits in 64 bits. -/
def Sized : Call → Prop
  | write _ index _ | read _ index => index ≤ Size.limit
  | writeBatch _ start vs => start ≤ Size.limit ∧ vs.length ≤ Size.limit
  | view _ start count _ | copy _ start count => start ≤ Size.limit ∧ count ≤ Size.limit
  | _ => True

instance : (c : Call) → Decidable c.OnCells
  | write _ _ _ | read _ _ | writeBatch _ _ _ | view _ _ _ _ | copy _ _ _ => .isTrue trivial
  | cellCount | prefixCells | layout | totalBytes | bytes | dataBytes | writeHeader _
  | writeMemberId _ | readHeader | validateHeader => .isFalse id

instance : (c : Call) → Decidable c.Sized
  | write _ _ _ | read _ _ => inferInstanceAs (Decidable (_ ≤ _))
  | writeBatch _ _ _ | view _ _ _ _ | copy _ _ _ => inferInstanceAs (Decidable (_ ∧ _))
  | cellCount | prefixCells | layout | totalBytes | bytes | dataBytes | writeHeader _
  | writeMemberId _ | readHeader | validateHeader => .isTrue trivial

variable (c : Call) (a b : Memory)

theorem refusal_congr (hc : c.OnCells) (h : a.cellCount = b.cellCount) :
    c.refusal a = c.refusal b := by
  have hrun := a.runRefusal_congr b h
  cases c with
  | write k index v => rw [refusal, refusal, hrun]
  | writeBatch k start vs => rw [refusal, refusal, hrun]
  | read _ _ | view _ _ _ _ | copy _ _ _ => exact hrun _ _
  | _ => exact absurd hc id

theorem sameData_effect (h : a.SameData b) (ha : c.refusal a = none) (hb : c.refusal b = none) :
    (c.effect a).SameData (c.effect b) := by
  obtain ⟨hcount, hcells⟩ := Memory.sameData_iff.1 h
  rw [Memory.sameData_iff, c.cellCount_effect, c.cellCount_effect]
  refine ⟨hcount, ?_⟩
  intro i hi
  rw [c.dataCell_effect a i ha, c.dataCell_effect b i hb, hcells i hi]

theorem getElem?_effect_onCells (hc : c.OnCells) (h : c.refusal a = none) (n : Nat)
    (hn : n < a.prefixCells * Cell.size) : (c.effect a).bytes[n]? = a.bytes[n]? := by
  have hplace : n < c.place a * Cell.size ∨
      (c.place a + (c.written a).length) * Cell.size ≤ n := by
    cases c with
    | write _ _ _ | writeBatch _ _ _ =>
      exact .inl (Nat.lt_of_lt_of_le hn (Nat.mul_le_mul_right _ (Nat.le_add_right _ _)))
    | read _ _ | view _ _ _ _ | copy _ _ _ => exact .inr (Nat.zero_le n)
    | _ => exact absurd hc id
  exact c.getElem?_effect a h n hplace

end Call

/-! ## Two runs -/

namespace Memory

variable {a b : Memory}

theorem SameData.reply (h : a.SameData b) (c : Call) (hc : c.OnCells) :
    (a.perform c).2 = (b.perform c).2 := by
  cases c with
  | write _ _ _ | writeBatch _ _ _ =>
    exact a.reply_congr b _ (Call.refusal_congr _ a b hc h.cellCount) fun _ => ⟨rfl, rfl⟩
  | read k index =>
    apply a.reply_of_dataCells b (.read k index) .single rfl (by decide) h.cellCount
    exact fun hnone => h.dataCells index 1 ((a.runRefusal_eq_none index 1).1 hnone)
  | view k start count inPlace =>
    apply a.reply_of_dataCells b (.view k start count inPlace) .run rfl (by decide) h.cellCount
    exact fun hnone => h.dataCells start count ((a.runRefusal_eq_none start count).1 hnone)
  | copy k start count =>
    apply a.reply_of_dataCells b (.copy k start count) .run rfl (by decide) h.cellCount
    exact fun hnone => h.dataCells start count ((a.runRefusal_eq_none start count).1 hnone)
  | _ => exact absurd hc id

/-- One step of both runs: the call is refused by both memories or by neither. -/
theorem SameData.perform (h : a.SameData b) (c : Call) (hc : c.OnCells) :
    (a.perform c).1.SameData (b.perform c).1 ∧ (a.perform c).2 = (b.perform c).2 := by
  have hrefusal := c.refusal_congr a b hc h.cellCount
  refine ⟨?_, h.reply c hc⟩
  cases ha : c.refusal a with
  | none =>
    have hb : c.refusal b = none := hrefusal.symm.trans ha
    rw [a.perform_accepted c ha, b.perform_accepted c hb]
    exact c.sameData_effect a b h ha hb
  | some fault =>
    have hb : c.refusal b = some fault := hrefusal.symm.trans ha
    rw [a.perform_refused c fault ha, b.perform_refused c fault hb]
    exact h

theorem SameData.run (h : a.SameData b) (calls : List Call) (hcalls : ∀ c ∈ calls, c.OnCells) :
    (a.run calls).1.SameData (b.run calls).1 ∧ (a.run calls).2 = (b.run calls).2 := by
  induction calls generalizing a b with
  | nil => exact ⟨h, rfl⟩
  | cons c rest ih =>
    obtain ⟨hnext, hreply⟩ := h.perform c (hcalls c List.mem_cons_self)
    obtain ⟨hlast, hreplies⟩ := ih hnext (fun c' hc' => hcalls c' (List.mem_cons_of_mem c hc'))
    refine ⟨hlast, ?_⟩
    simp only [Memory.run, hreply, hreplies]

theorem cellCount_le_limit (m : Memory) : m.cellCount ≤ Size.limit := by
  have hcells := m.cells_lt
  simp only [cellLimit, Size.limit] at hcells ⊢
  omega

/-- The first data cell that one memory has and the other has not tells them apart. -/
theorem cellCount_le_of_reads (a b : Memory)
    (h : ∀ i ≤ Size.limit,
      (a.perform (.read .uint32 i)).2.value = (b.perform (.read .uint32 i)).2.value) :
    b.cellCount ≤ a.cellCount := by
  apply Nat.le_of_not_lt
  intro hlt
  have hrefused : (Call.read .uint32 a.cellCount).refusal a =
      some (.outOfBounds a.cellCount 1 a.cellCount) :=
    (a.runRefusal_eq_some a.cellCount 1).2 ⟨Nat.lt_succ_self _, rfl⟩
  have hsame := h a.cellCount a.cellCount_le_limit
  rw [a.perform_refused _ _ hrefused, b.perform_read a.cellCount .uint32 hlt] at hsame
  cases hsame

theorem SameData.of_reads (h : ∀ i ≤ Size.limit,
    (a.perform (.read .uint32 i)).2.value = (b.perform (.read .uint32 i)).2.value) :
    a.SameData b := by
  have hcount : a.cellCount = b.cellCount :=
    Nat.le_antisymm (cellCount_le_of_reads b a fun i hi => (h i hi).symm)
      (cellCount_le_of_reads a b h)
  refine sameData_iff.2 ⟨hcount, ?_⟩
  intro i hi
  have hsame := h i (Nat.le_trans (Nat.le_of_lt hi) a.cellCount_le_limit)
  rw [a.perform_read i .uint32 hi, b.perform_read i .uint32 (hcount ▸ hi)] at hsame
  -- an unsigned read tells the whole word, a boolean one would not
  have hword : (a.dataCell i).word = (b.dataCell i).word := by
    injection hsame with hanswer
    injection hanswer
  rw [← Cell.ofWord_word (a.dataCell i), hword, Cell.ofWord_word]

theorem prefix_run_onCells (m : Memory) (calls : List Call) (hcalls : ∀ c ∈ calls, c.OnCells) :
    (m.run calls).1.bytes.take (4 * m.prefixCells) = m.bytes.take (4 * m.prefixCells) := by
  apply (m.run calls).1.stretch_congr m 0
  intro n _ hn
  apply m.getElem?_run Call.OnCells calls hcalls n
  intro m' c hwidth hc hrefusal
  apply c.getElem?_effect_onCells m' hc hrefusal n
  rw [hwidth, Nat.mul_comm]
  exact hn

/-- The data region of a memory is exactly what the calls on data cells can find out about it. Two
memories have as many data cells and the same bytes in them just if every sequence of such calls gets
the same answers and failures from both; then the events are the same too, and the data regions are
equal again afterwards. No such sequence changes the prefix of a memory. -/
theorem cells_fully_abstract (a b : Memory) :
    ((a.cellCount = b.cellCount ∧ a.dataBytes = b.dataBytes) ↔
      ∀ calls : List Call, (∀ c ∈ calls, c.OnCells ∧ c.Sized) →
        (a.run calls).2.map Traced.value = (b.run calls).2.map Traced.value) ∧
    ∀ calls : List Call, (∀ c ∈ calls, c.OnCells) →
      (a.cellCount = b.cellCount → a.dataBytes = b.dataBytes →
        (a.run calls).2 = (b.run calls).2 ∧
        (a.run calls).1.cellCount = (b.run calls).1.cellCount ∧
        (a.run calls).1.dataBytes = (b.run calls).1.dataBytes) ∧
      (a.run calls).1.bytes.take (4 * a.prefixCells) = a.bytes.take (4 * a.prefixCells) ∧
      (b.run calls).1.bytes.take (4 * b.prefixCells) = b.bytes.take (4 * b.prefixCells) := by
  refine ⟨⟨?_, ?_⟩, ?_⟩
  · rintro ⟨hcount, hdata⟩ calls hcalls
    have hrun := (SameData.mk hcount hdata).run calls (fun c hc => (hcalls c hc).1)
    rw [hrun.2]
  · intro h
    -- the sequences of a single read are enough
    have hreads (i : Nat) (hi : i ≤ Size.limit) :
        (a.perform (.read .uint32 i)).2.value = (b.perform (.read .uint32 i)).2.value := by
      have hone := h [.read .uint32 i] (by
        intro c hc
        rw [List.mem_singleton.1 hc]
        exact ⟨trivial, hi⟩)
      exact List.head_eq_of_cons_eq hone
    have hsame : a.SameData b := .of_reads hreads
    exact ⟨hsame.cellCount, hsame.dataBytes⟩
  · intro calls hcalls
    refine ⟨?_, a.prefix_run_onCells calls hcalls, b.prefix_run_onCells calls hcalls⟩
    intro hcount hdata
    obtain ⟨hlast, hreplies⟩ := (SameData.mk hcount hdata).run calls hcalls
    exact ⟨hreplies, hlast.cellCount, hlast.dataBytes⟩

/-- Two data cells of the same content behind a prefix of three cells and behind none: the same calls,
some of which are refused, and what comes back from both. -/
theorem cells_fully_abstract_two_prefixes :
    ∃ a b, (ofBytes (List.replicate 12 9 ++ List.replicate 8 7) default).value = .ok a ∧
      (ofBytes (List.replicate 8 7) .bare).value = .ok b ∧
      let calls : List Call := [.write .boolean 1 true, .write .raw 0 [1, 2, 3, 4, 5], .copy .int32 0 3]
      (a.run calls).2.map Traced.value = (b.run calls).2.map Traced.value ∧
        (a.run calls).1.dataBytes = (b.run calls).1.dataBytes ∧
        (a.run calls).1.bytes.take 12 = a.bytes.take 12 := by
  obtain ⟨a, ha, hla, hba⟩ :=
    exists_ofBytes (List.replicate 12 9 ++ List.replicate 8 7) default 2 rfl (by decide)
  obtain ⟨b, hb, hlb, hbb⟩ := exists_ofBytes (List.replicate 8 7) .bare 2 rfl (by decide)
  have hcount : a.cellCount = b.cellCount :=
    (Origin.cellCount_of_make (.adopted _ default) a ha).trans
      (Origin.cellCount_of_make (.adopted _ .bare) b hb).symm
  have hdata : a.dataBytes = b.dataBytes := by
    rw [dataBytes, dataBytes, hba, hbb, prefixCells, prefixCells, hla, hlb]
    rfl
  have hwidth : a.prefixCells = 3 := by rw [prefixCells, hla]; rfl
  refine ⟨a, b, ha, hb, ?_⟩
  intro calls
  obtain ⟨hanswers, hruns⟩ := cells_fully_abstract a b
  obtain ⟨hsame, hkept, -⟩ := hruns calls (by decide)
  obtain ⟨-, -, hlast⟩ := hsame hcount hdata
  rw [hwidth] at hkept
  exact ⟨hanswers.1 ⟨hcount, hdata⟩ calls (by decide), hlast, hkept⟩

end Memory

end CellMemory
