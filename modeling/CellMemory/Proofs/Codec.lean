import CellMemory.Proofs.WriteBack

/-! # Runs of values of any type

Writing a run and copying it do not depend on what the values are: any type with a codec will do. The
loop takes the cells of the run one by one, together with the values; there are as many of the one as
of the other, so that every value is stored and nothing else changes.

* `Access.writeBatch_eq_writeRun`: a batch of a kind is the loop at its codec, as a copy is by
  definition.
* `Memory.getElem?_zip_cellStarts`: what the loop pairs.
* `Memory.dataCells_putCells`: the cells that were put are the cells of the run.
* `Memory.writtenRun`, `Memory.bytes_writtenRun`, `Memory.run_readRun_writtenRun`: what is in the
  buffer after a run was written, and what is copied from it.
* `Memory.copy_writtenRun`: the same for a call.
* `Memory.runs_stored`: these facts together.
-/

namespace CellMemory
set_option autoImplicit false

/-! ## The four kinds -/

/-- What a boolean is kept as is one of the canonical patterns. -/
theorem Kind.events_decode_encode (k : Kind) (v : k.Value) :
    (k.decode (k.encode v)).events = [] := by
  cases k with
  | boolean => cases v <;> rfl
  | _ => rfl

/-- Once its rows have been found short enough, a batch is the loop over the values that its inputs are
stored as. -/
theorem Access.writeBatch_eq_writeRun (k : Kind) (start : Nat) (vs : List k.Input)
    (h : vs.findSome? k.excess? = none) :
    writeBatch k start vs = writeRun k.codec start (vs.map k.stored) := by
  rw [writeBatch, k.mapM_accept_of_none vs h]
  rfl

/-! ## What the loops come to -/

namespace Memory

variable (m : Memory)

/-- There is a cell for each value and a value for each cell, in the same order. -/
theorem getElem?_zip_cellStarts {α : Type} (start : Nat) (vs : List α) (j : Nat)
    (hj : j < vs.length) :
    ((m.runBytes start vs.length).cellStarts.zip vs)[j]? =
      some (4 * (m.prefixCells + start) + 4 * j, vs[j]) := by
  have hplace : (m.prefixCells + start) * Cell.size + Cell.size * j =
      4 * (m.prefixCells + start) + 4 * j := by
    rw [Nat.mul_comm (m.prefixCells + start)]
    rfl
  rw [cellStarts_runBytes, List.getElem?_zip_eq_some, List.getElem?_range' hj, hplace]
  exact ⟨rfl, List.getElem?_eq_getElem hj⟩

theorem dataCells_putCells (start : Nat) (cells : List Cell)
    (h : start + cells.length ≤ m.cellCount) :
    (m.putCells (m.prefixCells + start) cells).dataCells start cells.length = cells := by
  apply List.ext_getElem?
  intro j
  by_cases hj : j < cells.length
  · rw [getElem?_dataCells _ start _ j hj, m.dataCell_putCells start (start + j) cells h,
      if_pos (Nat.le_add_right _ _), Nat.add_sub_cancel_left, List.getD_eq_getElem?_getD,
      List.getElem?_eq_getElem hj, Option.getD_some]
  · rw [List.getElem?_eq_none (by rw [length_dataCells]; exact Nat.not_lt.1 hj),
      List.getElem?_eq_none (Nat.not_lt.1 hj)]

end Memory

section Codec
variable {α : Type} (codec : Codec α) (start : Nat) (vs : List α)

/-- The memory after values were written to a run of data cells. -/
def Memory.writtenRun (m : Memory) : Memory :=
  m.putCells (m.prefixCells + start) (vs.map codec.encode)

namespace Memory

variable (m : Memory) (h : start + vs.length ≤ m.cellCount)

include h

theorem bytes_writtenRun :
    (m.writtenRun codec start vs).bytes =
      m.bytes.take (4 * (m.prefixCells + start)) ++
        vs.flatMap (fun v => (codec.encode v).bytes) ++
        m.bytes.drop (4 * (m.prefixCells + start + vs.length)) := by
  have hlength : (vs.map codec.encode).length = vs.length := List.length_map codec.encode
  rw [writtenRun, m.bytes_putCells _ _ (by rw [hlength]; exact m.run_stop_le start _ h), hlength,
    List.flatMap_map, Nat.mul_comm 4, Nat.mul_comm 4]
  rfl

theorem dataCells_writtenRun :
    (m.writtenRun codec start vs).dataCells start vs.length = vs.map codec.encode := by
  have hcells := m.dataCells_putCells start (vs.map codec.encode) (by rw [List.length_map]; exact h)
  rw [List.length_map] at hcells
  exact hcells

theorem run_readRun_writtenRun :
    (Access.readRun codec start vs.length).run { memory := m.writtenRun codec start vs } =
      .ok (vs.map fun v => (codec.decode (codec.encode v)).value) {
        memory := m.writtenRun codec start vs
        events := vs.flatMap fun v => (codec.decode (codec.encode v)).events } := by
  have hread := Access.run_readRun { memory := m.writtenRun codec start vs } codec start vs.length h
  rw [m.dataCells_writtenRun codec start vs h] at hread
  simp only [Codec.decodeAll, List.map_map, List.flatMap_map, Access.run_traced, List.nil_append]
    at hread
  exact hread

end Memory

end Codec

/-! ## Everything together -/

namespace Memory

variable (m : Memory)

theorem copy_writtenRun (k : Kind) (start : Nat) (vs : List k.Value)
    (h : start + vs.length ≤ m.cellCount) :
    ((m.writtenRun k.codec start vs).perform (.copy k start vs.length)).2 =
      { value := .ok (.values k vs) } := by
  have hvalues : (vs.map fun v => (k.codec.decode (k.codec.encode v)).value) = vs :=
    (List.map_congr_left fun v _ => k.value_decode_encode v).trans (List.map_id' vs)
  have hevents : (vs.flatMap fun v => (k.codec.decode (k.codec.encode v)).events) = [] :=
    List.flatMap_eq_nil_iff.2 fun v _ => k.events_decode_encode v
  have hread := m.run_readRun_writtenRun k.codec start vs h
  rw [hvalues, hevents] at hread
  simp only [perform, Call.access, EStateM.run_bind, Access.copy, hread, EStateM.run_pure]

/-- Take a run of data cells and as many values of a type with any codec. The loop that writes them
pairs the cell at each offset of the run with the value at this offset, and neither side has any more.
It ends without a failure; then the buffer has the old bytes before the run, the values' bytes one
after the other, and the old bytes after the run. Copying the run gives for each value what its bytes
decode to. The batches and copies of the four kinds are these loops, for any inputs but rows that are
too long, and what they copy are the values that were written. -/
theorem runs_stored (start : Nat) :
    (∀ (α : Type) (codec : Codec α) (vs : List α), start + vs.length ≤ m.cellCount →
      (∃ e, m.layout.byteExtent m.cellCount start vs.length = .ok e ∧
        e.cellStarts.length = vs.length ∧
        ∀ (j : Nat) (hj : j < vs.length), (e.cellStarts.zip vs)[j]? =
          some (4 * (m.prefixCells + start) + 4 * j, vs[j])) ∧
      ∃ m', (Access.writeRun codec start vs).run { memory := m } =
          .ok () { memory := m', events := [.writing vs.length start] } ∧
        m'.bytes = m.bytes.take (4 * (m.prefixCells + start)) ++
          vs.flatMap (fun v => (codec.encode v).bytes) ++
          m.bytes.drop (4 * (m.prefixCells + start + vs.length)) ∧
        m'.bytes.length = m.bytes.length ∧
        (Access.readRun codec start vs.length).run { memory := m' } =
          .ok (vs.map fun v => (codec.decode (codec.encode v)).value)
            { memory := m', events := vs.flatMap fun v => (codec.decode (codec.encode v)).events }) ∧
    ∀ k : Kind,
      (∀ vs : List k.Input, vs.findSome? k.excess? = none →
        Access.writeBatch k start vs = Access.writeRun k.codec start (vs.map k.stored)) ∧
      (∀ count, Access.copy k start count = Access.readRun k.codec start count) ∧
      ∀ vs : List k.Value, start + vs.length ≤ m.cellCount →
        ∃ m', m.perform (.writeBatch k start (vs.map k.offer)) =
            (m', { value := .ok .done, events := [.writing vs.length start] }) ∧
          m'.bytes = m.bytes.take (4 * (m.prefixCells + start)) ++
            vs.flatMap (fun v => (k.encode v).bytes) ++
            m.bytes.drop (4 * (m.prefixCells + start + vs.length)) ∧
          (m'.perform (.copy k start vs.length)).2 = { value := .ok (.values k vs) } := by
  refine ⟨?_, ?_⟩
  · intro α codec vs h
    refine ⟨⟨_, m.byteExtent_of_le start _ h, ?_, m.getElem?_zip_cellStarts start vs⟩,
      m.writtenRun codec start vs, Access.run_writeRun { memory := m } codec start vs h,
      m.bytes_writtenRun codec start vs h, ?_, m.run_readRun_writtenRun codec start vs h⟩
    · rw [cellStarts_runBytes, List.length_range']
    · rw [length_bytes, length_bytes]
      rfl
  · intro k
    refine ⟨Access.writeBatch_eq_writeRun k start, fun _ => rfl, ?_⟩
    intro vs h
    exact ⟨m.writtenRun k.codec start vs, m.perform_offered k start vs h,
      m.bytes_writtenRun k.codec start vs h, m.copy_writtenRun k start vs h⟩

/-- Natural numbers are kept as words, and what does not fit a word is lost: two of them, in the middle
of five data cells, and then two booleans behind them. -/
theorem runs_stored_two_naturals :
    ∃ m, (ofBytes (List.replicate 32 9) default).value = .ok m ∧
      let codec : Codec Nat := ⟨fun n => .ofWord (.ofNat n), fun c => { value := c.word.toNat }⟩
      (∃ m', (Access.writeRun codec 1 [7, 4294967301]).run { memory := m } =
          .ok () { memory := m', events := [.writing 2 1] } ∧
        m'.bytes = List.replicate 16 9 ++ [7, 0, 0, 0, 5, 0, 0, 0] ++ List.replicate 8 9 ∧
        (Access.readRun codec 1 2).run { memory := m' } = .ok [7, 5] { memory := m' }) ∧
      ∃ m', m.perform (.writeBatch .boolean 3 [true, false]) =
          (m', { value := .ok .done, events := [.writing 2 3] }) ∧
        (m'.perform (.copy .boolean 3 2)).2 = { value := .ok (.values .boolean [true, false]) } := by
  obtain ⟨m, hm, hcount, hwidth⟩ : ∃ m, (ofBytes (List.replicate 32 9) default).value = .ok m ∧
      m.cellCount = 5 ∧ m.prefixCells = 3 := ⟨_, rfl, rfl, rfl⟩
  have hbytes := ((ofBytes_eq_ok _ default m).1 hm).2
  obtain ⟨hany, -⟩ := m.runs_stored 1
  obtain ⟨-, hkinds⟩ := m.runs_stored 3
  obtain ⟨-, m', hwrite, hnew, -, hread⟩ := hany Nat
    ⟨fun n => .ofWord (.ofNat n), fun c => { value := c.word.toNat }⟩ [7, 4294967301]
    (by rw [hcount]; decide)
  obtain ⟨-, -, hvalues⟩ := hkinds .boolean
  obtain ⟨m'', hbatch, -, hcopy⟩ := hvalues [true, false] (by rw [hcount]; decide)
  refine ⟨m, hm, ⟨m', hwrite, ?_, hread⟩, m'', hbatch, hcopy⟩
  rw [hnew, hbytes, hwidth]
  rfl

end Memory

end CellMemory
