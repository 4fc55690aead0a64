import CellMemory.Proofs.Batch
import CellMemory.Proofs.PrefixRegion
import CellMemory.Proofs.Reading

/-! # Writing back what was read

The values of a run are read and written back to where they came from. Integers and raw cells tell
everything about a cell, so nothing changes, whatever pattern it held. A boolean tells less: a cell
settles on one of the two canonical patterns, and stays there.

* `Kind.offer`: a value as it is offered for writing. `Kind.settle`: what becomes of its cell.
* `Kind.value_decode_encode`: a value comes back from its cell. `Kind.encode_decode`: a cell settles
  when its value is written back, at once (`Kind.settle_settle`) and on a cell of the same value
  (`Kind.value_decode_settle`).
* `Memory.putCells_cells`: cells put back where they are.
* `Memory.perform_offered`: a batch of values, as a call.
* `Memory.settled`, `Memory.perform_writeBack`: the memory after the values of a run are written back.
* `Memory.settled_eq_self_iff`, `Memory.settled_settled`, `Memory.value_copy_settled`: what it differs
  in, and what it does not.
* `Memory.written_back`: these facts together, and the same for the header.
-/

namespace CellMemory
set_option autoImplicit false

namespace Kind

/-- A value in the form in which it is offered for writing. -/
def offer : (k : Kind) → k.Value → k.Input
  | int32, v => v
  | uint32, v => v
  | boolean, v => v
  | raw, c => c.bytes

/-- What a cell becomes when its value is written back: the pattern of that value if it is a boolean,
and otherwise the cell itself. -/
def settle : (k : Kind) → Cell → Cell
  | boolean, c => .ofWord (Boolean.encode (c.word != Boolean.falsePattern))
  | int32, c => c
  | uint32, c => c
  | raw, c => c

variable (k : Kind)

theorem excess_offer (v : k.Value) : k.excess? (k.offer v) = none := by
  cases k <;> rfl

theorem stored_offer (v : k.Value) : k.stored (k.offer v) = v := by
  cases k <;> rfl

theorem cellOf_offer (v : k.Value) : k.cellOf (k.offer v) = k.encode v :=
  congrArg k.encode (k.stored_offer v)

theorem value_decode_encode (v : k.Value) : (k.decode (k.encode v)).value = v := by
  rw [← k.cellOf_offer, k.value_decode_cellOf, k.stored_offer]

/-- Every cell, and not only one that was written, is the cell of the integer or the row read from
it. -/
theorem encode_decode (c : Cell) : k.encode (k.decode c).value = k.settle c := by
  cases k with
  | int32 =>
    have hword : c.word.toInt32.toUInt32 = c.word := UInt32.toUInt32_toInt32 c.word
    exact (congrArg Cell.ofWord hword).trans c.ofWord_word
  | uint32 => exact c.ofWord_word
  | boolean => rfl
  | raw => rfl

theorem value_decode_settle (c : Cell) : (k.decode (k.settle c)).value = (k.decode c).value := by
  rw [← k.encode_decode, k.value_decode_encode]

theorem settle_settle (c : Cell) : k.settle (k.settle c) = k.settle c := by
  rw [← k.encode_decode (k.settle c), k.value_decode_settle, k.encode_decode]

theorem settle_of_ne (hk : k ≠ boolean) (c : Cell) : k.settle c = c := by
  cases k with
  | boolean => exact absurd rfl hk
  | _ => rfl

theorem settle_of_word_eq (c : Cell) (h : c.word = 0) : boolean.settle c = .ofWord 0 := by
  simp only [settle, h]
  rfl

theorem settle_of_word_ne (c : Cell) (h : c.word ≠ 0) : boolean.settle c = .ofWord 0xFFFFFFFF := by
  have htrue : (c.word != Boolean.falsePattern) = true := bne_iff_ne.2 h
  simp only [settle, htrue]
  rfl

theorem bytes_settle (c : Cell) :
    (boolean.settle c).bytes = List.replicate 4 (if c.word = 0 then 0x00 else 0xFF) := by
  by_cases h : c.word = 0
  · rw [settle_of_word_eq c h, if_pos h]
    rfl
  · rw [settle_of_word_ne c h, if_neg h]
    rfl

theorem settle_eq_self_iff (c : Cell) :
    boolean.settle c = c ↔ c.word = 0 ∨ c.word = 0xFFFFFFFF := by
  by_cases h : c.word = 0
  · rw [settle_of_word_eq c h, ← h, c.ofWord_word]
    exact iff_of_true rfl (.inl rfl)
  · rw [settle_of_word_ne c h, or_iff_right h]
    constructor
    · intro hc
      rw [← hc, Cell.word_ofWord]
    · intro hword
      rw [← hword, c.ofWord_word]

end Kind

namespace Memory

variable (m : Memory)

/-! ## Cells put back -/

theorem putCells_cells (place count : Nat) (h : (place + count) * Cell.size ≤ m.buffer.size) :
    m.putCells place ((List.range' place count).map m.buffer.cell) = m := by
  have hlength : ((List.range' place count).map m.buffer.cell).length = count := by
    rw [List.length_map, List.length_range']
  refine eq_of_cells _ m rfl rfl ?_
  intro n
  rw [m.cell_putCells place n _ (by rw [hlength]; exact h)]
  by_cases hle : place ≤ n
  · rw [if_pos hle, List.getD_eq_getElem?_getD, List.getElem?_map]
    by_cases hlt : n - place < count
    · rw [List.getElem?_range' hlt, show place + 1 * (n - place) = n by omega]
      rfl
    · rw [List.getElem?_eq_none (by rw [List.length_range']; omega)]
      rfl
  · rw [if_neg hle]

theorem putCells_header (h : Header.cells ≤ m.prefixCells) : m.putCells 0 m.header.asCells = m := by
  have hcells : m.header.asCells = (List.range' 0 Header.cells).map m.buffer.cell := by
    simp only [Header.asCells, header, Cell.ofWord_word]
    rfl
  rw [hcells]
  apply m.putCells_cells 0 Header.cells
  rw [Nat.zero_add]
  exact (m.inside_header h).2

/-! ## The values of a run written back -/

section Run
variable (k : Kind) (start count : Nat)

theorem mem_dataCells (c : Cell) :
    c ∈ m.dataCells start count ↔ ∃ i, start ≤ i ∧ i < start + count ∧ m.dataCell i = c := by
  unfold dataCells
  simp only [List.mem_map, List.mem_range'_1, and_assoc]

theorem length_map_dataCells {α : Type} (f : Cell → α) :
    ((m.dataCells start count).map f).length = count := by
  rw [List.length_map, length_dataCells]

theorem perform_offered (vs : List k.Value) (h : start + vs.length ≤ m.cellCount) :
    m.perform (.writeBatch k start (vs.map k.offer)) =
      (m.putCells (m.prefixCells + start) (vs.map k.encode),
        { value := .ok .done, events := [.writing vs.length start] }) := by
  have hcells : (vs.map k.offer).map k.cellOf = vs.map k.encode := by
    rw [List.map_map]
    exact List.map_congr_left fun v _ => k.cellOf_offer v
  have hnone : (Call.writeBatch k start (vs.map k.offer)).refusal m = none := by
    rw [Call.refusal_writeBatch_eq_none, List.length_map]
    refine ⟨?_, h⟩
    intro v hv
    obtain ⟨value, -, rfl⟩ := List.mem_map.1 hv
    exact k.excess_offer value
  rw [m.perform_accepted _ hnone, Call.effect, Call.report, hcells, List.length_map]
  rfl

/-- The memory after the values of a run are written back: each cell of the run has settled. -/
def settled : Memory :=
  m.putCells (m.prefixCells + start) ((m.dataCells start count).map k.settle)

variable (h : start + count ≤ m.cellCount)

include h

theorem perform_writeBack :
    m.perform
        (.writeBatch k start ((k.codec.decodeAll (m.dataCells start count)).value.map k.offer)) =
      (m.settled k start count, { value := .ok .done, events := [.writing count start] }) := by
  have hlength : (k.codec.decodeAll (m.dataCells start count)).value.length = count := by
    rw [k.value_decodeAll, m.length_map_dataCells]
  have hcells : (k.codec.decodeAll (m.dataCells start count)).value.map k.encode =
      (m.dataCells start count).map k.settle := by
    rw [k.value_decodeAll, List.map_map]
    exact List.map_congr_left fun c _ => k.encode_decode c
  rw [m.perform_offered k start _ (by rw [hlength]; exact h), hcells, hlength]
  rfl

theorem dataCell_settled (i : Nat) :
    (m.settled k start count).dataCell i =
      if start ≤ i ∧ i < start + count then k.settle (m.dataCell i) else m.dataCell i := by
  rw [settled, m.dataCell_putCells start i _ (by rw [m.length_map_dataCells]; exact h)]
  by_cases hle : start ≤ i
  · rw [if_pos hle, List.getD_eq_getElem?_getD, List.getElem?_map]
    by_cases hlt : i < start + count
    · rw [if_pos ⟨hle, hlt⟩, m.getElem?_dataCells start count (i - start) (by omega),
        show start + (i - start) = i by omega]
      rfl
    · rw [if_neg (by omega), List.getElem?_eq_none (by rw [length_dataCells]; omega)]
      rfl
  · rw [if_neg hle, if_neg (by omega)]

theorem settled_eq_self (hcells : ∀ c ∈ m.dataCells start count, k.settle c = c) :
    m.settled k start count = m := by
  have hsame : (m.dataCells start count).map k.settle = m.dataCells start count := by
    rw [List.map_congr_left hcells, List.map_id']
  rw [settled, hsame, ← map_cell_runCells]
  exact m.putCells_cells _ _ (m.run_stop_le start count h)

theorem settled_eq_self_iff :
    m.settled k start count = m ↔ ∀ c ∈ m.dataCells start count, k.settle c = c := by
  refine ⟨?_, m.settled_eq_self k start count h⟩
  intro hself c hc
  obtain ⟨i, hfrom, hto, rfl⟩ := (m.mem_dataCells start count c).1 hc
  have hcell := m.dataCell_settled k start count h i
  rw [if_pos ⟨hfrom, hto⟩, hself] at hcell
  exact hcell.symm

theorem settled_settled :
    (m.settled k start count).settled k start count = m.settled k start count := by
  refine settled_eq_self _ k start count h ?_
  intro c hc
  obtain ⟨i, hfrom, hto, rfl⟩ := (mem_dataCells _ start count c).1 hc
  rw [m.dataCell_settled k start count h i, if_pos ⟨hfrom, hto⟩, k.settle_settle]

theorem value_decode_settled (i : Nat) :
    (k.decode ((m.settled k start count).dataCell i)).value = (k.decode (m.dataCell i)).value := by
  rw [m.dataCell_settled k start count h i]
  by_cases hi : start ≤ i ∧ i < start + count
  · rw [if_pos hi, k.value_decode_settle]
  · rw [if_neg hi]

/-- Any run, and not only the one written back, has the values that it had. -/
theorem value_decodeAll_settled (start' count' : Nat) :
    (k.codec.decodeAll ((m.settled k start count).dataCells start' count')).value =
      (k.codec.decodeAll (m.dataCells start' count')).value := by
  simp only [k.value_decodeAll, dataCells, List.map_map]
  apply List.map_congr_left
  intro i _
  exact m.value_decode_settled k start count h i

theorem value_copy_settled (start' count' : Nat) :
    ((m.settled k start count).perform (.copy k start' count')).2.value =
      (m.perform (.copy k start' count')).2.value := by
  rw [value_perform, value_perform, Call.answer, Call.answer,
    m.value_decodeAll_settled k start count h]
  rfl

end Run

/-! ## Booleans -/

section Booleans
variable (start count : Nat) (h : start + count ≤ m.cellCount)

include h

theorem perform_writeBack_boolean :
    m.perform
        (.writeBatch .boolean start (Kind.boolean.codec.decodeAll (m.dataCells start count)).value) =
      (m.settled .boolean start count,
        { value := .ok .done, events := [.writing count start] }) := by
  have hback := m.perform_writeBack .boolean start count h
  rw [show Kind.boolean.offer = id from rfl, List.map_id] at hback
  exact hback

theorem bytes_settled_boolean :
    (m.settled .boolean start count).bytes =
      m.bytes.take (4 * (m.prefixCells + start)) ++
        (Kind.uint32.codec.decodeAll (m.dataCells start count)).value.flatMap
          (fun w => List.replicate 4 (if w = 0 then 0x00 else 0xFF)) ++
        m.bytes.drop (4 * (m.prefixCells + start + count)) := by
  have hlength := m.length_map_dataCells start count Kind.boolean.settle
  have hbytes : ((m.dataCells start count).map Kind.boolean.settle).flatMap Cell.bytes =
      (Kind.uint32.codec.decodeAll (m.dataCells start count)).value.flatMap
        (fun w => List.replicate 4 (if w = 0 then 0x00 else 0xFF)) := by
    simp only [Kind.uint32.value_decodeAll, List.flatMap_map, Kind.bytes_settle]
    rfl
  rw [settled, m.bytes_putCells _ _ (by rw [hlength]; exact m.run_stop_le start count h), hlength,
    hbytes, Nat.mul_comm 4, Nat.mul_comm 4]
  rfl

theorem bytes_settled_boolean_iff :
    (m.settled .boolean start count).bytes = m.bytes ↔
      ∀ w ∈ (Kind.uint32.codec.decodeAll (m.dataCells start count)).value, w = 0 ∨ w = 0xFFFFFFFF := by
  have hself : (m.settled .boolean start count).bytes = m.bytes ↔
      m.settled .boolean start count = m :=
    ⟨eq_of_bytes _ m rfl, congrArg bytes⟩
  rw [hself, m.settled_eq_self_iff .boolean start count h]
  simp only [Kind.settle_eq_self_iff, Kind.uint32.value_decodeAll, List.forall_mem_map]
  rfl

end Booleans

/-! ## Everything together -/

/-- The values of a run of data cells, copied or viewed and then written back to the run as a batch of
the same kind. The batch succeeds. As integers and as raw cells it changes nothing, whatever the cells
hold. As booleans it puts the pattern of all ones for each word but zero and leaves everything else,
so it changes nothing just if every word of the run is zero or all ones. After it, every run is copied
as the same booleans as before it, and a second round changes nothing more. A header that was read can
be written back as well, and nothing changes. -/
theorem written_back :
    (∀ (k : Kind) (inPlace : k ≠ .boolean) (start count : Nat), start + count ≤ m.cellCount →
      ∃ vs, (m.perform (.copy k start count)).2.value = .ok (.values k vs) ∧
        (m.perform (.view k start count inPlace)).2.value = .ok (.values k vs) ∧
        (m.perform (.writeBatch k start (vs.map k.offer))).2.value = .ok .done ∧
        (m.perform (.writeBatch k start (vs.map k.offer))).1 = m) ∧
    (∀ start count : Nat, start + count ≤ m.cellCount →
      ∃ bs ws, (m.perform (.copy .boolean start count)).2.value = .ok (.values .boolean bs) ∧
        (m.perform (.copy .uint32 start count)).2.value = .ok (.values .uint32 ws) ∧
        (m.perform (.writeBatch .boolean start bs)).2.value = .ok .done ∧
        let once := (m.perform (.writeBatch .boolean start bs)).1
        once.bytes =
          m.bytes.take (4 * (m.prefixCells + start)) ++
            ws.flatMap (fun w => List.replicate 4 (if w = 0 then 0x00 else 0xFF)) ++
            m.bytes.drop (4 * (m.prefixCells + start + count)) ∧
        (once.bytes = m.bytes ↔ ∀ w ∈ ws, w = 0 ∨ w = 0xFFFFFFFF) ∧
        (∀ start' count', (once.perform (.copy .boolean start' count')).2.value =
          (m.perform (.copy .boolean start' count')).2.value) ∧
        (once.perform (.writeBatch .boolean start bs)).2.value = .ok .done ∧
        (once.perform (.writeBatch .boolean start bs)).1 = once) ∧
    ∀ h : Header, (m.perform .readHeader).2.value = .ok (.header h) →
      (m.perform (.writeHeader h)).2.value = .ok .done ∧ (m.perform (.writeHeader h)).1 = m := by
  refine ⟨?_, ?_, ?_⟩
  · intro k inPlace start count h
    have hcopy := (m.value_copy_eq_ok k start count _).2 ⟨h, rfl⟩
    have hback := m.perform_writeBack k start count h
    refine ⟨_, hcopy, ?_, ?_, ?_⟩
    · rw [m.reply_view k start count inPlace, hcopy]
    · rw [hback]
    · rw [hback]
      exact m.settled_eq_self k start count h fun c _ => k.settle_of_ne inPlace c
  · intro start count h
    have hback := m.perform_writeBack_boolean start count h
    have hagain := (m.settled .boolean start count).perform_writeBack_boolean start count h
    rw [m.value_decodeAll_settled .boolean start count h, m.settled_settled .boolean start count h]
      at hagain
    refine ⟨_, _, (m.value_copy_eq_ok .boolean start count _).2 ⟨h, rfl⟩,
      (m.value_copy_eq_ok .uint32 start count _).2 ⟨h, rfl⟩, ?_, ?_⟩
    · rw [hback]
    · rw [hback]
      refine ⟨m.bytes_settled_boolean start count h, m.bytes_settled_boolean_iff start count h,
        m.value_copy_settled .boolean start count h, ?_, ?_⟩
      · exact congrArg (fun r => r.2.value) hagain
      · exact congrArg Prod.fst hagain
  · intro h hread
    obtain ⟨hrefusal, hanswer⟩ := (m.value_perform_eq_ok .readHeader _).1 hread
    have hheader : m.header = h := by
      injection hanswer
    have hnone : (Call.writeHeader h).refusal m = none := hrefusal
    rw [m.perform_accepted _ hnone, Call.effect_eq, ← hheader]
    exact ⟨rfl, m.putCells_header (m.headerRefusal_eq_none.1 hrefusal)⟩

/-- A header of sevens and the words `1`, `0` and `2 ^ 32 - 1`: the integers and the header change
nothing, and the booleans change the first word only. -/
theorem written_back_three_cells :
    ∃ m, (ofBytes (List.replicate 12 7 ++ [1, 0, 0, 0, 0, 0, 0, 0, 255, 255, 255, 255]) default).value =
        .ok m ∧
      (∃ vs, (m.perform (.view .int32 0 3 (by decide))).2.value = .ok (.values .int32 vs) ∧
        (m.perform (.writeBatch .int32 0 (vs.map Kind.int32.offer))).1 = m) ∧
      (∃ bs, (m.perform (.copy .boolean 0 3)).2.value = .ok (.values .boolean bs) ∧
        (m.perform (.writeBatch .boolean 0 bs)).1.bytes =
          List.replicate 12 7 ++ [255, 255, 255, 255, 0, 0, 0, 0, 255, 255, 255, 255] ∧
        (m.perform (.writeBatch .boolean 0 bs)).1.bytes ≠ m.bytes) ∧
      ∃ h, (m.perform .readHeader).2.value = .ok (.header h) ∧
        (m.perform (.writeHeader h)).1 = m := by
  obtain ⟨m, hm, hcount, hwidth, hwords⟩ : ∃ m, (ofBytes (List.replicate 12 7 ++
      [1, 0, 0, 0, 0, 0, 0, 0, 255, 255, 255, 255]) default).value = .ok m ∧ m.cellCount = 3 ∧
      m.prefixCells = 3 ∧
      (Kind.uint32.codec.decodeAll (m.dataCells 0 3)).value = [1, 0, 4294967295] :=
    ⟨_, rfl, rfl, rfl, by decide +kernel⟩
  have hbytes := ((ofBytes_eq_ok _ default m).1 hm).2
  have hread := m.perform_readHeader (Nat.le_of_eq hwidth.symm)
  obtain ⟨hvalues, hbooleans, hheader⟩ := m.written_back
  obtain ⟨vs, -, hview, -, hsame⟩ := hvalues .int32 (by decide) 0 3 (Nat.le_of_eq hcount.symm)
  obtain ⟨bs, ws, hcopy, hws, -, hlast, hiff, -⟩ := hbooleans 0 3 (Nat.le_of_eq hcount.symm)
  have hthree := ((m.value_copy_eq_ok .uint32 0 3 _).1 hws).2
  rw [hwords] at hthree
  cases hthree
  refine ⟨m, hm, ⟨vs, hview, hsame⟩, ⟨bs, hcopy, ?_, ?_⟩, _, hread, (hheader _ hread).2⟩
  · rw [hlast, hbytes, hwidth]
    rfl
  · rw [Ne, hiff]
    intro hcanonical
    exact absurd (hcanonical 1 List.mem_cons_self) (by decide)

end Memory

end CellMemory
