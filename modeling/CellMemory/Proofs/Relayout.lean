import CellMemory.Proofs.Batch
import CellMemory.Proofs.LastWrite
import CellMemory.Proofs.PrefixRegion
import CellMemory.Proofs.Transport

/-! # The same bytes under another layout

The layout of a memory says where the data cells start, and nothing about the bytes. So the bytes of a
memory can be taken over under any layout that leaves them room, and then each data cell is found under
another index: the one that leads to the same place.

* `Memory.exists_relayout_iff`: under which layouts.
* `Memory.cells_of_bytes`, `Memory.cell_of_bytes`, `Memory.header_of_bytes`: what memories with the same
  bytes have in common.
* `Memory.reply_read_shifted`, `Memory.write_shifted`: single cells at the same place.
* `Memory.layouts_shift`: these facts for the bytes of a memory that are taken over.
-/

namespace CellMemory.Memory
set_option autoImplicit false

/-- The bytes of a memory are whole cells and fewer than `2 ^ 63`, so only the prefix matters. -/
theorem exists_relayout_iff (m : Memory) (l : Layout) :
    (∃ m', (ofBytes m.bytes l).value = .ok m') ↔ l.prefixCells ≤ m.prefixCells + m.cellCount := by
  have hlength := m.length_bytes
  have hlt : m.bytes.length < cellLimit * Cell.size := by
    rw [hlength]
    exact m.size_lt
  rw [exists_ofBytes_iff m.bytes l hlt, hlength]
  simp only [Cell.size]
  omega

/-! ## Memories with the same bytes -/

section SameBytes
variable (m m' : Memory) (hsame : m.bytes = m'.bytes)

include hsame

theorem cells_of_bytes : m.prefixCells + m.cellCount = m'.prefixCells + m'.cellCount := by
  have hlength := m.length_bytes
  rw [hsame, m'.length_bytes] at hlength
  simp only [Cell.size] at hlength
  omega

theorem cell_of_bytes (n : Nat) : m.buffer.cell n = m'.buffer.cell n := by
  rw [Buffer.ext hsame]

theorem header_of_bytes : m.header = m'.header := by
  simp only [header, m.cell_of_bytes m' hsame]

theorem bytes_store_congr (position : Nat) (bs : List UInt8) :
    (m.store position bs).bytes = (m'.store position bs).bytes :=
  congrArg (fun b : Buffer => (b.store position bs).toList) (Buffer.ext hsame)

/-! ## Data cells at the same place -/

section SamePlace
variable (i i' : Nat) (hplace : m.prefixCells + i = m'.prefixCells + i') (k : Kind)

include hplace

theorem dataCell_of_bytes : m.dataCell i = m'.dataCell i' := by
  unfold dataCell
  rw [hplace, m.cell_of_bytes m' hsame]

theorem bytes_write_effect (v : k.Input) :
    ((Call.write k i v).effect m).bytes = ((Call.write k i' v).effect m').bytes := by
  rw [Call.effect, Call.effect, putCells, putCells, hplace]
  exact m.bytes_store_congr m' hsame _ _

variable (hi : i < m.cellCount) (hi' : i' < m'.cellCount)

include hi hi'

theorem reply_read_shifted : (m.perform (.read k i)).2 = (m'.perform (.read k i')).2 := by
  have hnone : (Call.read k i).refusal m = none := (m.runRefusal_eq_none i 1).2 hi
  have hnone' : (Call.read k i').refusal m' = none := (m'.runRefusal_eq_none i' 1).2 hi'
  have hcell := m.dataCell_of_bytes m' hsame i i' hplace
  rw [m.perform_accepted _ hnone, m'.perform_accepted _ hnone', Call.answer, Call.answer,
    Call.report, Call.report, hcell]

/-- Among the data cells a write can only be refused for a row that is too long, and then it is on
both. -/
theorem write_shifted (v : k.Input) :
    (m.perform (.write k i v)).2 = (m'.perform (.write k i' v)).2 ∧
      (m.perform (.write k i v)).1.bytes = (m'.perform (.write k i' v)).1.bytes := by
  cases hv : k.excess? v with
  | none =>
    have hnone := (Call.refusal_write_eq_none m k i v).2 ⟨hv, hi⟩
    have hnone' := (Call.refusal_write_eq_none m' k i' v).2 ⟨hv, hi'⟩
    rw [m.perform_accepted _ hnone, m'.perform_accepted _ hnone']
    exact ⟨rfl, m.bytes_write_effect m' hsame i i' hplace k v⟩
  | some n =>
    have hlong := Call.refusal_write_of_excess m k i v n hv
    have hlong' := Call.refusal_write_of_excess m' k i' v n hv
    rw [m.perform_refused _ _ hlong, m'.perform_refused _ _ hlong']
    exact ⟨rfl, hsame⟩

end SamePlace

end SameBytes

/-- Take the bytes of a memory over under any layout. This succeeds just if the prefix of the layout is
no longer than all cells of the memory together, and what is left of them are the data cells. The bytes
stay what they are. A data cell of either memory that lies at the same place of the buffer as one of the
other is read alike from both, as a value of any kind, and a value written to it leaves both with the
same bytes again. If both prefixes have room for a header, it is the same header. -/
theorem layouts_shift (m : Memory) (l : Layout) :
    ((∃ m', (ofBytes m.bytes l).value = .ok m') ↔
      l.prefixCells ≤ m.prefixCells + m.cellCount) ∧
    ∀ m', (ofBytes m.bytes l).value = .ok m' →
      m'.layout = l ∧ m'.cellCount = m.prefixCells + m.cellCount - l.prefixCells ∧
      m'.bytes = m.bytes ∧
      (∀ i i', i < m.cellCount → i' < m'.cellCount → m.prefixCells + i = l.prefixCells + i' →
        ∀ k : Kind, (m.perform (.read k i)).2 = (m'.perform (.read k i')).2 ∧
          ∀ v, (m.perform (.write k i v)).2 = (m'.perform (.write k i' v)).2 ∧
            (m.perform (.write k i v)).1.bytes = (m'.perform (.write k i' v)).1.bytes) ∧
      (3 ≤ m.prefixCells → 3 ≤ l.prefixCells →
        ∃ h, (m.perform .readHeader).2.value = .ok (.header h) ∧
          (m'.perform .readHeader).2.value = .ok (.header h)) := by
  refine ⟨m.exists_relayout_iff l, ?_⟩
  intro m' hm'
  obtain ⟨rfl, hbytes⟩ := (ofBytes_eq_ok m.bytes l m').1 hm'
  have hcells := m.cells_of_bytes m' hbytes.symm
  refine ⟨rfl, ?_, hbytes, ?_, ?_⟩
  · change m'.cellCount = m.prefixCells + m.cellCount - m'.prefixCells
    omega
  · intro i i' hi hi' hplace k
    exact ⟨m.reply_read_shifted m' hbytes.symm i i' hplace k hi hi',
      m.write_shifted m' hbytes.symm i i' hplace k hi hi'⟩
  · intro hroom hroom'
    refine ⟨m.header, m.perform_readHeader hroom, ?_⟩
    rw [m'.perform_readHeader hroom', m.header_of_bytes m' hbytes.symm]

/-- Twenty-four bytes, first behind a prefix of four cells and then behind one of three: the first data
cell becomes the second one, and the headers are the same. A prefix of seven cells is too long. -/
theorem layouts_shift_by_one :
    ∃ m m', (ofBytes (List.replicate 16 7 ++ [1, 2, 3, 4, 5, 6, 7, 8]) { prefixCells := 4 }).value =
        .ok m ∧
      (ofBytes m.bytes default).value = .ok m' ∧ m'.cellCount = 3 ∧
      (m.perform (.read .int32 0)).2 = (m'.perform (.read .int32 1)).2 ∧
      (m.perform (.write .raw 1 [9])).1.bytes = (m'.perform (.write .raw 2 [9])).1.bytes ∧
      (∃ h, (m.perform .readHeader).2.value = .ok (.header h) ∧
        (m'.perform .readHeader).2.value = .ok (.header h)) ∧
      ¬ ∃ m'', (ofBytes m.bytes { prefixCells := 7 }).value = .ok m'' := by
  obtain ⟨m, hm, hlayout, -⟩ := exists_ofBytes
    (List.replicate 16 7 ++ [1, 2, 3, 4, 5, 6, 7, 8]) { prefixCells := 4 } 2 rfl (by decide)
  have hcount : m.cellCount = 2 := cellCount_ofBytes _ _ m hm
  have hwidth : m.prefixCells = 4 := congrArg Layout.prefixCells hlayout
  obtain ⟨hmade, hshift⟩ := m.layouts_shift default
  obtain ⟨hlong, -⟩ := m.layouts_shift { prefixCells := 7 }
  obtain ⟨m', hm'⟩ := hmade.2 (by rw [hwidth, hcount]; decide)
  obtain ⟨-, hcount', -, hcells, hheader⟩ := hshift m' hm'
  rw [hwidth, hcount] at hcount' hlong
  rw [hcount, hcount', hwidth] at hcells
  refine ⟨m, m', hm, hm', hcount', ?_, ?_, hheader (by omega) (by decide), ?_⟩
  · exact (hcells 0 1 (by decide) (by decide) rfl .int32).1
  · exact ((hcells 1 2 (by decide) (by decide) rfl .raw).2 [9]).2
  · rw [hlong]
    decide

end CellMemory.Memory
