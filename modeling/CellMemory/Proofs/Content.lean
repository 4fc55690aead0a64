import CellMemory.Header
import CellMemory.Proofs.Placement

/-! # The content of a memory, cell by cell

Every change to a memory puts whole cells at a place counted in cells, in the prefix or among the
data. So a memory is read here as a row of cells, and a change as a new value for some of them.

* `Buffer.byte_store_of_lt`, `Buffer.byte_store_of_outside`: stored bytes are found at their
  positions, and all others are what they were.
* `Memory.putCells`, `Memory.cell_putCells`: the same for cells at their places.
* `Memory.dataCell`: a data cell; `Memory.bytes_dataCell` finds its bytes in the whole buffer.
* `Header.bytes_eq`: a header is three cells.
-/

namespace CellMemory
set_option autoImplicit false

/-! ## Bytes and cells of a buffer -/

namespace Buffer

variable (b : Buffer)

theorem store_append (position : Nat) (xs ys : List UInt8) :
    b.store position (xs ++ ys) = (b.store position xs).store (position + xs.length) ys := by
  induction xs generalizing b position with
  | nil => rfl
  | cons x xs ih =>
    rw [List.cons_append, store, ih, store, List.length_cons,
      show position + 1 + xs.length = position + (xs.length + 1) by omega]

theorem byte_set (position n : Nat) (byte : UInt8) (h : position < b.size) :
    (b.set position byte).byte n = if n = position then byte else b.byte n := by
  have hlen : position < b.toList.length := by rw [length_toList]; exact h
  rw [byte_eq, toList_set, byte_eq, List.getD_eq_getElem?_getD, List.getElem?_set,
    List.getD_eq_getElem?_getD]
  by_cases hn : n = position
  · subst hn
    rw [if_pos rfl, if_pos hlen, if_pos rfl, Option.getD_some]
  · rw [if_neg (Ne.symm hn), if_neg hn]

theorem byte_store_of_outside (position n : Nat) (bytes : List UInt8)
    (h : position + bytes.length ≤ b.size) (hn : n < position ∨ position + bytes.length ≤ n) :
    (b.store position bytes).byte n = b.byte n := by
  induction bytes generalizing b position with
  | nil => rfl
  | cons x bytes ih =>
    rw [List.length_cons] at h hn
    rw [store, ih (b.set position x) (position + 1) (by rw [size_set]; omega) (by omega),
      b.byte_set position n x (by omega), if_neg (by omega)]

theorem byte_store_of_lt (position k : Nat) (bytes : List UInt8)
    (h : position + bytes.length ≤ b.size) (hk : k < bytes.length) :
    (b.store position bytes).byte (position + k) = bytes[k] := by
  induction bytes generalizing b position k with
  | nil => cases hk
  | cons x bytes ih =>
    rw [List.length_cons] at h hk
    rw [store]
    cases k with
    | zero =>
      rw [byte_store_of_outside _ _ _ _ (by rw [size_set]; omega) (by omega),
        b.byte_set position _ x (by omega), if_pos (Nat.add_zero _)]
      rfl
    | succ k =>
      rw [show position + (k + 1) = position + 1 + k by omega,
        ih (b.set position x) (position + 1) k (by rw [size_set]; omega) (by omega)]
      rfl

theorem cell_store (place n : Nat) (c : Cell) (h : (place + 1) * Cell.size ≤ b.size) :
    (b.store (place * Cell.size) c.bytes).cell n = if n = place then c else b.cell n := by
  have hfit : place * Cell.size + c.bytes.length ≤ b.size := by
    rw [Cell.length_bytes, ← Nat.succ_mul]
    exact h
  by_cases hn : n = place
  · subst hn
    have hbyte (k : Nat) (hk : k < Cell.size) :
        (b.store (n * Cell.size) c.bytes).byte (Cell.size * n + k) = c.bytes.get ⟨k, hk⟩ := by
      rw [Nat.mul_comm Cell.size n]
      exact b.byte_store_of_lt _ k c.bytes hfit hk
    have h0 := hbyte 0 (by decide)
    rw [Nat.add_zero] at h0
    rw [if_pos rfl, cell, h0, hbyte 1 (by decide), hbyte 2 (by decide), hbyte 3 (by decide)]
    rfl
  · have hbyte (k : Nat) (hk : k < Cell.size) :
        (b.store (place * Cell.size) c.bytes).byte (Cell.size * n + k) =
          b.byte (Cell.size * n + k) := by
      apply b.byte_store_of_outside _ _ c.bytes hfit
      simp only [Cell.length_bytes, Cell.size] at hk ⊢
      omega
    have h0 := hbyte 0 (by decide)
    rw [Nat.add_zero] at h0
    rw [if_neg hn, cell, h0, hbyte 1 (by decide), hbyte 2 (by decide), hbyte 3 (by decide), cell]

theorem bytes_cell (n : Nat) (h : (n + 1) * Cell.size ≤ b.size) :
    (b.cell n).bytes = (b.toList.drop (n * Cell.size)).take Cell.size := by
  have hlen : n * 4 + 4 ≤ b.toList.length := by
    rw [length_toList]
    simp only [Cell.size] at h
    omega
  simp only [Cell.bytes, cell, byte_eq, Cell.size, Nat.mul_comm 4 n]
  rw [List.drop_eq_getElem_cons (by omega), List.drop_eq_getElem_cons (by omega),
    List.drop_eq_getElem_cons (by omega), List.drop_eq_getElem_cons (by omega)]
  simp only [List.take_succ_cons, List.take_zero, List.getD_eq_getElem?_getD]
  rw [List.getElem?_eq_getElem (by omega), List.getElem?_eq_getElem (by omega),
    List.getElem?_eq_getElem (by omega), List.getElem?_eq_getElem (by omega)]
  rfl

theorem slice_cell (n : Nat) (h : (n + 1) * Cell.size ≤ b.size) :
    b.slice ⟨n * Cell.size, (n + 1) * Cell.size⟩ = (b.cell n).bytes := by
  rw [slice_eq, bytes_cell b n h, Extent.length,
    show (n + 1) * Cell.size - n * Cell.size = Cell.size by simp only [Cell.size]; omega]

theorem chunk_slice (place count : Nat) (h : (place + count) * Cell.size ≤ b.size) :
    Cell.chunk (b.slice ⟨place * Cell.size, (place + count) * Cell.size⟩) =
      (List.range' place count).map b.cell := by
  induction count generalizing place with
  | zero => simp [slice_eq, Extent.length, Cell.chunk]
  | succ count ih =>
    have hsplit : b.slice ⟨place * Cell.size, (place + (count + 1)) * Cell.size⟩ =
        (b.cell place).bytes ++
          b.slice ⟨(place + 1) * Cell.size, (place + 1 + count) * Cell.size⟩ := by
      rw [bytes_cell b place (by simp only [Cell.size] at h ⊢; omega), slice_eq, slice_eq,
        Extent.length, Extent.length,
        show (place + (count + 1)) * Cell.size - place * Cell.size =
          Cell.size + ((place + 1 + count) * Cell.size - (place + 1) * Cell.size) by
            simp only [Cell.size]; omega,
        List.take_add, List.drop_drop,
        show place * Cell.size + Cell.size = (place + 1) * Cell.size by
          simp only [Cell.size]; omega]
    rw [hsplit, Cell.chunk_bytes_append, List.range'_succ, List.map_cons,
      ih (place + 1) (by simp only [Cell.size] at h ⊢; omega)]

end Buffer

theorem Cell.flatMap_bytes_chunk (bs : List UInt8) (h : bs.length % Cell.size = 0) :
    (chunk bs).flatMap bytes = bs := by
  induction bs using chunk.induct with
  | case1 b0 b1 b2 b3 rest ih =>
    have hrest : rest.length % Cell.size = 0 := by
      simp only [List.length_cons, Cell.size] at h ⊢
      omega
    rw [chunk, List.flatMap_cons, ih hrest]
    rfl
  | case2 bs hshort =>
    rcases bs with _ | ⟨b0, _ | ⟨b1, _ | ⟨b2, _ | ⟨b3, rest⟩⟩⟩⟩
    · rfl
    · cases h
    · cases h
    · cases h
    · exact absurd rfl (hshort b0 b1 b2 b3 rest)

/-! ## Headers as cells -/

theorem LittleEndian.digits_word (w : UInt32) :
    LittleEndian.digits Cell.size w.toNat = (Cell.ofWord w).bytes := by
  simp only [Cell.size, LittleEndian.digits, Cell.ofWord, Cell.bytes, Nat.div_div_eq_div_mul]

theorem Header.bytes_eq (h : Header) :
    h.bytes = [Cell.ofWord h.memberId, Cell.ofWord h.cellCount,
      Cell.ofWord h.reserved].flatMap Cell.bytes := by
  simp only [Header.bytes, List.flatMap_cons, LittleEndian.digits_word]
  rfl

/-! ## Changes to a memory -/

namespace Memory

variable (m : Memory)

@[simp] theorem cellCount_store (position : Nat) (bytes : List UInt8) :
    (m.store position bytes).cellCount = m.cellCount := rfl

@[simp] theorem layout_store (position : Nat) (bytes : List UInt8) :
    (m.store position bytes).layout = m.layout := rfl

/-- The memory with cells put at a place of the buffer, which is counted in cells. -/
def putCells (place : Nat) (cells : List Cell) : Memory :=
  m.store (place * Cell.size) (cells.flatMap Cell.bytes)

@[simp] theorem cellCount_putCells (place : Nat) (cells : List Cell) :
    (m.putCells place cells).cellCount = m.cellCount := rfl

@[simp] theorem layout_putCells (place : Nat) (cells : List Cell) :
    (m.putCells place cells).layout = m.layout := rfl

@[simp] theorem prefixCells_putCells (place : Nat) (cells : List Cell) :
    (m.putCells place cells).prefixCells = m.prefixCells := rfl

@[simp] theorem size_putCells (place : Nat) (cells : List Cell) :
    (m.putCells place cells).buffer.size = m.buffer.size :=
  Buffer.size_store _ _ _

@[simp] theorem putCells_nil (place : Nat) : m.putCells place [] = m := rfl

theorem putCells_singleton (place : Nat) (c : Cell) :
    m.putCells place [c] = m.store (place * Cell.size) c.bytes := by
  simp only [putCells, List.flatMap_cons, List.flatMap_nil, List.append_nil]

theorem store_append (position : Nat) (xs ys : List UInt8) :
    m.store position (xs ++ ys) = (m.store position xs).store (position + xs.length) ys :=
  Memory.ext (m.buffer.store_append position xs ys) rfl rfl

theorem putCells_cons (place : Nat) (c : Cell) (cells : List Cell) :
    m.putCells place (c :: cells) = (m.putCells place [c]).putCells (place + 1) cells := by
  rw [putCells_singleton, putCells, putCells, List.flatMap_cons, store_append, Cell.length_bytes,
    show place * Cell.size + Cell.size = (place + 1) * Cell.size by rw [Nat.succ_mul]]

/-- Cells put at a place are found there one after the other. Nothing else changes. -/
theorem cell_putCells (place n : Nat) (cells : List Cell)
    (h : (place + cells.length) * Cell.size ≤ m.buffer.size) :
    (m.putCells place cells).buffer.cell n =
      if place ≤ n then cells.getD (n - place) (m.buffer.cell n) else m.buffer.cell n := by
  induction cells generalizing m place with
  | nil => simp
  | cons c cells ih =>
    have hone : ((place + 1) * Cell.size) ≤ m.buffer.size := by
      simp only [List.length_cons, Cell.size] at h ⊢
      omega
    have hput : (m.putCells place [c]).buffer.cell n = if n = place then c else m.buffer.cell n := by
      rw [← m.buffer.cell_store place n c hone, putCells_singleton, store]
    rw [putCells_cons, ih (m.putCells place [c]) (place + 1) (by
      rw [size_putCells]
      simp only [List.length_cons, Cell.size] at h ⊢
      omega), hput]
    by_cases hn : n = place
    · subst hn
      rw [if_neg (by omega), if_pos rfl, if_pos (Nat.le_refl n), Nat.sub_self, List.getD_cons_zero]
    · rw [if_neg hn]
      by_cases hlt : place + 1 ≤ n
      · rw [if_pos hlt, if_pos (by omega), show n - place = n - (place + 1) + 1 by omega,
          List.getD_cons_succ]
      · rw [if_neg hlt, if_neg (by omega)]

/-! ## Data cells -/

/-- The content of a data cell. -/
def dataCell (i : Nat) : Cell := m.buffer.cell (m.prefixCells + i)

def dataCells (start count : Nat) : List Cell := (List.range' start count).map m.dataCell

theorem map_cell_runCells (start count : Nat) :
    (List.range' (m.prefixCells + start) count).map m.buffer.cell = m.dataCells start count := by
  rw [dataCells, ← List.map_add_range', List.map_map]
  rfl

/-- The bytes of a run, cut into cells again. -/
theorem chunk_runBytes (start count : Nat) (h : start + count ≤ m.cellCount) :
    Cell.chunk (m.buffer.slice (m.runBytes start count)) = m.dataCells start count := by
  rw [runBytes, m.buffer.chunk_slice _ _ (m.run_stop_le start count h), map_cell_runCells]

theorem bytes_dataCell (i : Nat) (h : i < m.cellCount) :
    (m.dataCell i).bytes =
      (m.bytes.drop ((m.prefixCells + i) * Cell.size)).take Cell.size :=
  m.buffer.bytes_cell _ (m.run_stop_le i 1 h)

theorem dataCell_putCells (start i : Nat) (cells : List Cell)
    (h : start + cells.length ≤ m.cellCount) :
    (m.putCells (m.prefixCells + start) cells).dataCell i =
      if start ≤ i then cells.getD (i - start) (m.dataCell i) else m.dataCell i := by
  have hput := m.cell_putCells (m.prefixCells + start) (m.prefixCells + i) cells (m.run_stop_le start _ h)
  simp only [Nat.add_le_add_iff_left, Nat.add_sub_add_left] at hput
  exact hput

theorem dataCell_putCells_prefix (place i : Nat) (cells : List Cell)
    (h : place + cells.length ≤ m.prefixCells) :
    (m.putCells place cells).dataCell i = m.dataCell i := by
  have hsize : (place + cells.length) * Cell.size ≤ m.buffer.size := by
    rw [size_eq]
    exact Nat.mul_le_mul_right _ (by omega)
  have hput := m.cell_putCells place (m.prefixCells + i) cells hsize
  rw [if_pos (by omega), List.getD_eq_getElem?_getD, List.getElem?_eq_none (by omega),
    Option.getD_none] at hput
  exact hput

end Memory

end CellMemory
