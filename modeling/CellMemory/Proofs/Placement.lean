import CellMemory.Memory.Access

/-! # Where the cells of a memory lie

The checks on a run of data cells, computed out over the natural numbers.

* `Layout.cellExtent?_eq_some`: the five checks on a run come to two inequalities.
* `Layout.cellExtent_eq`, `Layout.byteExtent_eq`: what follows for the places in cells and in bytes.
* `Memory.cellExtent_of_le`, `Memory.byteExtent_of_le`: on a memory a run among the data cells has
  a place, and nothing overflows on the way to it.
* `Memory.cellExtent_of_lt`, `Memory.byteExtent_of_lt`: any other run is out of bounds.
* `Memory.inside_run`: the place lies in the buffer.
-/

namespace CellMemory
set_option autoImplicit false

/-! ## Checked sizes -/

theorem Size.add?_eq_some (a b n : Nat) : Size.add? a b = some n ↔ a + b ≤ Size.limit ∧ a + b = n :=
  Size.fit?_eq_some

theorem Size.mul?_eq_some (a b n : Nat) : Size.mul? a b = some n ↔ a * b ≤ Size.limit ∧ a * b = n :=
  Size.fit?_eq_some

/-! ## Layouts -/

theorem Layout.prefixBytes_eq (l : Layout) :
    l.prefixBytes = min (l.prefixCells * Cell.size) Size.limit := rfl

/-- Where the sum is cut off, the product is cut off anyway. -/
theorem Layout.totalBytes_eq (l : Layout) (cellCount : Nat) :
    l.totalBytes cellCount = min ((l.prefixCells + cellCount) * Cell.size) Size.limit := by
  simp only [totalBytes, totalCells, Size.mulSat, Size.addSat, Cell.size]
  omega

/-- A run has a place exactly when it lies among the data cells and the byte past it has a
position. The sums before the last product fit because that product does. -/
theorem Layout.cellExtent?_eq_some (l : Layout) (cellCount index count : Nat) (e : Extent) :
    l.cellExtent? cellCount index count = some e ↔
      index + count ≤ cellCount ∧ (l.prefixCells + index + count) * Cell.size ≤ Size.limit ∧
        e = ⟨l.prefixCells + index, l.prefixCells + index + count⟩ := by
  simp only [cellExtent?, Option.bind_eq_bind, Option.bind_eq_some_iff, Size.add?_eq_some,
    Cell.size]
  constructor
  · rintro ⟨last, ⟨-, rfl⟩, h⟩
    by_cases hlast : cellCount < index + count
    · rw [if_pos hlast] at h
      cases h
    · rw [if_neg hlast] at h
      simp only [pure, Option.bind_eq_some_iff, Size.add?_eq_some, Size.mul?_eq_some] at h
      obtain ⟨start, ⟨-, rfl⟩, stop, ⟨-, rfl⟩, n, ⟨hfit, -⟩, he⟩ := h
      exact ⟨by omega, hfit, (Option.some.inj he).symm⟩
  · rintro ⟨hle, hfit, rfl⟩
    refine ⟨index + count, ⟨by omega, rfl⟩, ?_⟩
    rw [if_neg (by omega)]
    simp only [pure, Option.bind_eq_some_iff, Size.add?_eq_some, Size.mul?_eq_some]
    exact ⟨_, ⟨by omega, rfl⟩, _, ⟨by omega, rfl⟩, _, ⟨hfit, rfl⟩, rfl⟩

theorem Layout.cellExtent_eq (l : Layout) (cellCount index count : Nat) :
    l.cellExtent cellCount index count =
      if index + count ≤ cellCount ∧ (l.prefixCells + index + count) * Cell.size ≤ Size.limit then
        .ok ⟨l.prefixCells + index, l.prefixCells + index + count⟩
      else .error (.outOfBounds index count cellCount) := by
  by_cases h : index + count ≤ cellCount ∧
      (l.prefixCells + index + count) * Cell.size ≤ Size.limit
  · rw [if_pos h, cellExtent, (l.cellExtent?_eq_some _ _ _ _).2 ⟨h.1, h.2, rfl⟩]
  · have hnone : l.cellExtent? cellCount index count = none := by
      rw [Option.eq_none_iff_forall_ne_some]
      intro e he
      obtain ⟨hle, hfit, -⟩ := (l.cellExtent?_eq_some cellCount index count e).1 he
      exact h ⟨hle, hfit⟩
    rw [if_neg h, cellExtent, hnone]

theorem Extent.inBytes?_eq_some (e : Extent) (hstart : e.start ≤ e.stop)
    (hstop : e.stop * Cell.size ≤ Size.limit) :
    e.inBytes? = some ⟨e.start * Cell.size, e.stop * Cell.size⟩ := by
  have h : e.start * Cell.size ≤ Size.limit :=
    Nat.le_trans (Nat.mul_le_mul_right Cell.size hstart) hstop
  rw [inBytes?, (Size.mul?_eq_some _ _ _).2 ⟨h, rfl⟩, (Size.mul?_eq_some _ _ _).2 ⟨hstop, rfl⟩]
  rfl

/-- A run whose cells have places has places for its bytes: both products fit if the last one does. -/
theorem Layout.byteExtent_eq (l : Layout) (cellCount index count : Nat) :
    l.byteExtent cellCount index count =
      if index + count ≤ cellCount ∧ (l.prefixCells + index + count) * Cell.size ≤ Size.limit then
        .ok ⟨(l.prefixCells + index) * Cell.size, (l.prefixCells + index + count) * Cell.size⟩
      else .error (.fault (.outOfBounds index count cellCount)) := by
  rw [byteExtent, cellExtent_eq]
  by_cases h : index + count ≤ cellCount ∧
      (l.prefixCells + index + count) * Cell.size ≤ Size.limit
  · have hbytes := Extent.inBytes?_eq_some
      ⟨l.prefixCells + index, l.prefixCells + index + count⟩ (Nat.le_add_right _ _) h.2
    rw [if_pos h, if_pos h]
    simp only [hbytes]
  · rw [if_neg h, if_neg h]

namespace Memory

variable (m : Memory) (index count : Nat)

/-! ## Sizes of a memory -/

theorem size_lt : (m.prefixCells + m.cellCount) * Cell.size < cellLimit * Cell.size :=
  Nat.mul_lt_mul_of_pos_right m.cells_lt (by decide)

theorem size_eq : m.buffer.size = (m.prefixCells + m.cellCount) * Cell.size := m.size_buffer

theorem length_bytes : m.bytes.length = (m.prefixCells + m.cellCount) * Cell.size := by
  rw [bytes, Buffer.length_toList, size_eq]

theorem cells_eq : m.cells = m.prefixCells + m.cellCount := by
  rw [cells, size_eq, Nat.mul_div_cancel _ (by decide)]

theorem size_le_limit : m.buffer.size ≤ Size.limit := by
  have h := m.size_lt
  rw [size_eq]
  exact Nat.le_trans (Nat.le_of_lt h) (by decide)

theorem layout_prefixBytes : m.layout.prefixBytes = m.prefixCells * Cell.size := by
  have h := m.size_le_limit
  rw [size_eq, Nat.add_mul] at h
  exact (Layout.prefixBytes_eq _).trans (Nat.min_eq_left (Nat.le_trans (Nat.le_add_right _ _) h))

theorem layout_totalBytes :
    m.layout.totalBytes m.cellCount = (m.prefixCells + m.cellCount) * Cell.size := by
  have h := m.size_le_limit
  rw [size_eq] at h
  exact (Layout.totalBytes_eq _ _).trans (Nat.min_eq_left h)

theorem inside_eq_ok (e : Extent) (h : e.Inside m.buffer.size) : m.inside e = .ok () := if_pos h

/-! ## Runs of data cells -/

/-- The place of a run of data cells, in cells of the buffer. -/
def runCells : Extent := ⟨m.prefixCells + index, m.prefixCells + index + count⟩

/-- The place of a run of data cells, in bytes of the buffer. -/
def runBytes : Extent :=
  ⟨(m.prefixCells + index) * Cell.size, (m.prefixCells + index + count) * Cell.size⟩

theorem run_stop_le (h : index + count ≤ m.cellCount) :
    (m.prefixCells + index + count) * Cell.size ≤ m.buffer.size := by
  rw [size_eq]
  exact Nat.mul_le_mul_right Cell.size (by omega)

theorem run_fits (h : index + count ≤ m.cellCount) :
    (m.prefixCells + index + count) * Cell.size ≤ Size.limit :=
  Nat.le_trans (m.run_stop_le index count h) m.size_le_limit

theorem cellExtent_of_le (h : index + count ≤ m.cellCount) :
    m.layout.cellExtent m.cellCount index count = .ok (m.runCells index count) := by
  rw [Layout.cellExtent_eq, if_pos ⟨h, m.run_fits index count h⟩]
  rfl

theorem cellExtent_of_lt (h : m.cellCount < index + count) :
    m.layout.cellExtent m.cellCount index count =
      .error (.outOfBounds index count m.cellCount) := by
  rw [Layout.cellExtent_eq, if_neg fun hrun => Nat.not_lt.2 hrun.1 h]

theorem byteExtent_of_le (h : index + count ≤ m.cellCount) :
    m.layout.byteExtent m.cellCount index count = .ok (m.runBytes index count) := by
  rw [Layout.byteExtent_eq, if_pos ⟨h, m.run_fits index count h⟩]
  rfl

theorem byteExtent_of_lt (h : m.cellCount < index + count) :
    m.layout.byteExtent m.cellCount index count =
      .error (.fault (.outOfBounds index count m.cellCount)) := by
  rw [Layout.byteExtent_eq, if_neg fun hrun => Nat.not_lt.2 hrun.1 h]

theorem inside_run (h : index + count ≤ m.cellCount) :
    (m.runBytes index count).Inside m.buffer.size :=
  ⟨Nat.mul_le_mul_right Cell.size (Nat.le_add_right _ _), m.run_stop_le index count h⟩

theorem inside_runCells (h : index + count ≤ m.cellCount) :
    (m.runCells index count).Inside m.cells := by
  rw [cells_eq]
  exact ⟨Nat.le_add_right _ _, by simp only [runCells]; omega⟩

theorem length_runBytes : (m.runBytes index count).length = count * Cell.size := by
  simp only [runBytes, Extent.length, Cell.size]
  omega

theorem cellStarts_runBytes :
    (m.runBytes index count).cellStarts =
      List.range' ((m.prefixCells + index) * Cell.size) count Cell.size := by
  rw [Extent.cellStarts, length_runBytes, Nat.mul_div_cancel _ (by decide), runBytes]

/-! ## The header -/

theorem inside_header (h : Header.cells ≤ m.prefixCells) :
    (⟨0, Header.size⟩ : Extent).Inside m.buffer.size := by
  rw [size_eq]
  exact ⟨Nat.zero_le _, Nat.mul_le_mul_right Cell.size (by omega)⟩

end Memory

end CellMemory
