import CellMemory.Proofs.Content

/-! # Where memories come from

A memory is made of zeros or of given bytes. Its layout and its bytes are all there is to it, so
making one succeeds exactly when there is a memory with that layout and these bytes.

* `Memory.eq_of_bytes`, `Memory.eq_of_cells`: memories with one layout and the same bytes, or the same
  cells, are the same.
* `Memory.allocate_of_le`, `Memory.allocate_eq_ok`, `Memory.ofBytes_eq_ok`,
  `Memory.ofBytes_ne_panic`: when memories are made, and what can go wrong.
* `Origin`: either way of making a memory, with the content it starts from.
-/

namespace CellMemory
set_option autoImplicit false

/-! ## Sizes of new memories -/

theorem Layout.totalCells_lt (l : Layout) (cellCount : Nat) :
    l.totalCells cellCount < Memory.cellLimit ↔ l.prefixCells + cellCount < Memory.cellLimit := by
  -- a sum that is cut off is cut off at a number far above this limit
  simp only [totalCells, Size.addSat, Size.limit, Memory.cellLimit]
  omega

theorem Layout.cellCountFor_eq_ok (l : Layout) (length cellCount : Nat) :
    l.cellCountFor length = .ok cellCount ↔
      l.prefixCells * Cell.size ≤ Size.limit ∧
        length = (l.prefixCells + cellCount) * Cell.size := by
  unfold cellCountFor
  by_cases hfits : l.prefixCells * Cell.size ≤ Size.limit
  · rw [(Size.mul?_eq_some _ _ _).2 ⟨hfits, rfl⟩]
    dsimp only
    by_cases hbad : length % Cell.size ≠ 0 ∨ length < l.prefixCells * Cell.size
    · rw [if_pos hbad]
      simp only [Cell.size, reduceCtorEq, false_iff, not_and] at hbad ⊢
      omega
    · rw [if_neg hbad]
      simp only [Except.ok.injEq, hfits, true_and]
      simp only [Cell.size] at hbad ⊢
      omega
  · have hnone : Size.mul? l.prefixCells Cell.size = none :=
      Size.fit?_eq_none.2 (Nat.lt_of_not_le hfits)
    rw [hnone]
    simp only [reduceCtorEq, hfits, false_and]

namespace Memory

/-! ## Memories by their bytes -/

theorem eq_of_bytes (m m' : Memory) (hlayout : m.layout = m'.layout) (hbytes : m.bytes = m'.bytes) :
    m = m' := by
  have hlength := m.length_bytes
  rw [hbytes, m'.length_bytes, prefixCells, prefixCells, hlayout, Cell.size] at hlength
  exact Memory.ext (Buffer.ext hbytes) (by omega) hlayout

theorem bytes_eq_flatMap (m : Memory) :
    m.bytes =
      ((List.range' 0 (m.prefixCells + m.cellCount)).map m.buffer.cell).flatMap Cell.bytes := by
  have hsize : (0 + (m.prefixCells + m.cellCount)) * Cell.size = m.buffer.size := by
    rw [size_eq, Nat.zero_add]
  have hwhole : m.buffer.slice
      ⟨0 * Cell.size, (0 + (m.prefixCells + m.cellCount)) * Cell.size⟩ = m.bytes := by
    rw [Buffer.slice_eq, Extent.length, hsize, Nat.zero_mul, List.drop_zero, Nat.sub_zero]
    exact List.take_of_length_le (Nat.le_of_eq m.buffer.length_toList)
  have hlength : m.bytes.length % Cell.size = 0 := by
    rw [length_bytes, Nat.mul_mod_left]
  rw [← m.buffer.chunk_slice 0 _ (Nat.le_of_eq hsize), hwhole, Cell.flatMap_bytes_chunk _ hlength]

/-- A memory is its layout and its cells, those of the prefix and the data cells. -/
theorem eq_of_cells (m m' : Memory) (hlayout : m.layout = m'.layout)
    (hcount : m.cellCount = m'.cellCount) (hcells : ∀ n, m.buffer.cell n = m'.buffer.cell n) :
    m = m' := by
  apply eq_of_bytes m m' hlayout
  rw [bytes_eq_flatMap, bytes_eq_flatMap, prefixCells, prefixCells, hlayout, hcount, funext hcells]

theorem bytes_store_all (m : Memory) (bytes : List UInt8) (h : bytes.length = m.buffer.size) :
    (m.store 0 bytes).bytes = bytes := by
  have hstore := m.buffer.toList_store 0 bytes (by omega)
  rw [List.take_zero, List.nil_append, Nat.zero_add, h, ← Buffer.length_toList, List.drop_length,
    List.append_nil] at hstore
  exact hstore

/-! ## Zeroed memories -/

theorem exists_allocate (cellCount : Nat) (l : Layout)
    (h : l.prefixCells + cellCount < cellLimit) :
    ∃ m, (allocate cellCount l).value = .ok m ∧ m.layout = l ∧ m.cellCount = cellCount ∧
      m.bytes = List.replicate ((l.prefixCells + cellCount) * Cell.size) 0 := by
  have hlt := (l.totalCells_lt cellCount).2 h
  have hexact : l.totalCells cellCount = l.prefixCells + cellCount :=
    Size.addSat_eq_of_lt (Nat.lt_trans hlt (by decide))
  refine ⟨_, dif_pos hlt, rfl, rfl, ?_⟩
  rw [bytes, Buffer.toList_zeros, hexact]

theorem allocate_of_le (cellCount : Nat) (l : Layout)
    (h : cellLimit ≤ l.prefixCells + cellCount) :
    (allocate cellCount l).value = .error (.panic .capacity) := by
  have hle := mt (l.totalCells_lt cellCount).1 (Nat.not_lt.2 h)
  exact dif_neg hle

theorem allocate_eq_ok (cellCount : Nat) (l : Layout) (m : Memory) :
    (allocate cellCount l).value = .ok m ↔
      m.layout = l ∧ m.bytes = List.replicate ((l.prefixCells + cellCount) * Cell.size) 0 := by
  constructor
  · intro h
    by_cases hlt : l.prefixCells + cellCount < cellLimit
    · obtain ⟨m', hm', hlayout, -, hbytes⟩ := exists_allocate cellCount l hlt
      rw [h, Except.ok.injEq] at hm'
      rw [hm']
      exact ⟨hlayout, hbytes⟩
    · rw [allocate_of_le cellCount l (Nat.not_lt.1 hlt)] at h
      cases h
  · rintro ⟨rfl, hbytes⟩
    have hlength := m.length_bytes
    rw [hbytes, List.length_replicate, prefixCells, Cell.size] at hlength
    have hlt := m.cells_lt
    obtain ⟨m', hm', hlayout, -, hbytes'⟩ := exists_allocate cellCount m.layout (by omega)
    rw [hm', eq_of_bytes m' m hlayout (hbytes'.trans hbytes.symm)]

/-! ## Memories of given bytes -/

theorem exists_ofBytes (bytes : List UInt8) (l : Layout) (cellCount : Nat)
    (hlength : bytes.length = (l.prefixCells + cellCount) * Cell.size)
    (h : l.prefixCells + cellCount < cellLimit) :
    ∃ m, (ofBytes bytes l).value = .ok m ∧ m.layout = l ∧ m.bytes = bytes := by
  have hcount : l.cellCountFor bytes.length = .ok cellCount := by
    rw [Layout.cellCountFor_eq_ok]
    simp only [Cell.size, cellLimit, Size.limit] at hlength h ⊢
    omega
  obtain ⟨blank, hblank, hlayout, hcells, -⟩ := exists_allocate cellCount l h
  have hsize : bytes.length = blank.buffer.size := by
    rw [hlength, blank.size_eq, prefixCells, hlayout, hcells]
  have hadmits : blank.admits ⟨0, blank.buffer.size⟩ bytes = .ok () := by
    rw [admits, blank.inside_eq_ok _ ⟨Nat.zero_le _, Nat.le_refl _⟩]
    exact if_pos hsize
  refine ⟨blank.store 0 bytes, ?_, hlayout, blank.bytes_store_all bytes hsize⟩
  simp only [ofBytes, hcount, hblank, hadmits]

theorem ofBytes_eq_ok (bytes : List UInt8) (l : Layout) (m : Memory) :
    (ofBytes bytes l).value = .ok m ↔ m.layout = l ∧ m.bytes = bytes := by
  constructor
  · intro h
    cases hcount : l.cellCountFor bytes.length with
    | error fault =>
      simp only [ofBytes, hcount, reduceCtorEq] at h
    | ok cellCount =>
      have hlength := ((l.cellCountFor_eq_ok _ _).1 hcount).2
      by_cases hlt : l.prefixCells + cellCount < cellLimit
      · obtain ⟨m', hm', hlayout, hbytes⟩ := exists_ofBytes bytes l cellCount hlength hlt
        rw [h, Except.ok.injEq] at hm'
        rw [hm']
        exact ⟨hlayout, hbytes⟩
      · have hpanic := allocate_of_le cellCount l (Nat.not_lt.1 hlt)
        simp only [ofBytes, hcount, hpanic, reduceCtorEq] at h
  · rintro ⟨rfl, rfl⟩
    obtain ⟨m', hm', hlayout, hbytes⟩ :=
      exists_ofBytes m.bytes m.layout m.cellCount m.length_bytes m.cells_lt
    rw [hm', eq_of_bytes m' m hlayout hbytes]

theorem ofBytes_ne_panic (bytes : List UInt8) (l : Layout) (p : Panic)
    (h : bytes.length < cellLimit * Cell.size) : (ofBytes bytes l).value ≠ .error (.panic p) := by
  intro hpanic
  cases hcount : l.cellCountFor bytes.length with
  | error fault =>
    simp only [ofBytes, hcount, Except.error.injEq, reduceCtorEq] at hpanic
  | ok cellCount =>
    have hlength := ((l.cellCountFor_eq_ok _ _).1 hcount).2
    rw [hlength] at h
    have hlt := Nat.lt_of_mul_lt_mul_right h
    obtain ⟨m, hm, -⟩ := exists_ofBytes bytes l cellCount hlength hlt
    rw [hm] at hpanic
    cases hpanic

end Memory

/-! ## Origins -/

/-- What a memory is made of: zeros for so many data cells, or given bytes. -/
inductive Origin where
  | blank (cellCount : Nat) (layout : Layout)
  | adopted (bytes : List UInt8) (layout : Layout)

namespace Origin

def make : Origin → Traced (Except Failure Memory)
  | blank cellCount layout => Memory.allocate cellCount layout
  | adopted bytes layout => Memory.ofBytes bytes layout

def layout : Origin → Layout
  | blank _ layout => layout
  | adopted _ layout => layout

/-- The bytes at the start, prefix included. -/
def content : Origin → List UInt8
  | blank cellCount layout => List.replicate ((layout.prefixCells + cellCount) * Cell.size) 0
  | adopted bytes _ => bytes

/-- The number of data cells: as many as asked for, or what the prefix leaves of the bytes. -/
def cellCount : Origin → Nat
  | blank cellCount _ => cellCount
  | adopted bytes layout => bytes.length / Cell.size - layout.prefixCells

theorem make_eq_ok (o : Origin) (m : Memory) :
    o.make.value = .ok m ↔ m.layout = o.layout ∧ m.bytes = o.content := by
  cases o with
  | blank cellCount layout => exact Memory.allocate_eq_ok cellCount layout m
  | adopted bytes layout => exact Memory.ofBytes_eq_ok bytes layout m

theorem cellCount_of_make (o : Origin) (m : Memory) (h : o.make.value = .ok m) :
    m.cellCount = o.cellCount := by
  obtain ⟨hlayout, hbytes⟩ := (o.make_eq_ok m).1 h
  have hlength := m.length_bytes
  rw [hbytes, Memory.prefixCells, hlayout] at hlength
  cases o with
  | blank cellCount layout =>
    simp only [content, Origin.layout, List.length_replicate, Cell.size, Origin.cellCount]
      at hlength ⊢
    omega
  | adopted bytes layout =>
    simp only [content, Origin.layout, Cell.size, Origin.cellCount] at hlength ⊢
    omega

end Origin

end CellMemory
