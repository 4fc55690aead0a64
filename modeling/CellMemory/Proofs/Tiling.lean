import CellMemory.Proofs.Placement

/-! # Data cells tile the buffer

A layout gives every data cell its bytes. The cells lie side by side behind the prefix and fill the
buffer to its end, so what is apart in cells is apart in bytes. All of this is about layouts and sizes
alone: it covers those that no memory has, up to the last run whose end has a position.

* `Extent.Apart`, `Extent.Tiles`: ranges without a common position, and ranges that follow one another.
* `Layout.byteExtent_eq_ok`: which runs have a place, and where it is.
* `Layout.apart_of_byteExtent`: runs without a common cell have no common byte.
* `Layout.tiles_cells`: the cells of a run, one after the other.
* `Layout.translation_exact`: these facts together, with every failure.
-/

namespace CellMemory
set_option autoImplicit false

/-! ## Ranges side by side -/

namespace Extent

/-- No position lies in both ranges. -/
def Apart (e f : Extent) : Prop := ∀ n ∈ e, n ∉ f

instance (e f : Extent) : Decidable (e.Apart f) :=
  decidable_of_iff (∀ n ∈ e.positions, n ∉ f)
    ⟨fun h n hn => h n (mem_positions.2 hn), fun h n hn => h n (mem_positions.1 hn)⟩

theorem Apart.symm {e f : Extent} (h : e.Apart f) : f.Apart e := fun n hf he => h n he hf

/-- The ranges follow one another without a gap, from `start` to `stop`. -/
def Tiles (start stop : Nat) : List Extent → Prop
  | [] => start = stop
  | e :: rest => e.start = start ∧ e.start ≤ e.stop ∧ Tiles e.stop stop rest

theorem apart_of_le (e f : Extent) (h : e.stop ≤ f.start) : e.Apart f := by
  rintro n ⟨-, hn⟩ ⟨hn', -⟩
  omega

theorem Tiles.le_start {start stop : Nat} {es : List Extent} (h : Tiles start stop es) (e : Extent)
    (he : e ∈ es) : start ≤ e.start := by
  induction es generalizing start with
  | nil => cases he
  | cons first rest ih =>
    obtain ⟨hstart, hle, hrest⟩ := h
    rcases List.mem_cons.1 he with rfl | he
    · exact Nat.le_of_eq hstart.symm
    · have hrest := ih hrest he
      omega

theorem Tiles.pairwise_apart {start stop : Nat} {es : List Extent} (h : Tiles start stop es) :
    es.Pairwise Apart := by
  induction es generalizing start with
  | nil => exact .nil
  | cons first rest ih =>
    obtain ⟨-, -, hrest⟩ := h
    refine .cons ?_ (ih hrest)
    intro e he
    exact first.apart_of_le e (hrest.le_start e he)

end Extent

/-! ## The places of data cells -/

namespace Layout

variable (l : Layout)

theorem byteExtent_eq_ok (cellCount index count : Nat) (e : Extent) :
    l.byteExtent cellCount index count = .ok e ↔
      index + count ≤ cellCount ∧ 4 * (l.prefixCells + index + count) ≤ Size.limit ∧
        e = ⟨4 * (l.prefixCells + index), 4 * (l.prefixCells + index + count)⟩ := by
  rw [byteExtent_eq, Cell.size, Nat.mul_comm _ 4, Nat.mul_comm _ 4]
  by_cases h : index + count ≤ cellCount ∧ 4 * (l.prefixCells + index + count) ≤ Size.limit
  · rw [if_pos h, Except.ok.injEq, eq_comm, ← and_assoc]
    exact (and_iff_right h).symm
  · rw [if_neg h, ← and_assoc]
    simp only [reduceCtorEq, false_iff]
    exact fun hrun => h hrun.1

/-! Where all data cells have positions, the second condition follows from the first. -/

theorem exists_byteExtent_iff (cellCount index count : Nat)
    (hfits : 4 * (l.prefixCells + cellCount) ≤ Size.limit) :
    (∃ e, l.byteExtent cellCount index count = .ok e) ↔ index + count ≤ cellCount := by
  simp only [byteExtent_eq_ok]
  constructor
  · rintro ⟨_, hle, -⟩
    exact hle
  · intro hle
    exact ⟨_, hle, by omega, rfl⟩

theorem exists_cellExtent_iff (cellCount index count : Nat)
    (hfits : 4 * (l.prefixCells + cellCount) ≤ Size.limit) :
    (∃ e, l.cellExtent cellCount index count = .ok e) ↔ index + count ≤ cellCount := by
  rw [cellExtent_eq]
  constructor
  · rintro ⟨_, he⟩
    split at he
    next h => exact h.1
    next => cases he
  · intro hle
    exact ⟨_, if_pos ⟨hle, by simp only [Cell.size]; omega⟩⟩

theorem stop_le_totalBytes (cellCount index count : Nat) (e : Extent)
    (h : l.byteExtent cellCount index count = .ok e) : e.stop ≤ l.totalBytes cellCount := by
  obtain ⟨hle, hfit, rfl⟩ := (l.byteExtent_eq_ok cellCount index count e).1 h
  simp only [totalBytes_eq, Cell.size]
  omega

/-- A byte that lies in the places of two runs lies in a cell of both. -/
theorem apart_of_byteExtent (cellCount index count index' count' : Nat) (e e' : Extent)
    (h : l.byteExtent cellCount index count = .ok e)
    (h' : l.byteExtent cellCount index' count' = .ok e')
    (hapart : Extent.Apart ⟨index, index + count⟩ ⟨index', index' + count'⟩) : e.Apart e' := by
  obtain ⟨-, -, rfl⟩ := (l.byteExtent_eq_ok cellCount index count e).1 h
  obtain ⟨-, -, rfl⟩ := (l.byteExtent_eq_ok cellCount index' count' e').1 h'
  rintro n ⟨hfrom, hto⟩ ⟨hfrom', hto'⟩
  dsimp only at hfrom hto hfrom' hto'
  have hcell : n / 4 - l.prefixCells ∈ (⟨index, index + count⟩ : Extent) :=
    ⟨by dsimp only; omega, by dsimp only; omega⟩
  exact hapart _ hcell ⟨by dsimp only; omega, by dsimp only; omega⟩

/-- The bytes of a data cell, wherever they may lie. -/
def cellBytes (i : Nat) : Extent := ⟨4 * (l.prefixCells + i), 4 * (l.prefixCells + i + 1)⟩

theorem tiles_cells (start count : Nat) :
    Extent.Tiles (4 * (l.prefixCells + start)) (4 * (l.prefixCells + start + count))
      ((List.range' start count).map l.cellBytes) := by
  induction count generalizing start with
  | zero => rfl
  | succ count ih =>
    have hrest := ih (start + 1)
    rw [← Nat.add_assoc, Nat.add_assoc _ 1 count, Nat.add_comm 1 count] at hrest
    rw [List.range'_succ, List.map_cons]
    exact ⟨rfl, Nat.mul_le_mul_left 4 (Nat.le_succ _), hrest⟩

/-- Index translation for all sizes. A run has a place in cells, and in bytes, exactly when it lies
among the data cells and the byte past it has a position; every other run is out of bounds under its
own numbers, and no product overflows. The place in bytes is four times the one in cells and does not
go past the end of the buffer, and runs without a common cell have no common byte. If the buffer has a
size at all, then nothing but the number of data cells limits the runs, and the bytes of the single
cells follow one another without gaps and without overlaps from the end of the prefix to the end of
the buffer. -/
theorem translation_exact (cellCount : Nat) :
    (∀ index count,
      l.cellExtent cellCount index count =
        (if index + count ≤ cellCount ∧ 4 * (l.prefixCells + index + count) ≤ Size.limit then
          .ok ⟨l.prefixCells + index, l.prefixCells + index + count⟩
        else .error (.outOfBounds index count cellCount)) ∧
      l.byteExtent cellCount index count =
        (if index + count ≤ cellCount ∧ 4 * (l.prefixCells + index + count) ≤ Size.limit then
          .ok ⟨4 * (l.prefixCells + index), 4 * (l.prefixCells + index + count)⟩
        else .error (.fault (.outOfBounds index count cellCount)))) ∧
    (∀ index count e, l.byteExtent cellCount index count = .ok e →
      e.stop ≤ l.totalBytes cellCount) ∧
    (∀ index count index' count' e e', l.byteExtent cellCount index count = .ok e →
      l.byteExtent cellCount index' count' = .ok e' →
      Extent.Apart ⟨index, index + count⟩ ⟨index', index' + count'⟩ → e.Apart e') ∧
    (4 * (l.prefixCells + cellCount) ≤ Size.limit →
      (∀ index count,
        ((∃ e, l.cellExtent cellCount index count = .ok e) ↔ index + count ≤ cellCount) ∧
        ((∃ e, l.byteExtent cellCount index count = .ok e) ↔ index + count ≤ cellCount)) ∧
      ∃ tiles : List Extent, tiles.length = cellCount ∧
        (∀ i < cellCount, ∃ e, tiles[i]? = some e ∧ l.byteExtent cellCount i 1 = .ok e) ∧
        Extent.Tiles l.prefixBytes (l.totalBytes cellCount) tiles ∧
        tiles.Pairwise Extent.Apart) := by
  have hcells (index count : Nat) := l.cellExtent_eq cellCount index count
  have hbytes (index count : Nat) := l.byteExtent_eq cellCount index count
  simp only [Nat.mul_comm _ Cell.size] at hcells hbytes
  refine ⟨fun index count => ⟨hcells index count, hbytes index count⟩,
    l.stop_le_totalBytes cellCount, l.apart_of_byteExtent cellCount, ?_⟩
  intro hfits
  have htiles := l.tiles_cells 0 cellCount
  have hstart : l.prefixBytes = 4 * (l.prefixCells + 0) := by
    simp only [prefixBytes_eq, Cell.size]
    omega
  have hstop : l.totalBytes cellCount = 4 * (l.prefixCells + 0 + cellCount) := by
    simp only [totalBytes_eq, Cell.size]
    omega
  refine ⟨?_, (List.range' 0 cellCount).map l.cellBytes, ?_, ?_, ?_, htiles.pairwise_apart⟩
  · intro index count
    exact ⟨l.exists_cellExtent_iff cellCount index count hfits,
      l.exists_byteExtent_iff cellCount index count hfits⟩
  · rw [List.length_map, List.length_range']
  · intro i hi
    refine ⟨l.cellBytes i, ?_, ?_⟩
    · rw [List.getElem?_map, List.getElem?_range' hi, Nat.zero_add, Nat.one_mul, Option.map_some]
    · exact (l.byteExtent_eq_ok cellCount i 1 _).2 ⟨hi, by omega, rfl⟩
  · rw [hstart, hstop]
    exact htiles

/-- The longest prefix that leaves room for two data cells: the byte past the second one is the last
to have a position, and a third cell would be out of bounds although it is counted. -/
theorem translation_exact_last_cells :
    ∃ l : Layout, l.prefixCells = 4611686018427387901 ∧
      l.byteExtent 2 1 1 = .ok ⟨18446744073709551608, 18446744073709551612⟩ ∧
      l.byteExtent 3 2 1 = .error (.fault (.outOfBounds 2 1 3)) ∧
      Extent.Apart ⟨18446744073709551604, 18446744073709551608⟩
        ⟨18446744073709551608, 18446744073709551612⟩ ∧
      ∃ tiles : List Extent, tiles.length = 2 ∧
        Extent.Tiles l.prefixBytes (l.totalBytes 2) tiles := by
  obtain ⟨hruns, -, hapart, hall⟩ := translation_exact { prefixCells := 4611686018427387901 } 2
  obtain ⟨hruns', -, -, -⟩ := translation_exact { prefixCells := 4611686018427387901 } 3
  obtain ⟨-, tiles, hlength, -, htiles, -⟩ := hall (by decide)
  have hfirst := (hruns 0 1).2.trans (if_pos (by decide))
  have hsecond := (hruns 1 1).2.trans (if_pos (by decide))
  have hpast := (hruns' 2 1).2.trans (if_neg (by decide))
  refine ⟨_, rfl, hsecond, hpast, ?_, tiles, hlength, htiles⟩
  exact hapart 0 1 1 1 _ _ hfirst hsecond (Extent.apart_of_le _ _ (Nat.le_refl 1))

end Layout

end CellMemory
