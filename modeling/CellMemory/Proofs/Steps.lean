import CellMemory.Proofs.Content

/-! # What each access comes to

An access is run from a session to its end here. Each of them is either refused before its first
change, or carried out to its last step: the checks at the front are enough for the steps behind
them, none of which breaks off.

* `run_slice`, `run_overwrite`: steps on a range that lies in the buffer.
* `run_overwriteAll`: values that are written one by one are written as a whole.
* `run_read`, `run_write`, `run_view`: accesses to data cells.
* `run_readRun`, `run_writeRun`: the loops, for values of any type with a codec.
* `run_writeHeader`, `run_readHeader`: accesses to the header.
-/

namespace CellMemory.Access
set_option autoImplicit false

variable (s : Session)

/-! ## Steps -/

@[simp] theorem run_memory : memory.run s = .ok s.memory s := rfl

@[simp] theorem run_report (events : List Event) :
    (report events).run s = .ok () { s with events := s.events ++ events } := rfl

@[simp] theorem run_orFail_ok {ε α : Type} (failure : ε → Failure) (a : α) :
    (orFail failure (.ok a)).run s = .ok a s := rfl

@[simp] theorem run_orFail_error {ε α : Type} (failure : ε → Failure) (e : ε) :
    (orFail failure (.error e : Except ε α)).run s = .error (failure e) s := rfl

@[simp] theorem run_traced {α : Type} (t : Traced α) :
    (traced t).run s = .ok t.value { s with events := s.events ++ t.events } := rfl

theorem run_slice (e : Extent) (h : e.Inside s.memory.buffer.size) :
    (slice e).run s = .ok (s.memory.buffer.slice e) s := by
  have hslice : s.memory.slice e = .ok (s.memory.buffer.slice e) := by
    rw [Memory.slice, Memory.inside_eq_ok _ _ h]
    rfl
  simp only [slice, EStateM.run_bind, run_memory, hslice, run_orFail_ok]

theorem run_overwrite (e : Extent) (bytes : List UInt8) (h : e.Inside s.memory.buffer.size)
    (hlen : bytes.length = e.length) :
    (overwrite e bytes).run s = .ok () { s with memory := s.memory.store e.start bytes } := by
  have hadmits : s.memory.admits e bytes = .ok () := by
    rw [Memory.admits, Memory.inside_eq_ok _ _ h, if_pos hlen]
    rfl
  simp only [overwrite, EStateM.run_bind, run_memory, hadmits, run_orFail_ok, EStateM.run_modify]

/-- Values that are written one by one, each at its place, are written as a whole. -/
theorem run_overwriteAll {α : Type} (codec : Codec α) (place : Nat) (vs : List α)
    (h : (place + vs.length) * Cell.size ≤ s.memory.buffer.size) :
    EStateM.run (forM ((List.range' (place * Cell.size) vs.length Cell.size).zip vs)
        fun (position, v) => overwrite ⟨position, position + Cell.size⟩ (codec.encode v).bytes) s =
      .ok () { s with memory := s.memory.putCells place (vs.map codec.encode) } := by
  induction vs generalizing s place with
  | nil => rfl
  | cons v vs ih =>
    have hfirst : (overwrite ⟨place * Cell.size, place * Cell.size + Cell.size⟩
        (codec.encode v).bytes).run s =
          .ok () { s with memory := s.memory.putCells place [codec.encode v] } := by
      rw [run_overwrite]
      · rw [Memory.putCells_singleton]
      · refine ⟨Nat.le_add_right _ _, ?_⟩
        simp only [List.length_cons, Cell.size] at h ⊢
        omega
      · rw [Extent.length, Nat.add_sub_cancel_left, Cell.length_bytes]
    rw [List.length_cons, List.range'_succ, List.zip_cons_cons, List.forM_cons, EStateM.run_bind,
      hfirst, show place * Cell.size + Cell.size = (place + 1) * Cell.size by rw [Nat.succ_mul]]
    dsimp only
    rw [ih _ (place + 1) (by
      rw [Memory.size_putCells]
      simp only [List.length_cons, Cell.size] at h ⊢
      omega), List.map_cons, ← Memory.putCells_cons]

/-! ## Runs of data cells -/

section Run
variable (index count : Nat)

theorem run_cellExtent (h : index + count ≤ s.memory.cellCount) :
    (cellExtent index count).run s = .ok (s.memory.runCells index count) s := by
  simp only [cellExtent, EStateM.run_bind, run_memory, s.memory.cellExtent_of_le index count h,
    run_orFail_ok]

theorem run_cellExtent_refused (h : s.memory.cellCount < index + count) :
    (cellExtent index count).run s =
      .error (.fault (.outOfBounds index count s.memory.cellCount)) s := by
  simp only [cellExtent, EStateM.run_bind, run_memory, s.memory.cellExtent_of_lt index count h,
    run_orFail_error]

theorem run_byteExtent (h : index + count ≤ s.memory.cellCount) :
    (byteExtent index count).run s = .ok (s.memory.runBytes index count) s := by
  simp only [byteExtent, EStateM.run_bind, run_memory, s.memory.byteExtent_of_le index count h,
    run_orFail_ok]

theorem run_byteExtent_refused (h : s.memory.cellCount < index + count) :
    (byteExtent index count).run s =
      .error (.fault (.outOfBounds index count s.memory.cellCount)) s := by
  simp only [byteExtent, EStateM.run_bind, run_memory, s.memory.byteExtent_of_lt index count h,
    run_orFail_error, id]

end Run

/-! ## Reading data cells -/

section Reading
variable (k : Kind) (start count : Nat)

theorem run_read (index : Nat) (h : index < s.memory.cellCount) :
    (read k index).run s = (traced (k.decode (s.memory.dataCell index))).run s := by
  have hcell : s.memory.buffer.slice (s.memory.runBytes index 1) =
      (s.memory.dataCell index).bytes :=
    s.memory.buffer.slice_cell _ (s.memory.run_stop_le index 1 h)
  simp only [read, EStateM.run_bind, run_byteExtent s index 1 h,
    run_slice s _ (s.memory.inside_run index 1 h), hcell, Cell.ofBytes_bytes,
    run_orFail_ok]

theorem run_read_refused (index : Nat) (h : s.memory.cellCount ≤ index) :
    (read k index).run s = .error (.fault (.outOfBounds index 1 s.memory.cellCount)) s := by
  simp only [read, EStateM.run_bind, run_byteExtent_refused s index 1 (Nat.lt_succ_of_le h)]

theorem run_view (h : start + count ≤ s.memory.cellCount) :
    (view k start count).run s =
      .ok (k.codec.decodeAll (s.memory.dataCells start count)).value s := by
  have hcells : s.memory.cellsIn (s.memory.runCells start count) =
      .ok (s.memory.dataCells start count) := by
    rw [Memory.cellsIn, if_pos (s.memory.inside_runCells start count h), Extent.positions,
      Extent.length, Memory.runCells, Nat.add_sub_cancel_left, Memory.map_cell_runCells]
  simp only [view, EStateM.run_bind, run_cellExtent s start count h, run_memory, hcells,
    run_orFail_ok, EStateM.run_pure, k.value_decodeAll]

theorem run_view_refused (h : s.memory.cellCount < start + count) :
    (view k start count).run s = .error (.fault (.outOfBounds start count s.memory.cellCount)) s := by
  simp only [view, EStateM.run_bind, run_cellExtent_refused s start count h]

end Reading

/-! ## The loops -/

section Loops
variable {α : Type} (codec : Codec α) (start : Nat)

theorem run_readRun (count : Nat) (h : start + count ≤ s.memory.cellCount) :
    (readRun codec start count).run s =
      (traced (codec.decodeAll (s.memory.dataCells start count))).run s := by
  simp only [readRun, EStateM.run_bind, run_byteExtent s start count h,
    run_slice s _ (s.memory.inside_run start _ h), s.memory.chunk_runBytes start count h]

theorem run_readRun_refused (count : Nat) (h : s.memory.cellCount < start + count) :
    (readRun codec start count).run s =
      .error (.fault (.outOfBounds start count s.memory.cellCount)) s := by
  simp only [readRun, EStateM.run_bind, run_byteExtent_refused s start count h]

variable (vs : List α)

theorem run_writeRun (h : start + vs.length ≤ s.memory.cellCount) :
    (writeRun codec start vs).run s =
      .ok () {
        memory := s.memory.putCells (s.memory.prefixCells + start) (vs.map codec.encode)
        events := s.events ++ [.writing vs.length start] } := by
  simp only [writeRun, EStateM.run_bind, run_byteExtent s start _ h, run_report, run_memory,
    Memory.inside_eq_ok _ _ (s.memory.inside_run start _ h), run_orFail_ok, Memory.cellStarts_runBytes]
  exact run_overwriteAll _ codec _ vs (s.memory.run_stop_le start _ h)

theorem run_writeRun_refused (h : s.memory.cellCount < start + vs.length) :
    (writeRun codec start vs).run s =
      .error (.fault (.outOfBounds start vs.length s.memory.cellCount)) s := by
  simp only [writeRun, EStateM.run_bind, run_byteExtent_refused s start _ h]

end Loops

/-! ## Writing data cells -/

section Writing
variable (k : Kind)

theorem run_write {v : k.Input} {value : k.Value} (index : Nat) (hv : k.accept v = .ok value)
    (h : index < s.memory.cellCount) :
    (write k index v).run s =
      .ok () {
        s with memory := s.memory.putCells (s.memory.prefixCells + index) [k.encode value] } := by
  have hlen : (k.encode value).bytes.length = (s.memory.runBytes index 1).length := by
    rw [Memory.length_runBytes, Cell.length_bytes, Nat.one_mul]
  have hput := run_overwrite s _ (k.encode value).bytes
    (s.memory.inside_run index 1 h) hlen
  simp only [write, EStateM.run_bind, hv, run_orFail_ok, run_byteExtent s index 1 h, hput]
  rw [Memory.putCells_singleton, Memory.runBytes]

theorem run_write_rejected {v : k.Input} {fault : Fault} (index : Nat)
    (hv : k.accept v = .error fault) :
    (write k index v).run s = .error (.fault fault) s := by
  simp only [write, EStateM.run_bind, hv, run_orFail_error]

theorem run_write_refused {v : k.Input} {value : k.Value} (index : Nat)
    (hv : k.accept v = .ok value) (h : s.memory.cellCount ≤ index) :
    (write k index v).run s = .error (.fault (.outOfBounds index 1 s.memory.cellCount)) s := by
  simp only [write, EStateM.run_bind, hv, run_orFail_ok,
    run_byteExtent_refused s index 1 (Nat.lt_succ_of_le h)]

theorem run_writeBatch {vs : List k.Input} {values : List k.Value} (start : Nat)
    (hvs : vs.mapM k.accept = .ok values) :
    (writeBatch k start vs).run s = (writeRun k.codec start values).run s := by
  simp only [writeBatch, EStateM.run_bind, hvs, run_orFail_ok]

theorem run_writeBatch_rejected {vs : List k.Input} {fault : Fault} (start : Nat)
    (hvs : vs.mapM k.accept = .error fault) :
    (writeBatch k start vs).run s = .error (.fault fault) s := by
  simp only [writeBatch, EStateM.run_bind, hvs, run_orFail_error]

end Writing

/-! ## The header and the measures -/

theorem run_headerExtent (h : Header.cells ≤ s.memory.prefixCells) :
    headerExtent.run s = .ok ⟨0, Header.size⟩ s := by
  simp only [headerExtent, EStateM.run_bind, run_memory, if_neg (Nat.not_lt.2 h), EStateM.run_pure]

theorem run_headerExtent_refused (h : s.memory.prefixCells < Header.cells) :
    headerExtent.run s = .error (.fault (.headerUnavailable s.memory.prefixCells)) s := by
  simp only [headerExtent, EStateM.run_bind, run_memory, if_pos h]
  rfl

theorem run_writeHeader (header : Header) (h : Header.cells ≤ s.memory.prefixCells) :
    (writeHeader header).run s =
      .ok () {
        memory := s.memory.store 0 header.bytes
        events := s.events ++ [.wroteHeader header.memberId header.cellCount] } := by
  simp only [writeHeader, EStateM.run_bind, run_headerExtent s h,
    run_overwrite s _ header.bytes (s.memory.inside_header h) header.length_bytes, run_report]

theorem run_writeHeader_refused (header : Header) (h : s.memory.prefixCells < Header.cells) :
    (writeHeader header).run s = .error (.fault (.headerUnavailable s.memory.prefixCells)) s := by
  simp only [writeHeader, EStateM.run_bind, run_headerExtent_refused s h]

theorem run_totalBytes :
    totalBytes.run s = .ok ((s.memory.prefixCells + s.memory.cellCount) * Cell.size) s := by
  have hmul : Size.mul? s.memory.cells Cell.size =
      some ((s.memory.prefixCells + s.memory.cellCount) * Cell.size) := by
    rw [s.memory.cells_eq, Size.mul?_eq_some, ← s.memory.size_eq]
    exact ⟨s.memory.size_le_limit, rfl⟩
  simp only [totalBytes, EStateM.run_bind, run_memory, hmul, EStateM.run_pure]

theorem run_dataBytes : dataBytes.run s = .ok s.memory.dataBytes s := by
  have hinside : (⟨s.memory.layout.prefixBytes, s.memory.buffer.size⟩ : Extent).Inside
      s.memory.buffer.size := by
    refine ⟨?_, Nat.le_refl _⟩
    rw [Memory.layout_prefixBytes, Memory.size_eq]
    exact Nat.mul_le_mul_right _ (Nat.le_add_right _ _)
  have hslice : s.memory.buffer.slice ⟨s.memory.layout.prefixBytes, s.memory.buffer.size⟩ =
      s.memory.dataBytes := by
    have hlength : (s.memory.buffer.toList.drop (s.memory.prefixCells * Cell.size)).length =
        s.memory.buffer.size - s.memory.prefixCells * Cell.size := by
      rw [List.length_drop, Buffer.length_toList]
    rw [Buffer.slice_eq, Extent.length, Memory.layout_prefixBytes, Memory.dataBytes, Memory.bytes]
    exact List.take_of_length_le (Nat.le_of_eq hlength)
  simp only [dataBytes, EStateM.run_bind, run_memory, run_slice s _ hinside, hslice]

end CellMemory.Access
