import CellMemory.Manifest
import CellMemory.Proofs.Frame
import CellMemory.Proofs.Origin

/-! # What the manifest says is true

The names in the manifest say which calls write, and its footprints which bytes they write or read.
Both are measured here against what the calls do.

* `Call.role`: the direction and the footprint of a call; `Call.classify_name` and
  `Call.findAccessor_name` find them under its name.
* `Footprint.extent`: the bytes that a footprint stands for, given the call.
* `Memory.perform_of_role`: calls that are not for writing leave a memory as it is.
* `Memory.getElem?_perform`: calls for writing leave all bytes outside their footprints.
* `Memory.reply_of_dataCells`, `Memory.reply_perform`: replies to calls for reading depend on the
  cells that they address, so on the bytes of their footprints.
* `Call.manifest_truthful`: these facts by names, and that the calls for writing do change bytes.
-/

namespace CellMemory
set_option autoImplicit false

/-! ## Roles -/

theorem Direction.classify_write (rest : String) : classify ("write_" ++ rest) = some .write := by
  rw [classify, String.toList_append, List.map_append]
  rfl

theorem Direction.classify_read (rest : String) : classify ("read_" ++ rest) = some .read := by
  rw [classify, String.toList_append, List.map_append]
  rfl

namespace Call

/-- Whether a call is for reading or for writing, and which cells it is about. -/
def role : Call → Option (Direction × Footprint)
  | write _ _ _ => some (.write, .single)
  | read _ _ => some (.read, .single)
  | writeBatch _ _ _ => some (.write, .run)
  | view _ _ _ _ | copy _ _ _ => some (.read, .run)
  | writeHeader _ | writeMemberId _ => some (.write, .header)
  | readHeader => some (.read, .header)
  | cellCount | prefixCells | layout | totalBytes | bytes | dataBytes | validateHeader => none

theorem classify_name (c : Call) : Direction.classify c.name = c.role.map Prod.fst := by
  cases c with
  | write k _ _ => exact Direction.classify_write k.label
  | read k _ => exact Direction.classify_read k.label
  | writeBatch k _ _ =>
    rw [name, String.append_assoc]
    exact Direction.classify_write _
  | view k _ _ _ =>
    rw [name, String.append_assoc]
    exact Direction.classify_read _
  | copy k _ _ =>
    rw [name, String.append_assoc]
    exact Direction.classify_read _
  | writeHeader _ => exact Direction.classify_write "header"
  | writeMemberId _ => exact Direction.classify_write "member_id"
  | _ => decide

/-- The manifest has an entry for a call under its name just if the call has a role, and the entry
tells the role. -/
theorem findAccessor_name (c : Call) :
    findAccessor c.name = c.role.map fun r => ⟨c.name, r.1, r.2⟩ := by
  cases c with
  | write k _ _ =>
    change findAccessor ("write_" ++ k.label) = some ⟨"write_" ++ k.label, .write, .single⟩
    cases k <;> decide
  | read k _ =>
    change findAccessor ("read_" ++ k.label) = some ⟨"read_" ++ k.label, .read, .single⟩
    cases k <;> decide
  | writeBatch k _ _ =>
    change findAccessor ("write_" ++ k.label ++ "_batch") =
      some ⟨"write_" ++ k.label ++ "_batch", .write, .run⟩
    cases k <;> decide
  | view k _ _ inPlace =>
    change findAccessor ("read_" ++ k.label ++ "_view") =
      some ⟨"read_" ++ k.label ++ "_view", .read, .run⟩
    cases k with
    | boolean => exact absurd rfl inPlace
    | _ => decide
  | copy k _ _ =>
    change findAccessor ("read_" ++ k.label ++ "_copy") =
      some ⟨"read_" ++ k.label ++ "_copy", .read, .run⟩
    cases k <;> decide
  | writeHeader _ | writeMemberId _ => rfl
  | _ => decide

/-! ## Footprints -/

/-- The data cell that a call addresses, the first one if it addresses several. -/
def index : Call → Nat
  | write _ index _ | read _ index => index
  | writeBatch _ start _ | view _ start _ _ | copy _ start _ => start
  | _ => 0

/-- The number of data cells that a call addresses. -/
def span : Call → Nat
  | write _ _ _ | read _ _ => 1
  | writeBatch _ _ vs => vs.length
  | view _ _ count _ | copy _ _ count => count
  | _ => 0

theorem span_of_single (c : Call) (d : Direction) (h : c.role = some (d, .single)) : c.span = 1 := by
  cases c with
  | write _ _ _ | read _ _ => rfl
  | _ => cases h

theorem eq_readHeader (c : Call) (h : c.role = some (.read, .header)) : c = .readHeader := by
  cases c with
  | readHeader => rfl
  | _ => cases h

end Call

/-- The bytes that a footprint stands for: those of the data cell at the index of the call, those of
the data cells of its run, or the first twelve. -/
def Footprint.extent (l : Layout) (c : Call) : Footprint → Extent
  | single => ⟨4 * (l.prefixCells + c.index), 4 * (l.prefixCells + c.index + 1)⟩
  | run => ⟨4 * (l.prefixCells + c.index), 4 * (l.prefixCells + c.index + c.span)⟩
  | header => ⟨0, 12⟩

namespace Memory

variable (m : Memory)

/-! ## Writing -/

theorem effect_of_role (c : Call) (h : ∀ f, c.role ≠ some (.write, f)) : c.effect m = m := by
  cases c with
  | write _ _ _ => exact absurd rfl (h .single)
  | writeBatch _ _ _ => exact absurd rfl (h .run)
  | writeHeader _ | writeMemberId _ => exact absurd rfl (h .header)
  | _ => rfl

theorem perform_of_role (c : Call) (h : ∀ f, c.role ≠ some (.write, f)) : (m.perform c).1 = m := by
  rcases m.perform_cases c with ⟨-, hsame⟩ | ⟨-, -, heffect⟩
  · exact hsame
  · rw [heffect, m.effect_of_role c h]

/-- What a call for writing puts into the buffer fills its footprint. -/
theorem extent_of_write (c : Call) (f : Footprint) (h : c.role = some (.write, f)) :
    f.extent m.layout c =
      ⟨Cell.size * c.place m, Cell.size * (c.place m + (c.written m).length)⟩ := by
  cases c with
  | write k index v =>
    cases h
    rfl
  | writeBatch k start vs =>
    cases h
    rw [Call.written, List.length_map]
    rfl
  | writeHeader _ | writeMemberId _ =>
    cases h
    rfl
  | _ => cases h

theorem getElem?_perform (c : Call) (f : Footprint) (h : c.role = some (.write, f)) (n : Nat)
    (hn : n ∉ f.extent m.layout c) : (m.perform c).1.bytes[n]? = m.bytes[n]? := by
  rcases m.perform_cases c with ⟨-, hsame⟩ | ⟨-, hrefusal, heffect⟩
  · rw [hsame]
  · rw [heffect]
    apply c.getElem?_effect m hrefusal
    have hout : ¬(Cell.size * c.place m ≤ n ∧
        n < Cell.size * (c.place m + (c.written m).length)) := by
      rw [m.extent_of_write c f h] at hn
      exact hn
    simp only [Cell.size] at hout ⊢
    omega

/-! ## Reading -/

variable (m' : Memory)

theorem cell_congr (place : Nat)
    (h : ∀ n, Cell.size * place ≤ n → n < Cell.size * (place + 1) → m.bytes[n]? = m'.bytes[n]?) :
    m.buffer.cell place = m'.buffer.cell place := by
  have hbyte (k : Nat) (hk : k < Cell.size) :
      m.buffer.byte (Cell.size * place + k) = m'.buffer.byte (Cell.size * place + k) := by
    have hsame := h (Cell.size * place + k) (Nat.le_add_right _ _)
      (by rw [Nat.mul_succ]; exact Nat.add_lt_add_left hk _)
    rw [Buffer.byte_eq, Buffer.byte_eq, List.getD_eq_getElem?_getD, List.getD_eq_getElem?_getD]
    exact congrArg (Option.getD · 0) hsame
  have h0 := hbyte 0 (by decide)
  rw [Nat.add_zero] at h0
  rw [Buffer.cell, Buffer.cell, h0, hbyte 1 (by decide), hbyte 2 (by decide), hbyte 3 (by decide)]

theorem dataCells_congr (hlayout : m.layout = m'.layout) (start count : Nat)
    (h : ∀ n, 4 * (m.layout.prefixCells + start) ≤ n →
      n < 4 * (m.layout.prefixCells + start + count) → m.bytes[n]? = m'.bytes[n]?) :
    m.dataCells start count = m'.dataCells start count := by
  rw [dataCells, dataCells, List.map_inj_left]
  intro i hi
  obtain ⟨hfrom, hto⟩ := List.mem_range'_1.1 hi
  rw [dataCell, dataCell, prefixCells, prefixCells, ← hlayout]
  apply m.cell_congr m'
  intro n hn hn'
  simp only [Cell.size] at hn hn'
  exact h n (by omega) (by omega)

theorem header_congr (h : ∀ n < 12, m.bytes[n]? = m'.bytes[n]?) : m.header = m'.header := by
  have hcell (k : Nat) (hk : k < Header.cells) : m.buffer.cell k = m'.buffer.cell k := by
    apply m.cell_congr m'
    intro n _ hn
    simp only [Cell.size, Header.cells] at hn hk
    exact h n (by omega)
  rw [header, header, hcell 0 (by decide), hcell 1 (by decide), hcell 2 (by decide)]

/-- Reads of data cells are refused for the number of data cells alone, and what they answer and
report is computed from the cells that they address. -/
theorem reply_of_dataCells (c : Call) (f : Footprint) (h : c.role = some (.read, f))
    (hf : f ≠ .header) (hcount : m.cellCount = m'.cellCount)
    (hcells : c.refusal m = none → m.dataCells c.index c.span = m'.dataCells c.index c.span) :
    (m.perform c).2 = (m'.perform c).2 := by
  have hrun := m.runRefusal_congr m' hcount
  cases c with
  | read k index =>
    apply m.reply_congr m' (.read k index) (hrun index 1)
    intro hnone
    have hcell : m.dataCell index = m'.dataCell index := List.head_eq_of_cons_eq (hcells hnone)
    rw [Call.answer, Call.answer, Call.report, Call.report, hcell]
    exact ⟨rfl, rfl⟩
  | view k start count inPlace =>
    apply m.reply_congr m' (.view k start count inPlace) (hrun start count)
    intro hnone
    have hseen : m.dataCells start count = m'.dataCells start count := hcells hnone
    rw [Call.answer, Call.answer, hseen]
    exact ⟨rfl, rfl⟩
  | copy k start count =>
    apply m.reply_congr m' (.copy k start count) (hrun start count)
    intro hnone
    have hseen : m.dataCells start count = m'.dataCells start count := hcells hnone
    rw [Call.answer, Call.answer, Call.report, Call.report, hseen]
    exact ⟨rfl, rfl⟩
  | readHeader =>
    cases h
    exact absurd rfl hf
  | _ => cases h

theorem reply_perform (c : Call) (f : Footprint) (h : c.role = some (.read, f))
    (hlayout : m.layout = m'.layout) (hcount : m.cellCount = m'.cellCount)
    (hagree : ∀ n ∈ f.extent m.layout c, m.bytes[n]? = m'.bytes[n]?) :
    (m.perform c).2 = (m'.perform c).2 := by
  cases f with
  | single =>
    apply m.reply_of_dataCells m' c .single h (by decide) hcount
    intro _
    rw [c.span_of_single .read h]
    exact m.dataCells_congr m' hlayout c.index 1 fun n hfrom hto => hagree n ⟨hfrom, hto⟩
  | run =>
    apply m.reply_of_dataCells m' c .run h (by decide) hcount
    intro _
    exact m.dataCells_congr m' hlayout c.index c.span fun n hfrom hto => hagree n ⟨hfrom, hto⟩
  | header =>
    obtain rfl := c.eq_readHeader h
    apply m.reply_congr m' .readHeader (m.headerRefusal_congr m' hlayout)
    intro _
    have hheader := m.header_congr m' fun n hn => hagree n ⟨Nat.zero_le n, hn⟩
    rw [Call.answer, Call.answer, hheader]
    exact ⟨rfl, rfl⟩

end Memory

/-! ## One call of each name -/

/-- The operations on a memory that is there before and afterwards: the accessors, and the other
operations except those that make a memory or give one up. -/
def borrowing : List String :=
  accessors.map (·.name) ++
    otherOperations.filter (· ∉ ["new", "with_layout", "from_bytes", "into_bytes"])

namespace Call

/-- A call of each operation. Those for writing put something other than zeros into the first data
cell or into the header. -/
def samples : List Call := [
  .write .int32 0 (-1),
  .read .int32 0,
  .write .uint32 0 1,
  .read .uint32 0,
  .write .boolean 0 true,
  .read .boolean 0,
  .write .raw 0 [1],
  .read .raw 0,
  .writeBatch .int32 0 [-1],
  .writeBatch .uint32 0 [1],
  .writeBatch .boolean 0 [true],
  .writeBatch .raw 0 [[1]],
  .view .int32 0 1 (by decide),
  .view .uint32 0 1 (by decide),
  .view .raw 0 1 (by decide),
  .copy .int32 0 1,
  .copy .uint32 0 1,
  .copy .boolean 0 1,
  .copy .raw 0 1,
  .writeHeader ⟨1, 1, 0⟩,
  .writeMemberId 1,
  .readHeader,
  .cellCount,
  .prefixCells,
  .layout,
  .totalBytes,
  .bytes,
  .dataBytes]

theorem name_samples : samples.map name = borrowing := by decide

theorem exists_sample (operation : String) (h : operation ∈ borrowing) :
    ∃ c ∈ samples, c.name = operation := by
  rw [← name_samples] at h
  exact List.mem_map.1 h

/-- On a zeroed memory of one data cell every sample for writing changes bytes. -/
theorem samples_change : ∃ o : Origin, ∃ m : Memory, o.make.value = .ok m ∧
    ∀ c ∈ samples, c.role.map Prod.fst = some .write → (m.perform c).1.bytes ≠ m.bytes := by
  refine ⟨.blank 1 default, _, rfl, ?_⟩
  decide +kernel

theorem classify_accessors : ∀ a ∈ accessors, Direction.classify a.name = some a.direction := by decide

/-- Each operation on a memory is the name of some calls, and it announces writing just if one of
these changes the bytes of a memory. Under a name that announces no writing, no call changes a memory
at all. An entry of the manifest tells the direction that its name announces. If it is writing, then
no call of that name changes a byte outside the footprint; if it is reading, then the replies are the
same on all memories of one layout and size that agree on the bytes of the footprint. -/
theorem manifest_truthful :
    (∀ operation ∈ borrowing, (∃ c : Call, c.name = operation) ∧
      (Direction.classify operation = some .write ↔
        ∃ (o : Origin) (m : Memory) (c : Call), o.make.value = .ok m ∧ c.name = operation ∧
          (m.perform c).1.bytes ≠ m.bytes)) ∧
    (∀ c : Call, Direction.classify c.name ≠ some .write → ∀ m : Memory, (m.perform c).1 = m) ∧
    ∀ (operation : String) (a : Accessor), findAccessor operation = some a →
      Direction.classify operation = some a.direction ∧
      ∀ c : Call, c.name = operation →
        (a.direction = .write → ∀ (m : Memory) (n : Nat), n ∉ a.footprint.extent m.layout c →
          (m.perform c).1.bytes[n]? = m.bytes[n]?) ∧
        (a.direction = .read → ∀ m m' : Memory, m.layout = m'.layout →
          m.cellCount = m'.cellCount →
          (∀ n ∈ a.footprint.extent m.layout c, m.bytes[n]? = m'.bytes[n]?) →
          (m.perform c).2 = (m'.perform c).2) := by
  have hkeeps (c : Call) (h : Direction.classify c.name ≠ some .write) (m : Memory) :
      (m.perform c).1 = m := by
    apply m.perform_of_role c
    intro f hrole
    rw [c.classify_name, hrole] at h
    exact h rfl
  refine ⟨?_, hkeeps, ?_⟩
  · intro operation hoperation
    obtain ⟨sample, hsample, rfl⟩ := exists_sample operation hoperation
    refine ⟨⟨sample, rfl⟩, ?_, ?_⟩
    · intro hwrite
      obtain ⟨o, m, hm, hchange⟩ := samples_change
      rw [sample.classify_name] at hwrite
      exact ⟨o, m, sample, hm, rfl, hchange sample hsample hwrite⟩
    · rintro ⟨o, m, c, -, hname, hchange⟩
      apply Decidable.byContradiction
      intro hread
      rw [← hname] at hread
      exact hchange (congrArg Memory.bytes (hkeeps c hread m))
  · intro operation a ha
    have hname : a.name = operation := by simpa using List.find?_some ha
    refine ⟨?_, ?_⟩
    · rw [← hname]
      exact classify_accessors a (List.mem_of_find?_eq_some ha)
    · rintro c rfl
      rw [c.findAccessor_name] at ha
      obtain ⟨⟨direction, footprint⟩, hrole, rfl⟩ := Option.map_eq_some_iff.1 ha
      refine ⟨?_, ?_⟩
      · rintro rfl m n hn
        exact m.getElem?_perform c footprint hrole n hn
      · rintro rfl m m' hlayout hcount hagree
        exact m.reply_perform m' c footprint hrole hlayout hcount hagree

/-- Two memories that agree in the first of two data cells and in nothing else: it is read alike from
both, and a write to the second one leaves it alone. -/
theorem manifest_truthful_two_cells :
    (∃ c : Call, c.name = "write_boolean") ∧
      ∃ m m', (Memory.ofBytes (List.replicate 12 0 ++ [7, 7, 7, 7, 1, 2, 3, 4]) default).value = .ok m ∧
        (Memory.ofBytes (List.replicate 12 9 ++ [7, 7, 7, 7, 5, 6, 7, 8]) default).value = .ok m' ∧
        (m.perform .totalBytes).1 = m ∧
        (m.perform (.write .boolean 1 true)).1.bytes[12]? = some 7 ∧
        (m.perform (.read .int32 0)).2 = (m'.perform (.read .int32 0)).2 := by
  obtain ⟨m, hm, hlayout, hbytes⟩ :=
    Memory.exists_ofBytes (List.replicate 12 0 ++ [7, 7, 7, 7, 1, 2, 3, 4]) default 2 rfl (by decide)
  obtain ⟨m', hm', hlayout', hbytes'⟩ :=
    Memory.exists_ofBytes (List.replicate 12 9 ++ [7, 7, 7, 7, 5, 6, 7, 8]) default 2 rfl (by decide)
  have hcount : m.cellCount = m'.cellCount :=
    (Origin.cellCount_of_make (.adopted _ default) m hm).trans
      (Origin.cellCount_of_make (.adopted _ default) m' hm').symm
  obtain ⟨hnames, hkeeps, hentries⟩ := manifest_truthful
  obtain ⟨-, hwrite⟩ := hentries "write_boolean" ⟨"write_boolean", .write, .single⟩ (by decide)
  obtain ⟨-, hread⟩ := hentries "read_int32" ⟨"read_int32", .read, .single⟩ (by decide)
  refine ⟨(hnames "write_boolean" (by decide)).1, m, m', hm, hm', hkeeps .totalBytes (by decide) m,
    ?_, ?_⟩
  · have houtside : 12 ∉ Footprint.single.extent m.layout (.write .boolean 1 true) := by
      rw [hlayout]
      decide
    rw [(hwrite (.write .boolean 1 true) rfl).1 rfl m 12 houtside, hbytes]
    rfl
  · apply (hread (.read .int32 0) rfl).2 rfl m m' (hlayout.trans hlayout'.symm) hcount
    rintro n ⟨hfrom, hto⟩
    rw [hlayout] at hfrom hto
    have hn : n = 12 ∨ n = 13 ∨ n = 14 ∨ n = 15 := by
      change 12 ≤ n at hfrom
      change n < 16 at hto
      omega
    rw [hbytes, hbytes']
    rcases hn with rfl | rfl | rfl | rfl <;> rfl

end Call

end CellMemory
