import CellMemory.Proofs.Frame
import CellMemory.Proofs.Origin

/-! # The prefix over runs

The prefix is reached through the header only. With room for a header its first cells hold the one
written last, and the rest of it never changes; without room none of it does.

* `Call.announces`: the header that a call writes.
* `Call.header_effect`, `Memory.header_run`: the header after one call and after a run.
* `Memory.headerCount_run`, `Memory.headerCount_writeMemberId`: a count that was written with a member
  id stays right until a whole header is written.
* `Call.getElem?_prefix_effect`, `Memory.prefix_run`: the bytes beside the header.
* `Origin.prefix_over_runs`: what is read from the prefix at the end of any run.
-/

namespace CellMemory
set_option autoImplicit false

/-- The header that a call writes into a memory of so many data cells, if it writes one. -/
def Call.announces (cellCount : Nat) : Call → Option Header
  | writeHeader h => some h
  | writeMemberId id => some ⟨id, .ofNat cellCount, 0⟩
  | _ => none

/-! ## The header after one call -/

namespace Memory

variable (m : Memory)

theorem header_putCells (h : Header) (hp : Header.cells ≤ m.prefixCells) :
    (m.putCells 0 h.asCells).header = h := by
  have hfits : (0 + h.asCells.length) * Cell.size ≤ m.buffer.size := (m.inside_header hp).2
  have hcell (n : Nat) :
      (m.putCells 0 h.asCells).buffer.cell n = h.asCells.getD n (m.buffer.cell n) := by
    rw [m.cell_putCells 0 n _ hfits, if_pos (Nat.zero_le n), Nat.sub_zero]
  rw [header, hcell 0, hcell 1, hcell 2]
  apply Header.ext
  · exact Cell.word_ofWord h.memberId
  · exact Cell.word_ofWord h.cellCount
  · exact Cell.word_ofWord h.reserved

theorem header_putCells_of_le (place : Nat) (cells : List Cell)
    (h : (place + cells.length) * Cell.size ≤ m.buffer.size) (hplace : Header.cells ≤ place) :
    (m.putCells place cells).header = m.header := by
  have hcell (n : Nat) (hn : n < Header.cells) :
      (m.putCells place cells).buffer.cell n = m.buffer.cell n := by
    rw [m.cell_putCells place n cells h, if_neg (by omega)]
  rw [header, hcell 0 (by decide), hcell 1 (by decide), hcell 2 (by decide), header]

end Memory

namespace Call

variable (m : Memory) (c : Call)

theorem header_effect (h : c.refusal m = none) (hp : Header.cells ≤ m.prefixCells) :
    (c.effect m).header = (c.announces m.cellCount).getD m.header := by
  have hfits := c.written_fits m h
  cases c with
  | writeHeader header =>
    rw [effect_eq]
    exact m.header_putCells header hp
  | writeMemberId id =>
    rw [effect_eq]
    exact m.header_putCells _ hp
  | write k index v => exact m.header_putCells_of_le _ _ hfits (Nat.le_add_right_of_le hp)
  | writeBatch k start vs => exact m.header_putCells_of_le _ _ hfits (Nat.le_add_right_of_le hp)
  | _ => rfl

/-- A byte of the prefix is changed by no call, unless it is a byte of the header. -/
theorem getElem?_prefix_effect (h : c.refusal m = none) (n : Nat)
    (hn : n < m.prefixCells * Cell.size) (hout : Header.cells ≤ m.prefixCells → Header.size ≤ n) :
    (c.effect m).bytes[n]? = m.bytes[n]? := by
  apply c.getElem?_effect m h
  rcases c.written_cases m h with ⟨hplace, hnone⟩ | ⟨hplace, hlength, hroom⟩ | ⟨hplace, -⟩
  · right
    rw [hplace, hnone]
    exact Nat.zero_le n
  · right
    -- the call wrote a header, so there is room for one and the byte lies behind it
    rw [hplace, hlength, Nat.zero_add]
    exact hout hroom
  · left
    exact Nat.lt_of_lt_of_le hn (Nat.mul_le_mul_right _ hplace)

end Call

/-! ## Runs -/

namespace Memory

variable (m : Memory) (calls : List Call)

/-- The header of the last call that wrote one. -/
def lastHeader : Option Header := Call.latest (Call.announces m.cellCount) calls (m.run calls).2

theorem header_run (hp : Header.cells ≤ m.prefixCells) :
    (m.run calls).1.header = (m.lastHeader calls).getD m.header := by
  have hrun := m.view_run (Call.announces m.cellCount) calls header id (by
    intro m' c hlayout hcount hc
    have hroom : Header.cells ≤ m'.prefixCells :=
      Nat.le_trans hp (Nat.le_of_eq (congrArg Layout.prefixCells hlayout.symm))
    rw [c.header_effect m' hc hroom, hcount, Option.map_id_fun, id])
  rw [Option.map_id_fun] at hrun
  exact hrun

/-- The count in the header stays right as long as no header with a count of its own is written. -/
theorem headerCount_run (hp : Header.cells ≤ m.prefixCells)
    (hcalls : ∀ c ∈ calls, ∀ h, c ≠ .writeHeader h)
    (hm : m.header.cellCount = .ofNat m.cellCount) :
    (m.run calls).1.header.cellCount = .ofNat m.cellCount := by
  apply m.invariant_run (fun c => ∀ h, c ≠ .writeHeader h) calls hcalls
    (fun m' => m'.header.cellCount = .ofNat m.cellCount) hm
  intro m' c hlayout hcount hc hrefusal hheader
  have hroom : Header.cells ≤ m'.prefixCells :=
    Nat.le_trans hp (Nat.le_of_eq (congrArg Layout.prefixCells hlayout.symm))
  rw [c.header_effect m' hrefusal hroom, hcount]
  cases c with
  | writeHeader h => exact absurd rfl (hc h)
  | writeMemberId id => rfl
  | _ => exact hheader

theorem headerCount_writeMemberId (id : UInt32) (hp : Header.cells ≤ m.prefixCells)
    (hword : m.cellCount < UInt32.size) (hcalls : ∀ c ∈ calls, ∀ h, c ≠ .writeHeader h) :
    ((m.perform (.writeMemberId id)).1.run calls).1.header.cellCount.toNat = m.cellCount := by
  have hnone : (Call.writeMemberId id).refusal m = none := by
    rw [Call.refusal, if_pos hword]
    exact m.headerRefusal_eq_none.2 hp
  have hnext : (m.perform (.writeMemberId id)).1 = (Call.writeMemberId id).effect m := by
    rw [m.perform_accepted _ hnone]
  have hroom : Header.cells ≤ (m.perform (.writeMemberId id)).1.prefixCells :=
    Nat.le_trans hp (Nat.le_of_eq (congrArg Layout.prefixCells (m.layout_perform _).symm))
  have hheader : (m.perform (.writeMemberId id)).1.header.cellCount =
      .ofNat (m.perform (.writeMemberId id)).1.cellCount := by
    rw [m.cellCount_perform, hnext, (Call.writeMemberId id).header_effect m hnone hp]
    rfl
  rw [headerCount_run _ calls hroom hcalls hheader, m.cellCount_perform,
    UInt32.toNat_ofNat_of_lt' hword]

theorem getElem?_prefix_run (n : Nat) (hn : n < m.prefixCells * Cell.size)
    (hout : Header.cells ≤ m.prefixCells → Header.size ≤ n) :
    (m.run calls).1.bytes[n]? = m.bytes[n]? := by
  apply m.getElem?_run (fun _ => True) calls (fun _ _ => trivial) n
  intro m' c hwidth _ hrefusal
  rw [← hwidth] at hn hout
  exact c.getElem?_prefix_effect m' hrefusal n hn hout

/-- The bytes of the prefix from some position on. -/
theorem prefix_run (start : Nat) (h : Header.cells ≤ m.prefixCells → Header.size ≤ start) :
    ((m.run calls).1.bytes.take (4 * m.prefixCells)).drop start =
      (m.bytes.take (4 * m.prefixCells)).drop start := by
  apply (m.run calls).1.stretch_congr m
  intro n hfrom hto
  rw [Nat.mul_comm] at hto
  exact m.getElem?_prefix_run calls n hto fun hroom => Nat.le_trans (h hroom) hfrom

/-! ## Reading the header -/

theorem perform_readHeader (hp : Header.cells ≤ m.prefixCells) :
    (m.perform .readHeader).2.value = .ok (.header m.header) := by
  rw [m.perform_accepted .readHeader (m.headerRefusal_eq_none.2 hp)]
  rfl

theorem perform_validateHeader (hp : Header.cells ≤ m.prefixCells) :
    (m.perform .validateHeader).2.value = .ok .done ↔ m.header.cellCount.toNat = m.cellCount := by
  have hheader := m.headerRefusal_eq_none.2 hp
  by_cases hcount : m.header.cellCount.toNat = m.cellCount
  · have hnone : Call.validateHeader.refusal m = none := by
      rw [Call.refusal, hheader, Option.none_or, countRefusal, if_pos hcount]
    rw [m.perform_accepted _ hnone]
    exact iff_of_true rfl hcount
  · have hsome : Call.validateHeader.refusal m =
        some (.lengthMismatch m.cellCount m.header.cellCount.toNat) := by
      rw [Call.refusal, hheader, Option.none_or, countRefusal, if_neg hcount]
    rw [m.perform_refused _ _ hsome]
    exact iff_of_false (fun h => by cases h) hcount

/-- A header with a member id is found valid until a whole header is written. -/
theorem validateHeader_run (before after : List Call) (id : UInt32)
    (hp : Header.cells ≤ m.prefixCells) (hword : m.cellCount < UInt32.size)
    (hafter : ∀ c ∈ after, ∀ h, c ≠ .writeHeader h) :
    ((m.run (before ++ .writeMemberId id :: after)).1.perform .validateHeader).2.value =
      .ok .done := by
  have hroom : Header.cells ≤ (m.run before).1.prefixCells := by
    rw [m.prefixCells_run before]
    exact hp
  have hlast : Header.cells ≤ (m.run (before ++ .writeMemberId id :: after)).1.prefixCells := by
    rw [m.prefixCells_run]
    exact hp
  have hstays := (m.run before).1.headerCount_writeMemberId after id hroom
    (by rw [m.cellCount_run before]; exact hword) hafter
  rw [perform_validateHeader _ hlast, m.cellCount_run, m.run_append, run_cons, hstays,
    m.cellCount_run]

theorem word_cell (n : Nat) (h : (n + 1) * Cell.size ≤ m.buffer.size) :
    (m.buffer.cell n).word =
      .ofNat (LittleEndian.value ((m.bytes.drop (n * Cell.size)).take Cell.size)) := by
  rw [bytes, ← m.buffer.bytes_cell n h, LittleEndian.value_bytes, UInt32.ofNat_toNat]

end Memory

/-! ## From the making of a memory on -/

namespace Origin

/-- The three words, least significant byte first, in the first twelve bytes at the start. -/
def initialHeader (o : Origin) : Header where
  memberId := .ofNat (LittleEndian.value (o.content.take 4))
  cellCount := .ofNat (LittleEndian.value ((o.content.drop 4).take 4))
  reserved := .ofNat (LittleEndian.value ((o.content.drop 8).take 4))

theorem header_make (o : Origin) (m : Memory) (h : o.make.value = .ok m)
    (hp : Header.cells ≤ m.prefixCells) : m.header = o.initialHeader := by
  have hbytes := ((o.make_eq_ok m).1 h).2
  have hfits (n : Nat) (hn : n < Header.cells) : (n + 1) * Cell.size ≤ m.buffer.size :=
    Nat.le_trans (Nat.mul_le_mul_right _ hn) (m.inside_header hp).2
  rw [Memory.header, m.word_cell 0 (hfits 0 (by decide)), m.word_cell 1 (hfits 1 (by decide)),
    m.word_cell 2 (hfits 2 (by decide)), hbytes]
  rfl

/-- Take a memory made in any way and any calls on it. If the prefix has room for a header, the one
read at the end is the last one written, whole, or else what the first twelve bytes spelled at the
start; it is found valid exactly when it tells the number of data cells, which it does from the
writing of a member id to the next writing of a whole header; and the rest of the prefix is what it
was at the start. If it has no room, that is so for all of the prefix. -/
theorem prefix_over_runs (o : Origin) (m : Memory) (h : o.make.value = .ok m)
    (calls : List Call) :
    let last := (m.run calls).1
    let p := o.layout.prefixCells
    (3 ≤ p →
      let header := match m.lastHeader calls with
        | some header => header
        | none => o.initialHeader
      (last.perform .readHeader).2.value = .ok (.header header) ∧
      ((last.perform .validateHeader).2.value = .ok .done ↔
        header.cellCount.toNat = o.cellCount) ∧
      (∀ before id after, calls = before ++ .writeMemberId id :: after →
        (∀ c ∈ after, ∀ h, c ≠ .writeHeader h) → o.cellCount < UInt32.size →
        (last.perform .validateHeader).2.value = .ok .done) ∧
      (last.bytes.take (4 * p)).drop 12 = (o.content.take (4 * p)).drop 12) ∧
    (p < 3 → last.bytes.take (4 * p) = o.content.take (4 * p)) := by
  intro last p
  obtain ⟨hlayout, hbytes⟩ := (o.make_eq_ok m).1 h
  have hwidth : m.prefixCells = p := congrArg Layout.prefixCells hlayout
  have hwidthLast : last.prefixCells = p := (m.prefixCells_run calls).trans hwidth
  have hcount : last.cellCount = o.cellCount :=
    (m.cellCount_run calls).trans (o.cellCount_of_make m h)
  refine ⟨?_, ?_⟩
  · intro hp header
    have hroom : Header.cells ≤ m.prefixCells := by rw [hwidth]; exact hp
    have hroomLast : Header.cells ≤ last.prefixCells := by rw [hwidthLast]; exact hp
    have hheader : last.header = header := by
      have hrun := m.header_run calls hroom
      rw [o.header_make m h hroom] at hrun
      refine hrun.trans ?_
      cases hlast : m.lastHeader calls <;> simp only [header, hlast] <;> rfl
    have hvalid := last.perform_validateHeader hroomLast
    refine ⟨?_, ?_, ?_, ?_⟩
    · rw [last.perform_readHeader hroomLast, hheader]
    · rw [hvalid, hheader, hcount]
    · rintro before id after rfl hafter hword
      rw [← o.cellCount_of_make m h] at hword
      exact m.validateHeader_run before after id hroom hword hafter
    · rw [← hbytes, ← hwidth]
      exact m.prefix_run calls 12 fun _ => Nat.le_refl _
  · intro hp
    have hnone : ¬Header.cells ≤ m.prefixCells := by rw [hwidth]; exact Nat.not_le.2 hp
    rw [← hbytes, ← hwidth]
    exact m.prefix_run calls 0 fun hroom => absurd hroom hnone

/-- Four cells of prefix in front of two data cells: a header with its third word set, data behind
it, a member id, and data again in a run that is one cell too long. Then two cells of prefix, which no
header fits. -/
theorem prefix_over_runs_four_and_two :
    (∃ m, (Memory.ofBytes (List.replicate 24 7) { prefixCells := 4 }).value = .ok m ∧
      let last := (m.run [.writeHeader ⟨1, 7, 5⟩, .write .int32 0 (-1), .writeMemberId 9,
        .writeBatch .uint32 1 [1, 2]]).1
      (last.perform .readHeader).2.value = .ok (.header ⟨9, 2, 0⟩) ∧
        (last.perform .validateHeader).2.value = .ok .done ∧
        (last.bytes.take 16).drop 12 = [7, 7, 7, 7]) ∧
    ∃ m, (Memory.ofBytes (List.replicate 24 7) { prefixCells := 2 }).value = .ok m ∧
      (m.run [.writeMemberId 9, .write .raw 0 [1]]).1.bytes.take 8 = List.replicate 8 7 := by
  obtain ⟨m, hm, hlast⟩ : ∃ m, (Memory.ofBytes (List.replicate 24 7) { prefixCells := 4 }).value =
      .ok m ∧ m.lastHeader [.writeHeader ⟨1, 7, 5⟩, .write .int32 0 (-1), .writeMemberId 9,
        .writeBatch .uint32 1 [1, 2]] = some ⟨9, 2, 0⟩ := ⟨_, rfl, by decide +kernel⟩
  obtain ⟨m', hm', -⟩ :=
    Memory.exists_ofBytes (List.replicate 24 7) { prefixCells := 2 } 4 rfl (by decide)
  have hwide := prefix_over_runs (.adopted (List.replicate 24 7) { prefixCells := 4 }) m hm
    [.writeHeader ⟨1, 7, 5⟩, .write .int32 0 (-1), .writeMemberId 9, .writeBatch .uint32 1 [1, 2]]
  have hnarrow := prefix_over_runs (.adopted (List.replicate 24 7) { prefixCells := 2 }) m' hm'
    [.writeMemberId 9, .write .raw 0 [1]]
  refine ⟨⟨m, hm, ?_⟩, m', hm', hnarrow.2 (by decide)⟩
  obtain ⟨hread, -, hvalid, hrest⟩ := hwide.1 (by decide)
  rw [hlast] at hread
  refine ⟨hread, ?_, hrest⟩
  refine hvalid [.writeHeader ⟨1, 7, 5⟩, .write .int32 0 (-1)] 9 [.writeBatch .uint32 1 [1, 2]] rfl ?_
    (by decide)
  intro c hc h
  rw [List.mem_singleton.1 hc]
  exact fun h => by cases h

end Origin

end CellMemory
