import CellMemory.Proofs.Numeral
import CellMemory.Proofs.Reading

/-! # Reports of odd patterns

A word that is read as a boolean is reported if it is neither zero nor all ones. The reports of a run
are exact: each tells of a cell that is being read and of the word that is in it by then, no such cell
is passed over, and the text has the word's digits. So nothing is ever reported of a memory that is
zero at the start and gets canonical values only.

* `Kind.events_decodeAll_boolean`: what is reported of the cells of a run.
* `Memory.events_read_boolean`, `Memory.events_copy_boolean`, `Memory.silent_perform`: the reports of
  one call.
* `Memory.lastWord`, `Memory.word_dataCell_run`: the word that a cell has after some calls.
* `Call.WritesCanonical`, `Memory.Canonical`: calls and memories without odd patterns. One call keeps
  this (`Memory.canonical_perform`), so a run has nothing to report (`Memory.silent_run`).
* `Memory.boolean_reports_exact`: these facts together.
-/

namespace CellMemory
set_option autoImplicit false

/-! ## Patterns -/

theorem Boolean.canonical_iff (w : UInt32) : Canonical w ↔ w = 0 ∨ w = 4294967295 := Iff.rfl

namespace Kind

theorem events_decode_boolean (c : Cell) :
    (boolean.decode c).events =
      if c.word ≠ 0 ∧ c.word ≠ 4294967295 then [.nonCanonicalBoolean c.word] else [] := by
  simp only [decode, Boolean.decode, Boolean.canonical_iff, ← not_or, ite_not]

/-- The odd cells of a run are reported one by one, in their order. -/
theorem events_decodeAll_boolean (cells : List Cell) :
    (boolean.codec.decodeAll cells).events =
      (cells.filter fun c => c.word ≠ 0 ∧ c.word ≠ 4294967295).map fun c =>
        .nonCanonicalBoolean c.word := by
  induction cells with
  | nil => rfl
  | cons c cells ih =>
    have hcons : (boolean.codec.decodeAll (c :: cells)).events =
        (boolean.decode c).events ++ (boolean.codec.decodeAll cells).events := rfl
    rw [hcons, ih, events_decode_boolean, List.filter_cons]
    by_cases hc : c.word ≠ 0 ∧ c.word ≠ 4294967295
    · rw [if_pos hc, if_pos (decide_eq_true hc)]
      rfl
    · rw [if_neg hc, if_neg (by rw [decide_eq_false hc]; exact Bool.false_ne_true)]
      rfl

end Kind

theorem Event.text_nonCanonicalBoolean (w : UInt32) :
    (nonCanonicalBoolean w).text =
      "Non-canonical boolean pattern 0x" ++ String.ofList (Numeral.wordDigits w) ++
        " read as true" := rfl

namespace Memory

variable (m : Memory)

/-! ## The reports of one call -/

theorem events_read_boolean (index : Nat) :
    (m.perform (.read .boolean index)).2.events =
      if Reply.succeeded (m.perform (.read .boolean index)).2 ∧ (m.dataCell index).word ≠ 0 ∧
          (m.dataCell index).word ≠ 4294967295
      then [.nonCanonicalBoolean (m.dataCell index).word] else [] := by
  cases h : (Call.read .boolean index).refusal m with
  | none =>
    rw [m.perform_accepted _ h, Call.report, Kind.events_decode_boolean]
    simp only [Reply.succeeded, true_and]
  | some fault =>
    rw [m.perform_refused _ fault h]
    rfl

theorem events_copy_boolean (start count : Nat) :
    (m.perform (.copy .boolean start count)).2.events =
      if Reply.succeeded (m.perform (.copy .boolean start count)).2 then
        ((List.range' start count).filter fun i =>
          (m.dataCell i).word ≠ 0 ∧ (m.dataCell i).word ≠ 4294967295).map fun i =>
            .nonCanonicalBoolean (m.dataCell i).word
      else [] := by
  cases h : (Call.copy .boolean start count).refusal m with
  | none =>
    rw [m.perform_accepted _ h, Call.report, Kind.events_decodeAll_boolean, dataCells,
      List.filter_map, List.map_map]
    rfl
  | some fault =>
    rw [m.perform_refused _ fault h]
    rfl

/-- Only booleans that are read or copied are looked at for odd patterns. -/
theorem silent_perform (c : Call) (hread : ∀ i, c ≠ .read .boolean i)
    (hcopy : ∀ start count, c ≠ .copy .boolean start count) (w : UInt32) :
    .nonCanonicalBoolean w ∉ (m.perform c).2.events := by
  cases h : c.refusal m with
  | some fault =>
    rw [m.perform_refused c fault h]
    exact List.not_mem_nil
  | none =>
    rw [m.perform_accepted c h]
    cases c with
    | read k index =>
      have hk : k ≠ .boolean := fun hk => hread index (by rw [hk])
      rw [Call.report, k.events_decode hk]
      exact List.not_mem_nil
    | copy k start count =>
      have hk : k ≠ .boolean := fun hk => hcopy start count (by rw [hk])
      rw [Call.report, k.events_decodeAll_of_ne hk]
      exact List.not_mem_nil
    | _ => simp [Call.report]

/-! ## The word in a cell -/

/-- The word of a data cell after some calls, by what the last successful write to the cell gave, or
by the bytes at the start if there was none. -/
def lastWord (calls : List Call) (i : Nat) : UInt32 :=
  .ofNat (LittleEndian.value (match m.lastGiven i calls with
    | some ⟨k, v⟩ => k.wire v
    | none => (m.bytes.drop (4 * (m.prefixCells + i))).take 4))

/-- There are zeros past the end of the buffer. -/
theorem word_dataCell (i : Nat) :
    (m.dataCell i).word =
      .ofNat (LittleEndian.value ((m.bytes.drop (4 * (m.prefixCells + i))).take 4)) := by
  by_cases hi : i < m.cellCount
  · rw [Kind.word_eq, m.bytes_dataCell i hi, Nat.mul_comm]
    rfl
  · have hpast (k : Nat) : m.buffer.byte (Cell.size * (m.prefixCells + i) + k) = 0 := by
      refine dif_neg (Nat.not_lt.2 ?_)
      have hsize : m.buffer.data.size = (m.prefixCells + m.cellCount) * Cell.size := m.size_eq
      rw [hsize, Cell.size]
      omega
    have hnone : m.bytes.drop (4 * (m.prefixCells + i)) = [] := by
      rw [List.drop_eq_nil_iff, m.length_bytes, Cell.size]
      omega
    rw [hnone]
    exact (Kind.word_eq_zero _).2 ⟨hpast 0, hpast 1, hpast 2, hpast 3⟩

theorem word_dataCell_run (calls : List Call) (i : Nat) :
    ((m.run calls).1.dataCell i).word = m.lastWord calls i := by
  have hrun := m.bytes_dataCell_run i calls
  rw [lastWord]
  cases hgiven : m.lastGiven i calls with
  | none =>
    rw [hgiven] at hrun
    have hstart := m.word_dataCell i
    rw [Kind.word_eq] at hstart
    rw [Kind.word_eq, hrun]
    exact hstart
  | some w =>
    rw [hgiven] at hrun
    rw [Kind.word_eq, hrun]
    rfl

end Memory

/-! ## Canonical values -/

/-- Whether an input is a boolean, or an integer whose word is zero or all ones. -/
def Kind.CanonicalInput : (k : Kind) → k.Input → Prop
  | int32, v => v = 0 ∨ v = -1
  | uint32, v => v = 0 ∨ v = 4294967295
  | boolean, _ => True
  | raw, _ => False

theorem Kind.canonical_cellOf (k : Kind) (v : k.Input) (h : k.CanonicalInput v) :
    Boolean.Canonical (k.cellOf v).word := by
  cases k with
  | int32 =>
    rcases h with rfl | rfl
    · exact .inl rfl
    · exact .inr rfl
  | uint32 =>
    rcases h with rfl | rfl
    · exact .inl rfl
    · exact .inr rfl
  | boolean =>
    cases v
    · exact .inl rfl
    · exact .inr rfl
  | raw => exact h.elim

/-- Whether a call puts canonical values only into the data cells. -/
def Call.WritesCanonical : Call → Prop
  | write k _ v => k.CanonicalInput v
  | writeBatch k _ vs => ∀ v ∈ vs, k.CanonicalInput v
  | _ => True

/-- No data cell has an odd pattern. -/
def Memory.Canonical (m : Memory) : Prop := ∀ i, Boolean.Canonical (m.dataCell i).word

theorem Call.canonical_of_gives (i : Nat) (c : Call) (hc : c.WritesCanonical)
    (w : (k : Kind) × k.Input) (hw : c.gives i = some w) : w.1.CanonicalInput w.2 := by
  cases c with
  | write k index v =>
    simp only [gives, Option.ite_none_right_eq_some, Option.some.injEq] at hw
    obtain ⟨-, rfl⟩ := hw
    exact hc
  | writeBatch k start vs =>
    simp only [gives, Option.ite_none_right_eq_some, Option.map_eq_some_iff] at hw
    obtain ⟨-, v, hv, rfl⟩ := hw
    exact hc v (List.mem_of_getElem? hv)
  | _ => cases hw

namespace Memory

variable (m : Memory)

theorem canonical_of_blank (h : ∀ b ∈ m.dataBytes, b = 0) : m.Canonical := by
  have hbyte (n : Nat) (hn : m.prefixCells * Cell.size ≤ n) : m.buffer.byte n = 0 := by
    rw [Buffer.byte_eq, List.getD_eq_getElem?_getD]
    cases hb : m.buffer.toList[n]? with
    | none => rfl
    | some b =>
      have hdata : m.dataBytes[n - m.prefixCells * Cell.size]? = some b := by
        rw [dataBytes, List.getElem?_drop, Nat.add_sub_of_le hn]
        exact hb
      exact h b (List.mem_of_getElem? hdata)
  intro i
  have hcell (k : Nat) : m.buffer.byte (Cell.size * (m.prefixCells + i) + k) = 0 :=
    hbyte _ (by simp only [Cell.size]; omega)
  exact .inl ((Kind.word_eq_zero _).2 ⟨hcell 0, hcell 1, hcell 2, hcell 3⟩)

section Canonical
variable (hm : m.Canonical)

include hm

theorem canonical_perform (c : Call)
    (hc : Reply.succeeded (m.perform c).2 = true → c.WritesCanonical) :
    (m.perform c).1.Canonical := by
  rcases m.perform_cases c with ⟨-, hsame⟩ | ⟨hsucceeded, hrefusal, heffect⟩
  · rw [hsame]
    exact hm
  · intro i
    rw [heffect, c.dataCell_effect m i hrefusal]
    cases hw : c.gives i with
    | none => exact hm i
    | some w => exact w.1.canonical_cellOf w.2 (c.canonical_of_gives i (hc hsucceeded) w hw)

theorem silent_of_canonical (c : Call) (w : UInt32) :
    .nonCanonicalBoolean w ∉ (m.perform c).2.events := by
  have hnone (i : Nat) : ¬((m.dataCell i).word ≠ 0 ∧ (m.dataCell i).word ≠ 4294967295) :=
    fun h => (hm i).elim h.1 h.2
  by_cases hread : ∃ i, c = .read .boolean i
  · obtain ⟨i, rfl⟩ := hread
    rw [events_read_boolean, if_neg fun h => hnone i h.2]
    exact List.not_mem_nil
  · by_cases hcopy : ∃ start count, c = .copy .boolean start count
    · obtain ⟨start, count, rfl⟩ := hcopy
      have hempty : ((List.range' start count).filter fun i =>
          (m.dataCell i).word ≠ 0 ∧ (m.dataCell i).word ≠ 4294967295) = [] :=
        List.filter_eq_nil_iff.2 fun i _ hi => hnone i (of_decide_eq_true hi)
      rw [events_copy_boolean, hempty, List.map_nil, ite_self]
      exact List.not_mem_nil
    · exact m.silent_perform c (fun i hi => hread ⟨i, hi⟩)
        (fun start count hc => hcopy ⟨start, count, hc⟩) w

/-- By induction on the calls: a memory with canonical patterns only reports none of them, and the next
one has canonical patterns only. -/
theorem silent_run (calls : List Call)
    (hcalls : ∀ c reply, (c, reply) ∈ calls.zip (m.run calls).2 → Reply.succeeded reply = true →
      c.WritesCanonical) (reply : Reply) (hreply : reply ∈ (m.run calls).2) (w : UInt32) :
    .nonCanonicalBoolean w ∉ reply.events := by
  induction calls generalizing m with
  | nil => cases hreply
  | cons c rest ih =>
    have hfirst := hcalls c (m.perform c).2 List.mem_cons_self
    rcases List.mem_cons.1 hreply with rfl | hlater
    · exact m.silent_of_canonical hm c w
    · refine ih (m.perform c).1 (m.canonical_perform hm c hfirst) ?_ hlater
      intro c' reply' hmem
      exact hcalls c' reply' (List.mem_cons_of_mem _ hmem)

end Canonical

/-! ## Everything together -/

/-- Take any calls on a memory, and the word that each data cell has by the last successful write to
it. A boolean that is read is reported just if the call succeeds and the word of its cell is neither
zero nor all ones. A copy of booleans that succeeds reports each such cell of the run once, in the
order of the cells, and a call of another sort reports none. A report has the eight hexadecimal digits
of the word. If the data are zero at the start and all successful writes to them are of booleans and of
integers whose word is zero or all ones, then there is no such report in any reply. -/
theorem boolean_reports_exact (calls : List Call) :
    (∀ n c, calls[n]? = some c → ∃ reply, (m.run calls).2[n]? = some reply ∧
      let word := m.lastWord (calls.take n)
      (∀ i, c = .read .boolean i → reply.events =
        if Reply.succeeded reply ∧ word i ≠ 0 ∧ word i ≠ 4294967295
        then [.nonCanonicalBoolean (word i)] else []) ∧
      (∀ start count, c = .copy .boolean start count → reply.events =
        if Reply.succeeded reply then
          ((List.range' start count).filter fun i => word i ≠ 0 ∧ word i ≠ 4294967295).map
            fun i => .nonCanonicalBoolean (word i)
        else []) ∧
      ((∀ i, c ≠ .read .boolean i) → (∀ start count, c ≠ .copy .boolean start count) →
        ∀ w, .nonCanonicalBoolean w ∉ reply.events)) ∧
    (∀ w : UInt32, ∃ digits, (Event.nonCanonicalBoolean w).text =
        "Non-canonical boolean pattern 0x" ++ String.ofList digits ++ " read as true" ∧
      digits.length = 8 ∧ (∀ d ∈ digits, d ∈ Numeral.hexDigits) ∧
      Numeral.ofHex digits = w.toNat) ∧
    ((∀ b ∈ m.dataBytes, b = 0) →
      (∀ c reply, (c, reply) ∈ calls.zip (m.run calls).2 → Reply.succeeded reply = true →
        c.WritesCanonical) →
      ∀ reply ∈ (m.run calls).2, ∀ w, .nonCanonicalBoolean w ∉ reply.events) := by
  refine ⟨?_, ?_, fun hblank => m.silent_run (m.canonical_of_blank hblank) calls⟩
  · intro n c hc
    have hword := m.word_dataCell_run (calls.take n)
    refine ⟨_, by rw [m.getElem?_replies, hc, Option.map_some], ?_, ?_, silent_perform _ c⟩
    · rintro i rfl
      rw [events_read_boolean, hword]
    · rintro start count rfl
      simp only [events_copy_boolean, hword]
  · intro w
    exact ⟨Numeral.wordDigits w, Event.text_nonCanonicalBoolean w, Numeral.length_wordDigits w,
      Numeral.mem_wordDigits w, Numeral.ofHex_wordDigits w⟩

/-- The words `1`, `0` and `2 ^ 32 - 1`, copied as booleans; then the second one gets another word and
is read. And two cells that are zero at the start: one gets all ones, a batch reaches too far, and the
prefix gets a header. -/
theorem boolean_reports_exact_few_cells :
    (∃ m, (ofBytes [1, 0, 0, 0, 0, 0, 0, 0, 255, 255, 255, 255] { prefixCells := 0 }).value =
        .ok m ∧
      let calls : List Call := [.copy .boolean 0 3, .write .uint32 1 3735928559, .read .boolean 1]
      (m.run calls).2[0]?.map Traced.events = some [.nonCanonicalBoolean 1] ∧
        (m.run calls).2[2]?.map Traced.events = some [.nonCanonicalBoolean 3735928559]) ∧
    ∃ m, (allocate 2 default).value = .ok m ∧
      ∀ reply ∈ (m.run [.write .int32 0 (-1), .writeBatch .uint32 1 [4294967295, 0],
        .writeMemberId 9, .copy .boolean 0 2]).2, ∀ w, .nonCanonicalBoolean w ∉ reply.events := by
  constructor
  · obtain ⟨calls, hcalls⟩ : ∃ calls : List Call, calls = [.copy .boolean 0 3,
        .write .uint32 1 3735928559, .read .boolean 1] := ⟨_, rfl⟩
    obtain ⟨m, hm, hcopied, hread, hpatterns, hword⟩ : ∃ m,
        (ofBytes [1, 0, 0, 0, 0, 0, 0, 0, 255, 255, 255, 255] { prefixCells := 0 }).value =
          .ok m ∧
        (m.run calls).2[0]?.map Reply.succeeded = some true ∧
        (m.run calls).2[2]?.map Reply.succeeded = some true ∧
        (((List.range' 0 3).filter fun i =>
          m.lastWord (calls.take 0) i ≠ 0 ∧ m.lastWord (calls.take 0) i ≠ 4294967295).map
            fun i => Event.nonCanonicalBoolean (m.lastWord (calls.take 0) i)) =
          [.nonCanonicalBoolean 1] ∧
        m.lastWord (calls.take 2) 1 = 3735928559 := by
      rw [hcalls]
      exact ⟨_, rfl, by decide +kernel, by decide +kernel, by decide +kernel, by decide +kernel⟩
    obtain ⟨hexact, -, -⟩ := m.boolean_reports_exact calls
    obtain ⟨first, hfirst, -, hcopy, -⟩ := hexact 0 (.copy .boolean 0 3) (by rw [hcalls]; rfl)
    obtain ⟨last, hlast, hone, -, -⟩ := hexact 2 (.read .boolean 1) (by rw [hcalls]; rfl)
    rw [hfirst] at hcopied
    rw [hlast] at hread
    have hthree := hcopy 0 3 rfl
    rw [if_pos (Option.some.inj hcopied), hpatterns] at hthree
    have hsecond := hone 1 rfl
    rw [hword, if_pos ⟨Option.some.inj hread, by decide, by decide⟩] at hsecond
    have hevents : (m.run calls).2[0]?.map Traced.events = some [.nonCanonicalBoolean 1] := by
      rw [hfirst, Option.map_some, hthree]
    have hevents' :
        (m.run calls).2[2]?.map Traced.events = some [.nonCanonicalBoolean 3735928559] := by
      rw [hlast, Option.map_some, hsecond]
    refine ⟨m, hm, ?_⟩
    subst hcalls
    exact ⟨hevents, hevents'⟩
  · obtain ⟨m, hm, hblank⟩ : ∃ m, (allocate 2 default).value = .ok m ∧
        m.dataBytes.all (· == 0) = true := ⟨_, rfl, by decide +kernel⟩
    obtain ⟨-, -, hnever⟩ := m.boolean_reports_exact [.write .int32 0 (-1),
      .writeBatch .uint32 1 [4294967295, 0], .writeMemberId 9, .copy .boolean 0 2]
    refine ⟨m, hm, hnever ?_ ?_⟩
    · intro b hb
      exact eq_of_beq (List.all_eq_true.1 hblank b hb)
    · intro c reply hmem _
      have hc := (List.of_mem_zip hmem).1
      simp only [List.mem_cons, List.not_mem_nil, or_false] at hc
      rcases hc with rfl | rfl | rfl | rfl
      · exact .inr rfl
      · simp [Call.WritesCanonical, Kind.CanonicalInput]
      · trivial
      · trivial

end Memory

end CellMemory
