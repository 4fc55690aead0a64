import CellMemory.Proofs.PrefixRegion
import CellMemory.Proofs.Safety

/-! # The journal

The events of a run are a journal of its writes. Every run of cells that was written and every header
that was written has its entry, in order, and nothing else has: a call that fails leaves no trace. So
the header in a memory can be told from the last entry about one.

* `Event.writing?`, `Event.wroteHeader?`: what an event says about a run of cells and about a header.
* `Call.batch?`, `Header.entry`: what a call has to say there.
* `Call.report_cases`: everything that a call can report.
* `Call.told`: what the successful calls of a run tell about a matter, in order.
* `Event.Records`, `Memory.filterMap_journal`: events that record a matter call by call are a record of
  the whole run.
* `Memory.events_allocate`, `Memory.events_ofBytes`: what is reported of a new memory.
* `Memory.journal_faithful`: these facts together.
-/

namespace CellMemory
set_option autoImplicit false

/-! ## Entries -/

namespace Event

/-- How many cells were written, and from which index on. -/
def writing? : Event → Option (Nat × Nat)
  | writing count start => some (count, start)
  | _ => none

def wroteHeader? : Event → Option (UInt32 × UInt32)
  | wroteHeader memberId cellCount => some (memberId, cellCount)
  | _ => none

end Event

/-- What the journal says about a header that was written. Its third word is not told. -/
def Header.entry (h : Header) : UInt32 × UInt32 := (h.memberId, h.cellCount)

/-- How many values a call writes in a run, and from which index on. -/
def Call.batch? : Call → Option (Nat × Nat)
  | writeBatch _ start vs => some (vs.length, start)
  | _ => none

def Call.headerEntry? (cellCount : Nat) (c : Call) : Option (UInt32 × UInt32) :=
  (c.announces cellCount).map Header.entry

/-! ## What a call reports -/

theorem Kind.nonCanonical_of_mem_decode (k : Kind) (c : Cell) (e : Event)
    (he : e ∈ (k.decode c).events) : ∃ pattern, e = .nonCanonicalBoolean pattern := by
  cases k with
  | int32 | uint32 | raw => cases he
  | boolean =>
    simp only [decode, Boolean.decode] at he
    split at he
    · cases he
    · exact ⟨_, List.mem_singleton.1 he⟩

namespace Call

variable (m : Memory) (c : Call)

/-- A call that is carried out writes a run of cells and reports that, or writes a header and reports
that, or does neither and reports patterns of booleans at most. -/
theorem report_cases :
    (∃ count start, c.batch? = some (count, start) ∧ c.announces m.cellCount = none ∧
      c.report m = [.writing count start]) ∨
    (∃ h, c.batch? = none ∧ c.announces m.cellCount = some h ∧
      c.report m = [.wroteHeader h.memberId h.cellCount]) ∨
    (c.batch? = none ∧ c.announces m.cellCount = none ∧
      ∀ e ∈ c.report m, ∃ pattern, e = .nonCanonicalBoolean pattern) := by
  cases c with
  | writeBatch k start vs => exact .inl ⟨_, _, rfl, rfl, rfl⟩
  | writeHeader h => exact .inr (.inl ⟨h, rfl, rfl, rfl⟩)
  | writeMemberId id => exact .inr (.inl ⟨⟨id, .ofNat m.cellCount, 0⟩, rfl, rfl, rfl⟩)
  | read k index =>
    refine .inr (.inr ⟨rfl, rfl, ?_⟩)
    exact k.nonCanonical_of_mem_decode _
  | copy k start count =>
    refine .inr (.inr ⟨rfl, rfl, ?_⟩)
    intro e he
    obtain ⟨cell, -, hcell⟩ := List.mem_flatMap.1 he
    exact k.nonCanonical_of_mem_decode cell e hcell
  | _ =>
    refine .inr (.inr ⟨rfl, rfl, ?_⟩)
    intro e he
    cases he

theorem room_of_announces (h : Header) (hc : c.announces m.cellCount = some h)
    (hrefusal : c.refusal m = none) : Header.cells ≤ m.prefixCells := by
  apply m.headerRefusal_eq_none.1
  cases c with
  | writeHeader header => exact hrefusal
  | writeMemberId id => exact headerRefusal_of_writeMemberId m id hrefusal
  | _ => cases hc

end Call

/-! ## Records -/

section Records
variable {α : Type} (reads : Event → Option α) (tells : Call → Option α)

/-- What the successful calls of a run tell about a matter, in order. -/
def Call.told (calls : List Call) (replies : List Reply) : List α :=
  (calls.zip replies).filterMap fun p => if Reply.succeeded p.2 then tells p.1 else none

theorem Call.told_cons (c : Call) (reply : Reply) (calls : List Call) (replies : List Reply) :
    told tells (c :: calls) (reply :: replies) =
      (if Reply.succeeded reply then tells c else none).toList ++ told tells calls replies := by
  rw [told, List.zip_cons_cons, List.filterMap_cons]
  cases (if Reply.succeeded reply then tells c else none) <;> rfl

theorem Call.getLast?_told (calls : List Call) (replies : List Reply) :
    (told tells calls replies).getLast? = latest tells calls replies := rfl

theorem Call.told_map {β : Type} (f : α → β) (calls : List Call) (replies : List Reply) :
    told (fun c => (tells c).map f) calls replies = (told tells calls replies).map f := by
  rw [told, told, List.map_filterMap]
  congr 1
  funext p
  exact (apply_ite (Option.map f) (Reply.succeeded p.2 = true) (tells p.1) none).symm

/-- One sort of event records what calls tell about a matter: a call that is carried out reports that
and no more of this sort. -/
def Event.Records (cellCount : Nat) : Prop :=
  ∀ (m : Memory) (c : Call), m.cellCount = cellCount → c.refusal m = none →
    (c.report m).filterMap reads = (tells c).toList

theorem Event.filterMap_nonCanonical (events : List Event)
    (hevents : ∀ e ∈ events, ∃ pattern, e = .nonCanonicalBoolean pattern)
    (hreads : ∀ pattern, reads (.nonCanonicalBoolean pattern) = none) :
    events.filterMap reads = [] := by
  rw [List.filterMap_eq_nil_iff]
  intro e he
  obtain ⟨pattern, rfl⟩ := hevents e he
  exact hreads pattern

theorem Event.records_writing (cellCount : Nat) : Records writing? Call.batch? cellCount := by
  intro m c _ _
  rcases c.report_cases m with ⟨_, _, hbatch, -, hreport⟩ | ⟨_, hbatch, -, hreport⟩ |
    ⟨hbatch, -, hpatterns⟩
  · rw [hreport, hbatch]
    rfl
  · rw [hreport, hbatch]
    rfl
  · rw [hbatch, filterMap_nonCanonical writing? _ hpatterns fun _ => rfl]
    rfl

theorem Event.records_wroteHeader (cellCount : Nat) :
    Records wroteHeader? (Call.headerEntry? cellCount) cellCount := by
  rintro m c rfl -
  rcases c.report_cases m with ⟨_, _, -, hnone, hreport⟩ | ⟨_, -, hsome, hreport⟩ |
    ⟨-, hnone, hpatterns⟩
  · rw [hreport, Call.headerEntry?, hnone]
    rfl
  · rw [hreport, Call.headerEntry?, hsome]
    rfl
  · rw [Call.headerEntry?, hnone, filterMap_nonCanonical wroteHeader? _ hpatterns fun _ => rfl]
    rfl

namespace Memory

variable (m : Memory) (calls : List Call)

/-- The events of a run, oldest first. -/
def journal : List Event := (m.run calls).2.flatMap Traced.events

theorem journal_cons (c : Call) (rest : List Call) :
    m.journal (c :: rest) = (m.perform c).2.events ++ (m.perform c).1.journal rest := rfl

theorem events_of_failed (c : Call) (failure : Failure)
    (h : (m.perform c).2.value = .error failure) : (m.perform c).2.events = [] := by
  cases hrefusal : c.refusal m with
  | none =>
    rw [m.perform_accepted c hrefusal] at h
    cases h
  | some fault => rw [m.perform_refused c fault hrefusal]

variable {reads tells} (hrecords : Event.Records reads tells m.cellCount)
include hrecords

theorem filterMap_perform (c : Call) :
    (m.perform c).2.events.filterMap reads =
      (if Reply.succeeded (m.perform c).2 then tells c else none).toList := by
  cases h : c.refusal m with
  | none =>
    rw [m.perform_accepted c h]
    exact hrecords m c rfl h
  | some fault =>
    rw [m.perform_refused c fault h]
    rfl

/-- By induction on the calls: all memories on the way have as many data cells as the first, so what
records the calls on it records the rest of the run as well. -/
theorem filterMap_journal :
    (m.journal calls).filterMap reads = Call.told tells calls (m.run calls).2 := by
  induction calls generalizing m with
  | nil => rfl
  | cons c rest ih =>
    have hrest : Event.Records reads tells (m.perform c).1.cellCount := by
      rw [m.cellCount_perform c]
      exact hrecords
    rw [journal_cons, List.filterMap_append, m.filterMap_perform hrecords c,
      ih (m.perform c).1 hrest]
    exact (Call.told_cons tells c _ rest _).symm

end Memory

end Records

/-! ## Replies -/

namespace Memory

variable (m : Memory) (calls : List Call)

/-- A reply in a run is the one that a memory of the same layout and as many data cells gives. -/
theorem exists_perform_of_mem_run (c : Call) (reply : Reply)
    (h : (c, reply) ∈ calls.zip (m.run calls).2) :
    ∃ m' : Memory, m'.layout = m.layout ∧ m'.cellCount = m.cellCount ∧
      (m'.perform c).2 = reply := by
  induction calls generalizing m with
  | nil => cases h
  | cons first rest ih =>
    rcases List.mem_cons.1 h with hfirst | hrest
    · obtain ⟨rfl, rfl⟩ := Prod.mk.inj hfirst
      exact ⟨m, rfl, rfl, rfl⟩
    · obtain ⟨m', hlayout, hcount, hreply⟩ := ih (m.perform first).1 hrest
      exact ⟨m', hlayout.trans (m.layout_perform first), hcount.trans (m.cellCount_perform first),
        hreply⟩

theorem room_of_lastHeader (h : Header) (hlast : m.lastHeader calls = some h) :
    Header.cells ≤ m.prefixCells := by
  obtain ⟨⟨c, reply⟩, hmem, htells⟩ := List.mem_filterMap.1 (List.mem_of_getLast? hlast)
  obtain ⟨m', hlayout, hcount, rfl⟩ := m.exists_perform_of_mem_run calls c reply hmem
  rcases m'.perform_cases c with ⟨hfailed, -⟩ | ⟨hsucceeded, hrefusal, -⟩
  · rw [if_neg (by rw [hfailed]; exact Bool.false_ne_true)] at htells
    cases htells
  · rw [if_pos hsucceeded, ← hcount] at htells
    have hroom := c.room_of_announces m' h htells hrefusal
    rw [prefixCells, hlayout] at hroom
    exact hroom

/-- The last entry about a header and the header in the memory agree. -/
theorem readHeader_of_journal (entry : UInt32 × UInt32)
    (h : ((m.journal calls).filterMap Event.wroteHeader?).getLast? = some entry) :
    ∃ header, ((m.run calls).1.perform .readHeader).2.value = .ok (.header header) ∧
      header.entry = entry := by
  have hentries : (m.journal calls).filterMap Event.wroteHeader? =
      (Call.told (Call.announces m.cellCount) calls (m.run calls).2).map Header.entry :=
    (m.filterMap_journal calls (Event.records_wroteHeader m.cellCount)).trans
      (Call.told_map _ Header.entry calls _)
  rw [hentries, List.getLast?_map, Call.getLast?_told] at h
  obtain ⟨header, hlast, hentry⟩ := Option.map_eq_some_iff.1 h
  have hroom := m.room_of_lastHeader calls header hlast
  have hrun := m.header_run calls hroom
  rw [lastHeader, hlast, Option.getD_some] at hrun
  refine ⟨header, ?_, hentry⟩
  rw [perform_readHeader _ (by rw [m.prefixCells_run calls]; exact hroom), hrun]

/-! ## New memories -/

theorem events_allocate (cellCount : Nat) (l : Layout)
    (h : (allocate cellCount l).value = .ok m) :
    (allocate cellCount l).events =
      [.allocating m.cellCount m.prefixCells (4 * (m.prefixCells + m.cellCount))] := by
  have hlayout : m.layout = l := ((allocate_eq_ok cellCount l m).1 h).1
  have hcount : m.cellCount = cellCount := (Origin.blank cellCount l).cellCount_of_make m h
  rw [Nat.mul_comm, prefixCells]
  subst hlayout hcount
  exact congrArg (fun n => [Event.allocating m.cellCount m.prefixCells n]) m.layout_totalBytes

theorem events_ofBytes (bytes : List UInt8) (l : Layout) (h : (ofBytes bytes l).value = .ok m) :
    (ofBytes bytes l).events =
      [.allocating m.cellCount m.prefixCells (4 * (m.prefixCells + m.cellCount)),
        .adopted bytes.length m.cellCount] := by
  cases hcount : l.cellCountFor bytes.length with
  | error fault => simp only [ofBytes, hcount, reduceCtorEq] at h
  | ok cellCount =>
    cases hblank : (allocate cellCount l).value with
    | error failure => simp only [ofBytes, hcount, hblank, reduceCtorEq] at h
    | ok blank =>
      cases hadmits : blank.admits ⟨0, blank.buffer.size⟩ bytes with
      | error panic => simp only [ofBytes, hcount, hblank, hadmits, reduceCtorEq] at h
      | ok done =>
        simp only [ofBytes, hcount, hblank, hadmits, Except.ok.injEq] at h ⊢
        have hcells : blank.cellCount = cellCount :=
          (Origin.blank cellCount l).cellCount_of_make blank hblank
        rw [blank.events_allocate cellCount l hblank, ← h, ← hcells]
        rfl

/-- Bytes are rejected for their length only, and that is found out before anything is reported. -/
theorem events_ofBytes_rejected (bytes : List UInt8) (l : Layout) (fault : Fault)
    (h : (ofBytes bytes l).value = .error (.fault fault)) : (ofBytes bytes l).events = [] := by
  cases hcount : l.cellCountFor bytes.length with
  | error fault' => simp only [ofBytes, hcount]
  | ok cellCount =>
    exfalso
    obtain ⟨-, hlength⟩ := (l.cellCountFor_eq_ok _ _).1 hcount
    by_cases hlt : l.prefixCells + cellCount < cellLimit
    · obtain ⟨m, hm, -⟩ := exists_ofBytes bytes l cellCount hlength hlt
      rw [hm] at h
      cases h
    · have hpanic := allocate_of_le cellCount l (Nat.not_lt.1 hlt)
      simp only [ofBytes, hcount, hpanic, Except.error.injEq, reduceCtorEq] at h

end Memory

end CellMemory
