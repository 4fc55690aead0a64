import CellMemory.Call
import CellMemory.Proofs.Steps

/-! # What each call comes to

A call is refused for a reason that can be read off its arguments and the sizes of the memory, or it
is carried out. In the first case nothing happens; in the second the new memory, the answer and the
events are plain functions of the memory and the call.

* `Call.refusal`: the fault, if there is one. Its sums are sums of natural numbers.
* `Call.effect`, `Call.answer`, `Call.report`: the three things that come of a call that is not
  refused.
* `Memory.perform_refused`, `Memory.perform_accepted`: there is nothing else that a call can do.
-/

namespace CellMemory
set_option autoImplicit false

/-! ## Inputs -/

namespace Kind

/-- The length of a row that is longer than a cell. -/
def excess? : (k : Kind) → k.Input → Option Nat
  | int32, _ => none
  | uint32, _ => none
  | boolean, _ => none
  | raw, row => if row.length ≤ Cell.size then none else some row.length

/-- The value that an input is read back as, by the same kind. What a row has beyond a cell is not
looked at. -/
def stored : (k : Kind) → k.Input → k.Value
  | int32, v => v
  | uint32, v => v
  | boolean, v => v
  | raw, row => Cell.pad row

variable (k : Kind)

/-- The cell that an input is stored as. -/
def cellOf (v : k.Input) : Cell := k.encode (k.stored v)

theorem accept_of_none (v : k.Input) (h : k.excess? v = none) : k.accept v = .ok (k.stored v) := by
  cases k with
  | raw =>
    by_cases hlen : v.length ≤ Cell.size
    · exact if_pos hlen
    · simp only [excess?, if_neg hlen] at h
      cases h
  | _ => rfl

theorem accept_of_some (v : k.Input) (n : Nat) (h : k.excess? v = some n) :
    k.accept v = .error (.oversizedCell n) := by
  cases k with
  | raw =>
    by_cases hlen : v.length ≤ Cell.size
    · simp only [excess?, if_pos hlen] at h
      cases h
    · simp only [excess?, if_neg hlen, Option.some.injEq] at h
      rw [← h]
      exact if_neg hlen
  | _ => cases h

theorem mapM_accept_of_none (vs : List k.Input) (h : vs.findSome? k.excess? = none) :
    vs.mapM k.accept = .ok (vs.map k.stored) := by
  induction vs with
  | nil => rfl
  | cons v vs ih =>
    rw [List.findSome?_cons] at h
    cases hv : k.excess? v with
    | some n =>
      rw [hv] at h
      cases h
    | none =>
      rw [hv] at h
      rw [List.mapM_cons, k.accept_of_none v hv, ih h]
      rfl

theorem mapM_accept_of_some (vs : List k.Input) (n : Nat) (h : vs.findSome? k.excess? = some n) :
    vs.mapM k.accept = .error (.oversizedCell n) := by
  induction vs with
  | nil => cases h
  | cons v vs ih =>
    rw [List.findSome?_cons] at h
    cases hv : k.excess? v with
    | some n' =>
      rw [hv] at h
      rw [List.mapM_cons, k.accept_of_some v n' hv, Option.some.inj h]
      rfl
    | none =>
      rw [hv] at h
      rw [List.mapM_cons, k.accept_of_none v hv, ih h]
      rfl

end Kind

/-! ## The stored header -/

theorem LittleEndian.value_bytes (c : Cell) : LittleEndian.value c.bytes = c.word.toNat := by
  rw [Cell.toNat_word]
  simp only [Cell.bytes, LittleEndian.value]
  omega

namespace Memory

/-- The header that the first three cells spell. -/
def header (m : Memory) : Header :=
  ⟨(m.buffer.cell 0).word, (m.buffer.cell 1).word, (m.buffer.cell 2).word⟩

theorem field_slice (m : Memory) (n : Nat) (hn : n < Header.cells)
    (h : Header.cells ≤ m.prefixCells) :
    Header.field (m.buffer.slice ⟨0, Header.size⟩) n = (m.buffer.cell n).word := by
  have hfit : (n + 1) * Cell.size ≤ m.buffer.size := by
    rw [size_eq]
    exact Nat.mul_le_mul_right _ (by omega)
  have hcell : ((m.buffer.slice ⟨0, Header.size⟩).drop (Cell.size * n)).take Cell.size =
      (m.buffer.cell n).bytes := by
    rw [m.buffer.bytes_cell n hfit, Buffer.slice_eq, Extent.length, List.drop_zero, Nat.sub_zero,
      List.drop_take, List.take_take, Nat.mul_comm Cell.size n]
    congr 1
    simp only [Header.size, Header.cells, Cell.size] at hn ⊢
    omega
  rw [Header.field, hcell, LittleEndian.value_bytes, UInt32.ofNat_toNat]

theorem ofBytes_slice (m : Memory) (h : Header.cells ≤ m.prefixCells) :
    Header.ofBytes (m.buffer.slice ⟨0, Header.size⟩) = .ok m.header := by
  have hlen : (m.buffer.slice ⟨0, Header.size⟩).length = Header.size := by
    have hsize := (m.inside_header h).2
    rw [Buffer.slice_eq, List.drop_zero, List.length_take, Buffer.length_toList, Extent.length]
    simp only at hsize ⊢
    omega
  rw [Header.ofBytes, if_neg (by omega), m.field_slice 0 (by decide) h,
    m.field_slice 1 (by decide) h, m.field_slice 2 (by decide) h, header]

end Memory

theorem Access.run_readHeader (s : Session) (h : Header.cells ≤ s.memory.prefixCells) :
    readHeader.run s = .ok s.memory.header s := by
  simp only [readHeader, EStateM.run_bind, run_headerExtent s h,
    run_slice s _ (s.memory.inside_header h), s.memory.ofBytes_slice h, run_orFail_ok]

theorem Access.run_readHeader_refused (s : Session) (h : s.memory.prefixCells < Header.cells) :
    readHeader.run s = .error (.fault (.headerUnavailable s.memory.prefixCells)) s := by
  simp only [readHeader, EStateM.run_bind, run_headerExtent_refused s h]

theorem Header.forCells_of_lt (id : UInt32) (n : Nat) (h : n < UInt32.size) :
    forCells id n = .ok ⟨id, .ofNat n, 0⟩ := if_pos h

theorem Header.forCells_of_le (id : UInt32) (n : Nat) (h : UInt32.size ≤ n) :
    forCells id n = .error (.headerOverflow n) := if_neg (Nat.not_lt.2 h)

theorem Access.run_writeMemberId (s : Session) (id : UInt32)
    (h : s.memory.cellCount < UInt32.size) :
    (writeMemberId id).run s = (writeHeader ⟨id, .ofNat s.memory.cellCount, 0⟩).run s := by
  simp only [writeMemberId, EStateM.run_bind, run_memory, Header.forCells_of_lt id _ h,
    run_orFail_ok]

theorem Access.run_writeMemberId_refused (s : Session) (id : UInt32)
    (h : UInt32.size ≤ s.memory.cellCount) :
    (writeMemberId id).run s = .error (.fault (.headerOverflow s.memory.cellCount)) s := by
  simp only [writeMemberId, EStateM.run_bind, run_memory, Header.forCells_of_le id _ h,
    run_orFail_error]

theorem Access.run_validateHeader (s : Session) (h : Header.cells ≤ s.memory.prefixCells) :
    validateHeader.run s =
      (orFail .fault (s.memory.header.validate s.memory.cellCount)).run s := by
  simp only [validateHeader, EStateM.run_bind, run_readHeader s h, run_memory]

theorem Access.run_validateHeader_refused (s : Session)
    (h : s.memory.prefixCells < Header.cells) :
    validateHeader.run s = .error (.fault (.headerUnavailable s.memory.prefixCells)) s := by
  simp only [validateHeader, EStateM.run_bind, run_readHeader_refused s h]

/-! ## Refusals -/

namespace Memory

def headerRefusal (m : Memory) : Option Fault :=
  if m.prefixCells < Header.cells then some (.headerUnavailable m.prefixCells) else none

/-- A run has to end among the data cells or right behind them. -/
def runRefusal (m : Memory) (start count : Nat) : Option Fault :=
  if start + count ≤ m.cellCount then none else some (.outOfBounds start count m.cellCount)

def countRefusal (m : Memory) : Option Fault :=
  if m.header.cellCount.toNat = m.cellCount then none
  else some (.lengthMismatch m.cellCount m.header.cellCount.toNat)

end Memory

/-- The first row that is too long is refused. -/
def Kind.rowRefusal (k : Kind) (vs : List k.Input) : Option Fault :=
  (vs.findSome? k.excess?).map .oversizedCell

namespace Call

/-- The fault for which a call is refused, if it is. Where two faults are possible the first one
counts. -/
def refusal (m : Memory) : Call → Option Fault
  | cellCount | prefixCells | layout | totalBytes | bytes | dataBytes => none
  | writeHeader _ => m.headerRefusal
  | writeMemberId _ =>
    if m.cellCount < UInt32.size then m.headerRefusal else some (.headerOverflow m.cellCount)
  | readHeader => m.headerRefusal
  | validateHeader => m.headerRefusal.or m.countRefusal
  | write k index v => (k.rowRefusal [v]).or (m.runRefusal index 1)
  | read _ index => m.runRefusal index 1
  | writeBatch k start vs => (k.rowRefusal vs).or (m.runRefusal start vs.length)
  | view _ start count _ => m.runRefusal start count
  | copy _ start count => m.runRefusal start count

/-! ## Effects, answers and events -/

def effect (m : Memory) : Call → Memory
  | writeHeader h => m.store 0 h.bytes
  | writeMemberId id => m.store 0 (Header.mk id (.ofNat m.cellCount) 0).bytes
  | write k index v => m.putCells (m.prefixCells + index) [k.cellOf v]
  | writeBatch k start vs => m.putCells (m.prefixCells + start) (vs.map k.cellOf)
  | _ => m

def answer (m : Memory) : Call → Answer
  | cellCount => .count m.cellCount
  | prefixCells => .count m.prefixCells
  | layout => .layout m.layout
  | totalBytes => .count ((m.prefixCells + m.cellCount) * Cell.size)
  | bytes => .bytes m.bytes
  | dataBytes => .bytes m.dataBytes
  | readHeader => .header m.header
  | read k index => .value k (k.decode (m.dataCell index)).value
  | view k start count _ => .values k (k.codec.decodeAll (m.dataCells start count)).value
  | copy k start count => .values k (k.codec.decodeAll (m.dataCells start count)).value
  | writeHeader _ | writeMemberId _ | validateHeader | write _ _ _ | writeBatch _ _ _ => .done

def report (m : Memory) : Call → List Event
  | writeHeader h => [.wroteHeader h.memberId h.cellCount]
  | writeMemberId id => [.wroteHeader id (.ofNat m.cellCount)]
  | read k index => (k.decode (m.dataCell index)).events
  | writeBatch _ start vs => [.writing vs.length start]
  | copy k start count => (k.codec.decodeAll (m.dataCells start count)).events
  | _ => []

end Call

/-! ## Carrying out a call -/

namespace Memory

variable (m : Memory)

theorem headerRefusal_eq_none : m.headerRefusal = none ↔ Header.cells ≤ m.prefixCells := by
  rw [headerRefusal]
  split
  next h => simp only [reduceCtorEq, false_iff, Nat.not_le]; exact h
  next h => simp only [true_iff]; exact Nat.not_lt.1 h

theorem headerRefusal_eq_some {fault : Fault} :
    m.headerRefusal = some fault ↔
      m.prefixCells < Header.cells ∧ fault = .headerUnavailable m.prefixCells := by
  rw [headerRefusal]
  split
  next h => simp only [Option.some.injEq, h, true_and, eq_comm]
  next h => simp only [reduceCtorEq, h, false_and]

theorem runRefusal_eq_none (start count : Nat) :
    m.runRefusal start count = none ↔ start + count ≤ m.cellCount := by
  rw [runRefusal]
  split
  next h => simp only [h]
  next h => simp only [reduceCtorEq, h]

theorem runRefusal_eq_some {fault : Fault} (start count : Nat) :
    m.runRefusal start count = some fault ↔
      m.cellCount < start + count ∧ fault = .outOfBounds start count m.cellCount := by
  rw [runRefusal]
  split
  next h => simp only [reduceCtorEq, false_iff, not_and]; omega
  next h => simp only [Option.some.injEq, Nat.not_le.1 h, true_and, eq_comm]

end Memory

theorem Memory.countRefusal_eq_none (m : Memory) :
    m.countRefusal = none ↔ m.header.validate m.cellCount = .ok () := by
  rw [countRefusal, Header.validate, ensureLength]
  by_cases h : m.header.cellCount.toNat = m.cellCount
  · simp only [h, if_true]
  · simp only [h, if_neg (Ne.symm h), if_false, reduceCtorEq]

theorem Memory.countRefusal_eq_some (m : Memory) (fault : Fault) :
    m.countRefusal = some fault ↔ m.header.validate m.cellCount = .error fault := by
  rw [countRefusal, Header.validate, ensureLength]
  by_cases h : m.header.cellCount.toNat = m.cellCount
  · simp only [h, if_true, reduceCtorEq]
  · simp only [h, if_neg (Ne.symm h), if_false, Option.some.injEq, Except.error.injEq]

theorem Kind.rowRefusal_eq_none (k : Kind) (vs : List k.Input) :
    k.rowRefusal vs = none ↔ vs.findSome? k.excess? = none := by
  rw [rowRefusal, Option.map_eq_none_iff]

theorem Kind.rowRefusal_eq_some (k : Kind) (vs : List k.Input) (fault : Fault) :
    k.rowRefusal vs = some fault ↔
      ∃ n, vs.findSome? k.excess? = some n ∧ .oversizedCell n = fault := by
  rw [rowRefusal, Option.map_eq_some_iff]

namespace Call

theorem headerRefusal_of_writeMemberId (m : Memory) (id : UInt32)
    (h : (writeMemberId id).refusal m = none) : m.headerRefusal = none := by
  by_cases hcount : m.cellCount < UInt32.size
  · rw [refusal, if_pos hcount] at h
    exact h
  · rw [refusal, if_neg hcount] at h
    cases h

variable (s : Session)

/-- A refused call ends before its first change and its first event. -/
theorem run_refused (c : Call) (fault : Fault) (h : c.refusal s.memory = some fault) :
    c.access.run s = .error (.fault fault) s := by
  cases c with
  | cellCount | prefixCells | layout | totalBytes | bytes | dataBytes => cases h
  | writeHeader header =>
    obtain ⟨hp, rfl⟩ := s.memory.headerRefusal_eq_some.1 h
    simp only [access, EStateM.run_bind, Access.run_writeHeader_refused s header hp]
  | writeMemberId id =>
    by_cases hc : s.memory.cellCount < UInt32.size
    · rw [refusal, if_pos hc] at h
      obtain ⟨hp, rfl⟩ := s.memory.headerRefusal_eq_some.1 h
      simp only [access, EStateM.run_bind, Access.run_writeMemberId s id hc,
        Access.run_writeHeader_refused s _ hp]
    · rw [refusal, if_neg hc, Option.some.injEq] at h
      rw [← h]
      simp only [access, EStateM.run_bind,
        Access.run_writeMemberId_refused s id (Nat.not_lt.1 hc)]
  | readHeader =>
    obtain ⟨hp, rfl⟩ := s.memory.headerRefusal_eq_some.1 h
    simp only [access, EStateM.run_bind, Access.run_readHeader_refused s hp]
  | validateHeader =>
    rcases Option.or_eq_some_iff.1 h with hheader | ⟨hheader, hcount⟩
    · obtain ⟨hp, rfl⟩ := s.memory.headerRefusal_eq_some.1 hheader
      simp only [access, EStateM.run_bind, Access.run_validateHeader_refused s hp]
    · have hp := s.memory.headerRefusal_eq_none.1 hheader
      simp only [access, EStateM.run_bind, Access.run_validateHeader s hp,
        (s.memory.countRefusal_eq_some fault).1 hcount, Access.run_orFail_error]
  | write k index v =>
    rcases Option.or_eq_some_iff.1 h with hrow | ⟨hrow, hindex⟩
    · obtain ⟨n, hn, rfl⟩ := (k.rowRefusal_eq_some _ _).1 hrow
      rw [List.findSome?_singleton] at hn
      simp only [access, EStateM.run_bind,
        Access.run_write_rejected s k index (k.accept_of_some v n hn)]
    · have hv := (k.rowRefusal_eq_none _).1 hrow
      rw [List.findSome?_singleton] at hv
      obtain ⟨hlt, rfl⟩ := (s.memory.runRefusal_eq_some index 1).1 hindex
      simp only [access, EStateM.run_bind, Access.run_write_refused s k index
        (k.accept_of_none v hv) (Nat.le_of_lt_succ hlt)]
  | read k index =>
    obtain ⟨hlt, rfl⟩ := (s.memory.runRefusal_eq_some index 1).1 h
    simp only [access, EStateM.run_bind,
      Access.run_read_refused s k index (Nat.le_of_lt_succ hlt)]
  | writeBatch k start vs =>
    rcases Option.or_eq_some_iff.1 h with hrow | ⟨hrow, hstart⟩
    · obtain ⟨n, hn, rfl⟩ := (k.rowRefusal_eq_some _ _).1 hrow
      simp only [access, EStateM.run_bind,
        Access.run_writeBatch_rejected s k start (k.mapM_accept_of_some vs n hn)]
    · have hvalues := k.mapM_accept_of_none vs ((k.rowRefusal_eq_none _).1 hrow)
      obtain ⟨hlt, rfl⟩ := (s.memory.runRefusal_eq_some start vs.length).1 hstart
      rw [← List.length_map k.stored] at hlt
      simp only [access, EStateM.run_bind, Access.run_writeBatch s k start hvalues,
        Access.run_writeRun_refused s k.codec start _ hlt, List.length_map]
  | view k start count _ =>
    obtain ⟨hlt, rfl⟩ := (s.memory.runRefusal_eq_some start count).1 h
    simp only [access, EStateM.run_bind, Access.run_view_refused s k start count hlt]
  | copy k start count =>
    obtain ⟨hlt, rfl⟩ := (s.memory.runRefusal_eq_some start count).1 h
    simp only [access, EStateM.run_bind, Access.copy,
      Access.run_readRun_refused s k.codec start count hlt]

theorem run_accepted (c : Call) (h : c.refusal s.memory = none) :
    c.access.run s =
      .ok (c.answer s.memory) ⟨c.effect s.memory, s.events ++ c.report s.memory⟩ := by
  cases c with
  | cellCount | prefixCells | layout | bytes =>
    simp only [access, EStateM.run_bind, Access.run_memory, EStateM.run_pure, answer, effect, report,
      List.append_nil]
  | totalBytes =>
    simp only [access, EStateM.run_bind, Access.run_totalBytes, EStateM.run_pure, answer, effect,
      report, List.append_nil]
  | dataBytes =>
    simp only [access, EStateM.run_bind, Access.run_dataBytes, EStateM.run_pure, answer, effect,
      report, List.append_nil]
  | writeHeader header =>
    have hp := s.memory.headerRefusal_eq_none.1 h
    simp only [access, EStateM.run_bind, Access.run_writeHeader s header hp, EStateM.run_pure,
      answer, effect, report]
  | writeMemberId id =>
    by_cases hc : s.memory.cellCount < UInt32.size
    · rw [refusal, if_pos hc] at h
      have hp := s.memory.headerRefusal_eq_none.1 h
      simp only [access, EStateM.run_bind, Access.run_writeMemberId s id hc,
        Access.run_writeHeader s _ hp, EStateM.run_pure, answer, effect, report]
    · rw [refusal, if_neg hc] at h
      cases h
  | readHeader =>
    have hp := s.memory.headerRefusal_eq_none.1 h
    simp only [access, EStateM.run_bind, Access.run_readHeader s hp, EStateM.run_pure, answer,
      effect, report, List.append_nil]
  | validateHeader =>
    obtain ⟨hheader, hcount⟩ := Option.or_eq_none_iff.1 h
    have hp := s.memory.headerRefusal_eq_none.1 hheader
    simp only [access, EStateM.run_bind, Access.run_validateHeader s hp,
      s.memory.countRefusal_eq_none.1 hcount, Access.run_orFail_ok, EStateM.run_pure, answer,
      effect, report, List.append_nil]
  | write k index v =>
    obtain ⟨hrow, hindex⟩ := Option.or_eq_none_iff.1 h
    have hv := (k.rowRefusal_eq_none _).1 hrow
    rw [List.findSome?_singleton] at hv
    have hlt := (s.memory.runRefusal_eq_none index 1).1 hindex
    simp only [access, EStateM.run_bind, Access.run_write s k index (k.accept_of_none v hv) hlt,
      EStateM.run_pure, answer, effect, report, List.append_nil, Kind.cellOf]
  | read k index =>
    have hlt := (s.memory.runRefusal_eq_none index 1).1 h
    simp only [access, EStateM.run_bind, Access.run_read s k index hlt, Access.run_traced,
      EStateM.run_pure, answer, effect, report]
  | writeBatch k start vs =>
    obtain ⟨hrow, hstart⟩ := Option.or_eq_none_iff.1 h
    have hvalues := k.mapM_accept_of_none vs ((k.rowRefusal_eq_none _).1 hrow)
    have hle := (s.memory.runRefusal_eq_none start vs.length).1 hstart
    rw [← List.length_map k.stored] at hle
    simp only [access, EStateM.run_bind, Access.run_writeBatch s k start hvalues,
      Access.run_writeRun s k.codec start _ hle, EStateM.run_pure, answer, effect, report,
      List.length_map, List.map_map]
    rfl
  | view k start count _ =>
    have hle := (s.memory.runRefusal_eq_none start count).1 h
    simp only [access, EStateM.run_bind, Access.run_view s k start count hle, EStateM.run_pure,
      answer, effect, report, List.append_nil]
  | copy k start count =>
    have hle := (s.memory.runRefusal_eq_none start count).1 h
    simp only [access, EStateM.run_bind, Access.copy, Access.run_readRun s k.codec start count hle,
      Access.run_traced, EStateM.run_pure, answer, effect, report]

end Call

namespace Memory

variable (m : Memory) (c : Call)

theorem perform_refused (fault : Fault) (h : c.refusal m = some fault) :
    m.perform c = (m, { value := .error (.fault fault) }) := by
  rw [perform, c.run_refused { memory := m } fault h]

theorem perform_accepted (h : c.refusal m = none) :
    m.perform c = (c.effect m, { value := .ok (c.answer m), events := c.report m }) := by
  rw [perform, c.run_accepted { memory := m } h]
  rfl

end Memory

end CellMemory
