import CellMemory.Proofs.Outcome

/-! # When calls fail

The failure of each call, by the sizes of the memory and the arguments of the call.

* `Memory.failure?_eq`: a call fails exactly when it is refused, and with that fault.
* `Memory.exact_failures`: the conditions, one call after the other.
-/

namespace CellMemory.Memory
set_option autoImplicit false

variable (m : Memory)

/-- What a call fails with, if it fails. -/
def failure? (c : Call) : Option Failure :=
  match (m.perform c).2.value with
  | .ok _ => none
  | .error failure => some failure

theorem failure?_eq (c : Call) : m.failure? c = (c.refusal m).map .fault := by
  unfold failure?
  cases h : c.refusal m with
  | none =>
    rw [m.perform_accepted c h]
    rfl
  | some fault =>
    rw [m.perform_refused c fault h]
    rfl

/-! ## Refusals as conditions -/

theorem map_runRefusal (start count : Nat) :
    (m.runRefusal start count).map Failure.fault =
      if start + count ≤ m.cellCount then none
      else some (.fault (.outOfBounds start count m.cellCount)) := by
  unfold runRefusal
  split <;> rfl

theorem map_headerRefusal :
    m.headerRefusal.map Failure.fault =
      if m.prefixCells < 3 then some (.fault (.headerUnavailable m.prefixCells)) else none := by
  unfold headerRefusal
  exact apply_ite (Option.map Failure.fault) _ _ _

theorem map_rowRefusal_or (k : Kind) (vs : List k.Input) (rest : Option Fault) :
    ((k.rowRefusal vs).or rest).map Failure.fault =
      match vs.findSome? k.excess? with
      | some n => some (.fault (.oversizedCell n))
      | none => rest.map .fault := by
  unfold Kind.rowRefusal
  cases vs.findSome? k.excess? <;> rfl

theorem header_cellCount (h : Header.cells ≤ m.prefixCells) :
    m.header.cellCount.toNat = LittleEndian.value ((m.bytes.drop 4).take 4) := by
  have hfit : (1 + 1) * Cell.size ≤ m.buffer.size := by
    rw [size_eq]
    exact Nat.mul_le_mul_right _ (by simp only [Header.cells] at h; omega)
  have hbytes := m.buffer.bytes_cell 1 hfit
  rw [header, ← LittleEndian.value_bytes, hbytes]
  rfl

theorem map_validateRefusal :
    (m.headerRefusal.or m.countRefusal).map Failure.fault =
      if m.prefixCells < 3 then some (.fault (.headerUnavailable m.prefixCells))
      else if LittleEndian.value ((m.bytes.drop 4).take 4) = m.cellCount then none
      else some (.fault (.lengthMismatch m.cellCount
        (LittleEndian.value ((m.bytes.drop 4).take 4)))) := by
  by_cases hp : m.prefixCells < 3
  · have hheader := m.headerRefusal_eq_some.2 ⟨hp, rfl⟩
    rw [if_pos hp, hheader]
    rfl
  · have hheader := m.headerRefusal_eq_none.2 (Nat.not_lt.1 hp)
    have hcount := m.header_cellCount (Nat.not_lt.1 hp)
    rw [if_neg hp, hheader, Option.none_or, countRefusal, hcount]
    split <;> rfl

/-- No call is refused for a fault that belongs to another operation. -/
theorem refusal_cases (c : Call) (fault : Fault) (h : c.refusal m = some fault) :
    (∃ start count, fault = .outOfBounds start count m.cellCount) ∨
      (∃ n, fault = .oversizedCell n) ∨ fault = .headerUnavailable m.prefixCells ∨
      fault = .headerOverflow m.cellCount ∨ ∃ actual, fault = .lengthMismatch m.cellCount actual := by
  have hheader (h : m.headerRefusal = some fault) : fault = .headerUnavailable m.prefixCells :=
    (m.headerRefusal_eq_some.1 h).2
  have hrun (start count : Nat) (h : m.runRefusal start count = some fault) :
      fault = .outOfBounds start count m.cellCount := ((m.runRefusal_eq_some start count).1 h).2
  have hrow (k : Kind) (vs : List k.Input) (h : k.rowRefusal vs = some fault) :
      ∃ n, fault = .oversizedCell n := by
    obtain ⟨n, -, hn⟩ := (k.rowRefusal_eq_some vs fault).1 h
    exact ⟨n, hn.symm⟩
  cases c with
  | cellCount | prefixCells | layout | totalBytes | bytes | dataBytes => cases h
  | writeHeader _ | readHeader => exact .inr (.inr (.inl (hheader h)))
  | writeMemberId _ =>
    by_cases hc : m.cellCount < UInt32.size
    · rw [Call.refusal, if_pos hc] at h
      exact .inr (.inr (.inl (hheader h)))
    · rw [Call.refusal, if_neg hc] at h
      exact .inr (.inr (.inr (.inl (Option.some.inj h).symm)))
  | validateHeader =>
    rcases Option.or_eq_some_iff.1 h with h | ⟨-, h⟩
    · exact .inr (.inr (.inl (hheader h)))
    · unfold countRefusal at h
      split at h
      · cases h
      · exact .inr (.inr (.inr (.inr ⟨_, (Option.some.inj h).symm⟩)))
  | write _ _ _ | writeBatch _ _ _ =>
    rcases Option.or_eq_some_iff.1 h with h | ⟨-, h⟩
    · exact .inr (.inl (hrow _ _ h))
    · exact .inl ⟨_, _, hrun _ _ h⟩
  | read _ _ | view _ _ _ _ | copy _ _ _ => exact .inl ⟨_, _, hrun _ _ h⟩

/-! ## The conditions -/

/-- Every failure of every call: when it occurs and which numbers it shows. All sums are sums of
natural numbers, so none of them wraps. -/
theorem exact_failures :
    (∀ k index, m.failure? (.read k index) =
      if index < m.cellCount then none
      else some (.fault (.outOfBounds index 1 m.cellCount))) ∧
    (∀ k index v, m.failure? (.write k index v) =
      match k.excess? v with
      | some n => some (.fault (.oversizedCell n))
      | none =>
        if index < m.cellCount then none
        else some (.fault (.outOfBounds index 1 m.cellCount))) ∧
    (∀ k start vs, m.failure? (.writeBatch k start vs) =
      match vs.findSome? k.excess? with
      | some n => some (.fault (.oversizedCell n))
      | none =>
        if start + vs.length ≤ m.cellCount then none
        else some (.fault (.outOfBounds start vs.length m.cellCount))) ∧
    (∀ k start count inPlace, m.failure? (.view k start count inPlace) =
      if start + count ≤ m.cellCount then none
      else some (.fault (.outOfBounds start count m.cellCount))) ∧
    (∀ k start count, m.failure? (.copy k start count) =
      if start + count ≤ m.cellCount then none
      else some (.fault (.outOfBounds start count m.cellCount))) ∧
    (∀ header, m.failure? (.writeHeader header) =
      if m.prefixCells < 3 then some (.fault (.headerUnavailable m.prefixCells)) else none) ∧
    (∀ id, m.failure? (.writeMemberId id) =
      if m.cellCount < UInt32.size then
        if m.prefixCells < 3 then some (.fault (.headerUnavailable m.prefixCells)) else none
      else some (.fault (.headerOverflow m.cellCount))) ∧
    (m.failure? .readHeader =
      if m.prefixCells < 3 then some (.fault (.headerUnavailable m.prefixCells)) else none) ∧
    (m.failure? .validateHeader =
      if m.prefixCells < 3 then some (.fault (.headerUnavailable m.prefixCells))
      else if LittleEndian.value ((m.bytes.drop 4).take 4) = m.cellCount then none
      else some (.fault (.lengthMismatch m.cellCount
        (LittleEndian.value ((m.bytes.drop 4).take 4))))) ∧
    (∀ c ∈ [Call.cellCount, .prefixCells, .layout, .totalBytes, .bytes, .dataBytes],
      m.failure? c = none) ∧
    (∀ c reason, m.failure? c ≠ some (.fault (.viewNotSupported reason))) ∧
    (∀ c length bytes, m.failure? c ≠ some (.fault (.invalidBufferLength length bytes))) ∧
    (∀ c text position, m.failure? c ≠ some (.fault (.headerCodec text position))) := by
  have hforeign (c : Call) (fault : Fault) (h : m.failure? c = some (.fault fault)) :
      c.refusal m = some fault := by
    rw [failure?_eq, Option.map_eq_some_iff] at h
    obtain ⟨fault', hfault, heq⟩ := h
    rw [hfault, Failure.fault.inj heq]
  refine ⟨?_, ?_, ?_, ?_, ?_, ?_, ?_, ?_, ?_, ?_, ?_, ?_, ?_⟩
  · intro k index
    rw [failure?_eq]
    exact m.map_runRefusal index 1
  · intro k index v
    rw [failure?_eq, Call.refusal, map_rowRefusal_or, List.findSome?_singleton, map_runRefusal]
    rfl
  · intro k start vs
    rw [failure?_eq, Call.refusal, map_rowRefusal_or, map_runRefusal]
  · intro k start count inPlace
    rw [failure?_eq]
    exact m.map_runRefusal start count
  · intro k start count
    rw [failure?_eq]
    exact m.map_runRefusal start count
  · intro header
    rw [failure?_eq]
    exact m.map_headerRefusal
  · intro id
    rw [failure?_eq, Call.refusal, ← m.map_headerRefusal]
    exact apply_ite (Option.map Failure.fault) _ _ _
  · rw [failure?_eq]
    exact m.map_headerRefusal
  · rw [failure?_eq]
    exact m.map_validateRefusal
  · intro c hc
    simp only [List.mem_cons, List.not_mem_nil, or_false] at hc
    rcases hc with rfl | rfl | rfl | rfl | rfl | rfl <;> exact m.failure?_eq _
  · intro c reason h
    rcases m.refusal_cases c _ (hforeign c _ h) with ⟨_, _, h⟩ | ⟨_, h⟩ | h | h | ⟨_, h⟩ <;> cases h
  · intro c length bytes h
    rcases m.refusal_cases c _ (hforeign c _ h) with ⟨_, _, h⟩ | ⟨_, h⟩ | h | h | ⟨_, h⟩ <;> cases h
  · intro c text position h
    rcases m.refusal_cases c _ (hforeign c _ h) with ⟨_, _, h⟩ | ⟨_, h⟩ | h | h | ⟨_, h⟩ <;> cases h

/-- The conditions on the memory of two zeroed data cells: a row that is too long comes before the
bounds, an empty run may stand at the end but not past it, and the whole content can always be
read. -/
theorem exact_failures_two_cells :
    ∃ m : Memory, m.prefixCells = 3 ∧ m.cellCount = 2 ∧
      m.failure? (.writeBatch .raw 9 [[1], [1, 2, 3, 4, 5], []]) =
        some (.fault (.oversizedCell 5)) ∧
      m.failure? (.view .uint32 2 0 (by decide)) = none ∧
      m.failure? (.view .uint32 3 0 (by decide)) = some (.fault (.outOfBounds 3 0 2)) ∧
      m.failure? .bytes = none := by
  have h := exact_failures ⟨.zeros 20, 2, default, rfl, by decide⟩
  obtain ⟨-, -, hbatch, hview, -, -, -, -, -, hsizes, -, -, -⟩ := h
  refine ⟨⟨.zeros 20, 2, default, rfl, by decide⟩, rfl, rfl, ?_, ?_, ?_, ?_⟩
  · exact hbatch .raw 9 [[1], [1, 2, 3, 4, 5], []]
  · exact hview .uint32 2 0 (by decide)
  · exact hview .uint32 3 0 (by decide)
  · exact hsizes .bytes (by simp)

end CellMemory.Memory
