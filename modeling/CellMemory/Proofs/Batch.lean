import CellMemory.Proofs.Frame

/-! # Batches and single writes

A batch writes what its values write one by one, and it writes all of them or none. Where it cannot
be carried out, some of the single writes may still succeed.

* `Call.singles`: the single writes of a batch, in order.
* `Memory.getElem?_singles`: how each of them is replied to. The ones before it make no difference.
* `Memory.run_singles`: where the batch is not refused, they come to the same memory.
* `Memory.batch_as_singles`: both sides compared, in every case.
-/

namespace CellMemory
set_option autoImplicit false

namespace Call

/-- The values of a batch written one by one, each to the next data cell. -/
def singles (k : Kind) (start : Nat) : List k.Input → List Call
  | [] => []
  | v :: vs => write k start v :: singles k (start + 1) vs

/-! ## When writes are refused -/

variable (m : Memory) (k : Kind)

theorem refusal_write_eq_none (index : Nat) (v : k.Input) :
    (write k index v).refusal m = none ↔ k.excess? v = none ∧ index < m.cellCount := by
  rw [refusal, Option.or_eq_none_iff, k.rowRefusal_eq_none, List.findSome?_singleton,
    m.runRefusal_eq_none, Nat.succ_le_iff]

theorem refusal_writeBatch_eq_none (start : Nat) (vs : List k.Input) :
    (writeBatch k start vs).refusal m = none ↔
      (∀ v ∈ vs, k.excess? v = none) ∧ start + vs.length ≤ m.cellCount := by
  rw [refusal, Option.or_eq_none_iff, k.rowRefusal_eq_none, List.findSome?_eq_none_iff,
    m.runRefusal_eq_none]

theorem refusal_write (index : Nat) (v : k.Input) (h : k.excess? v = none) :
    (write k index v).refusal m =
      if index < m.cellCount then none else some (.outOfBounds index 1 m.cellCount) := by
  have hrow : k.rowRefusal [v] = none := by
    rw [k.rowRefusal_eq_none, List.findSome?_singleton]
    exact h
  rw [refusal, hrow, Option.none_or, Memory.runRefusal]
  rfl

theorem refusal_write_of_excess (index : Nat) (v : k.Input) (n : Nat) (h : k.excess? v = some n) :
    (write k index v).refusal m = some (.oversizedCell n) := by
  have hrow : k.rowRefusal [v] = some (.oversizedCell n) := by
    rw [k.rowRefusal_eq_some]
    exact ⟨n, (List.findSome?_singleton ..).trans h, rfl⟩
  rw [refusal, hrow, Option.some_or]

/-- A batch is refused for the first of its rows that is too long, and only then for the place of
its run. -/
theorem refusal_writeBatch_cases (start : Nat) (vs : List k.Input) :
    (writeBatch k start vs).refusal m = none ∨
    (∃ before row after n, vs = before ++ row :: after ∧ (∀ v ∈ before, k.excess? v = none) ∧
      k.excess? row = some n ∧ (writeBatch k start vs).refusal m = some (.oversizedCell n)) ∨
    ((∀ v ∈ vs, k.excess? v = none) ∧ m.cellCount < start + vs.length ∧
      (writeBatch k start vs).refusal m = some (.outOfBounds start vs.length m.cellCount)) := by
  rw [refusal]
  cases hrow : vs.findSome? k.excess? with
  | none =>
    rw [(k.rowRefusal_eq_none vs).2 hrow, Option.none_or]
    by_cases hle : start + vs.length ≤ m.cellCount
    · exact .inl ((m.runRefusal_eq_none start vs.length).2 hle)
    · refine .inr (.inr ⟨List.findSome?_eq_none_iff.1 hrow, Nat.not_le.1 hle, ?_⟩)
      exact (m.runRefusal_eq_some start vs.length).2 ⟨Nat.not_le.1 hle, rfl⟩
  | some n =>
    rw [(k.rowRefusal_eq_some vs _).2 ⟨n, hrow, rfl⟩, Option.some_or]
    obtain ⟨before, row, after, rfl, hn, hbefore⟩ := List.findSome?_eq_some_iff.1 hrow
    exact .inr (.inl ⟨before, row, after, n, rfl, hbefore, hn, rfl⟩)

end Call

/-! ## The single writes of a batch -/

namespace Memory

variable (m : Memory) (k : Kind)

theorem reply_write_congr (m' : Memory) (h : m.cellCount = m'.cellCount) (index : Nat)
    (v : k.Input) : (m.perform (.write k index v)).2 = (m'.perform (.write k index v)).2 := by
  apply m.reply_congr
  · rw [Call.refusal, Call.refusal, m.runRefusal_congr m' h]
  · exact fun _ => ⟨rfl, rfl⟩

/-- Each of the single writes is replied to as if it were the only one, because the number of data
cells stays what it is. -/
theorem getElem?_singles (start j : Nat) (vs : List k.Input) :
    (m.run (Call.singles k start vs)).2[j]? =
      vs[j]?.map fun v => (m.perform (.write k (start + j) v)).2 := by
  induction vs generalizing m start j with
  | nil => rfl
  | cons v vs ih =>
    simp only [Call.singles, run]
    cases j with
    | zero => rfl
    | succ j =>
      rw [List.getElem?_cons_succ, ih, List.getElem?_cons_succ,
        show start + 1 + j = start + (j + 1) by omega]
      congr 1
      funext w
      exact reply_write_congr _ k m (m.cellCount_perform _) _ w

theorem run_singles (start : Nat) (vs : List k.Input)
    (h : (Call.writeBatch k start vs).refusal m = none) :
    (m.run (Call.singles k start vs)).1 = (Call.writeBatch k start vs).effect m := by
  induction vs generalizing m start with
  | nil => rfl
  | cons v vs ih =>
    obtain ⟨hrows, hle⟩ := (Call.refusal_writeBatch_eq_none m k start (v :: vs)).1 h
    rw [List.length_cons] at hle
    have hfirst : (m.perform (.write k start v)).1 =
        m.putCells (m.prefixCells + start) [k.cellOf v] := by
      have hnone := (Call.refusal_write_eq_none m k start v).2
        ⟨hrows v List.mem_cons_self, by omega⟩
      rw [m.perform_accepted _ hnone, Call.effect]
    have hrest :
        (Call.writeBatch k (start + 1) vs).refusal (m.perform (.write k start v)).1 = none := by
      rw [Call.refusal_writeBatch_eq_none, m.cellCount_perform]
      exact ⟨fun w hw => hrows w (List.mem_cons_of_mem v hw), by omega⟩
    rw [Call.singles, run_cons, ih _ (start + 1) hrest, hfirst, Call.effect, Call.effect,
      List.map_cons, prefixCells_putCells, m.putCells_cons _ (k.cellOf v) (vs.map k.cellOf),
      Nat.add_assoc]

/-! ## Both ways compared -/

section Values
variable (start : Nat) (vs : List k.Input)

theorem value_singles (j : Nat) (hj : j < vs.length) :
    (m.run (Call.singles k start vs)).2[j]?.map Traced.value =
      some (m.perform (.write k (start + j) vs[j])).2.value := by
  rw [getElem?_singles, List.getElem?_eq_getElem hj]
  rfl

theorem value_singles_of_fits (hrows : ∀ v ∈ vs, k.excess? v = none) (j : Nat)
    (hj : j < vs.length) :
    (m.run (Call.singles k start vs)).2[j]?.map Traced.value = some (
      if start + j < m.cellCount then .ok .done
      else .error (.fault (.outOfBounds (start + j) 1 m.cellCount))) := by
  rw [value_singles m k start vs j hj, value_perform,
    Call.refusal_write m k _ _ (hrows _ (List.getElem_mem hj))]
  by_cases hindex : start + j < m.cellCount
  · rw [if_pos hindex, if_pos hindex]
    rfl
  · rw [if_neg hindex, if_neg hindex]

theorem value_singles_of_excess (before after : List k.Input) (row : k.Input) (n : Nat)
    (hn : k.excess? row = some n) :
    (m.run (Call.singles k start (before ++ row :: after))).2[before.length]?.map Traced.value =
      some (.error (.fault (.oversizedCell n))) := by
  have hrow : (before ++ row :: after)[before.length]? = some row := by
    rw [List.getElem?_append_right (Nat.le_refl _), Nat.sub_self, List.getElem?_cons_zero]
  rw [getElem?_singles, hrow, Option.map_some, Option.map_some, value_perform,
    Call.refusal_write_of_excess m k _ row n hn]

/-- If the single writes of a batch all succeed, its rows fit, and its last value has a cell. -/
theorem refusal_writeBatch_of_singles (hvs : vs ≠ [])
    (h : ∀ j < vs.length,
      (m.run (Call.singles k start vs)).2[j]?.map Traced.value = some (.ok .done)) :
    (Call.writeBatch k start vs).refusal m = none := by
  have hsingle (j : Nat) (hj : j < vs.length) :
      k.excess? vs[j] = none ∧ start + j < m.cellCount := by
    have hvalue := h j hj
    rw [value_singles m k start vs j hj, Option.some.injEq, value_perform_eq_ok] at hvalue
    exact (Call.refusal_write_eq_none m k (start + j) vs[j]).1 hvalue.1
  rw [Call.refusal_writeBatch_eq_none]
  constructor
  · intro v hv
    obtain ⟨j, hj, rfl⟩ := List.getElem_of_mem hv
    exact (hsingle j hj).1
  · have hpos := List.length_pos_iff.2 hvs
    have hlast := (hsingle (vs.length - 1) (by omega)).2
    omega

end Values

/-- A batch next to its values written one by one. If it succeeds, so do all the single writes, and
they end with the same memory; and if there are any and all of them succeed, so does the batch. A
batch that fails changes nothing. Either one of its rows is too long, and then it fails as the single
write of the first such row does; or its run ends past the data cells, and then exactly the single
writes past them fail. A batch of no values is only asked where it stands. -/
theorem batch_as_singles (start : Nat) (vs : List k.Input) :
    let batch := m.perform (.writeBatch k start vs)
    let singles := m.run (Call.singles k start vs)
    (batch.2.value = .ok .done →
      (∀ j < vs.length, singles.2[j]?.map Traced.value = some (.ok .done)) ∧
      singles.1 = batch.1) ∧
    (vs ≠ [] → (batch.2.value = .ok .done ↔
      ∀ j < vs.length, singles.2[j]?.map Traced.value = some (.ok .done))) ∧
    (batch.2.value ≠ .ok .done → batch.1 = m ∧
      ((∃ before row after n, vs = before ++ row :: after ∧ (∀ v ∈ before, k.excess? v = none) ∧
          k.excess? row = some n ∧ batch.2.value = .error (.fault (.oversizedCell n)) ∧
          singles.2[before.length]?.map Traced.value = some (.error (.fault (.oversizedCell n)))) ∨
        ((∀ v ∈ vs, k.excess? v = none) ∧
          batch.2.value = .error (.fault (.outOfBounds start vs.length m.cellCount)) ∧
          ∀ j < vs.length, singles.2[j]?.map Traced.value = some (
            if start + j < m.cellCount then .ok .done
            else .error (.fault (.outOfBounds (start + j) 1 m.cellCount)))))) ∧
    (vs = [] → batch.1 = m ∧ (batch.2.value = .ok .done ↔ start ≤ m.cellCount)) := by
  intro batch singles
  have haccepted : batch.2.value = .ok .done ↔ (Call.writeBatch k start vs).refusal m = none := by
    rw [value_perform_eq_ok]
    exact and_iff_left rfl
  have hall (hok : batch.2.value = .ok .done) (j : Nat) (hj : j < vs.length) :
      singles.2[j]?.map Traced.value = some (.ok .done) := by
    obtain ⟨hrows, hle⟩ :=
      (Call.refusal_writeBatch_eq_none m k start vs).1 (haccepted.1 hok)
    rw [value_singles_of_fits m k start vs hrows j hj, if_pos (by omega)]
  refine ⟨?_, ?_, ?_, ?_⟩
  · intro hok
    have hbatch : batch.1 = (Call.writeBatch k start vs).effect m :=
      congrArg Prod.fst (m.perform_accepted _ (haccepted.1 hok))
    refine ⟨hall hok, ?_⟩
    rw [hbatch, ← m.run_singles k start vs (haccepted.1 hok)]
  · intro hvs
    exact ⟨hall, fun h => haccepted.2 (m.refusal_writeBatch_of_singles k start vs hvs h)⟩
  · intro hfailed
    rcases Call.refusal_writeBatch_cases m k start vs with
      hnone | ⟨before, row, after, n, rfl, hbefore, hn, hrefusal⟩ | ⟨hrows, -, hrefusal⟩
    · exact absurd (haccepted.2 hnone) hfailed
    · have hbatch := m.perform_refused _ _ hrefusal
      refine ⟨congrArg Prod.fst hbatch, .inl ⟨before, row, after, n, rfl, hbefore, hn, ?_, ?_⟩⟩
      · exact congrArg (fun r => r.2.value) hbatch
      · exact value_singles_of_excess m k start before after row n hn
    · have hbatch := m.perform_refused _ _ hrefusal
      refine ⟨congrArg Prod.fst hbatch, .inr ⟨hrows, ?_, ?_⟩⟩
      · exact congrArg (fun r => r.2.value) hbatch
      · exact value_singles_of_fits m k start vs hrows
  · rintro rfl
    refine ⟨?_, ?_⟩
    · rcases m.perform_cases (.writeBatch k start []) with ⟨-, hsame⟩ | ⟨-, -, heffect⟩
      · exact hsame
      · exact heffect
    · rw [haccepted, Call.refusal_writeBatch_eq_none]
      exact and_iff_right fun v hv => absurd hv List.not_mem_nil

/-- Two zeroed data cells: two values that fit, two booleans of which the second has no cell, rows
of which the second is too long, and no values at all right behind the cells. -/
theorem batch_as_singles_two_cells :
    ∃ m : Memory, m.cellCount = 2 ∧
      (m.run (Call.singles .int32 0 [7, -8])).1 = (m.perform (.writeBatch .int32 0 [7, -8])).1 ∧
      (∀ j < 2, (m.run (Call.singles .int32 0 [7, -8])).2[j]?.map Traced.value =
        some (.ok .done)) ∧
      (m.perform (.writeBatch .boolean 1 [true, true])).1 = m ∧
      (m.perform (.writeBatch .raw 0 [[1], [1, 2, 3, 4, 5]])).1 = m ∧
      (∃ j : Nat, (m.run (Call.singles .raw 0 [[1], [1, 2, 3, 4, 5]])).2[j]?.map Traced.value =
        some (.error (.fault (.oversizedCell 5)))) ∧
      (m.perform (.writeBatch .uint32 2 [])).2.value = .ok .done := by
  refine ⟨⟨.zeros 20, 2, default, rfl, by decide⟩, rfl, ?_⟩
  obtain ⟨hsucceeded, hiff, -, -⟩ :=
    batch_as_singles ⟨.zeros 20, 2, default, rfl, by decide⟩ .int32 0 [7, -8]
  obtain ⟨-, -, hrun, -⟩ :=
    batch_as_singles ⟨.zeros 20, 2, default, rfl, by decide⟩ .boolean 1 [true, true]
  obtain ⟨-, -, hrow, -⟩ :=
    batch_as_singles ⟨.zeros 20, 2, default, rfl, by decide⟩ .raw 0 [[1], [1, 2, 3, 4, 5]]
  obtain ⟨-, -, -, hempty⟩ :=
    batch_as_singles ⟨.zeros 20, 2, default, rfl, by decide⟩ .uint32 2 []
  have hok := (value_perform_eq_ok ⟨.zeros 20, 2, default, rfl, by decide⟩
    (.writeBatch .int32 0 [7, -8]) .done).2 ⟨rfl, rfl⟩
  have hlong := perform_refused ⟨.zeros 20, 2, default, rfl, by decide⟩
    (.writeBatch .raw 0 [[1], [1, 2, 3, 4, 5]]) (.oversizedCell 5) rfl
  have hpast := perform_refused ⟨.zeros 20, 2, default, rfl, by decide⟩
    (.writeBatch .boolean 1 [true, true]) (.outOfBounds 1 2 2) rfl
  obtain ⟨hsame, hreason⟩ := hrow (by rw [hlong]; nofun)
  refine ⟨(hsucceeded hok).2, (hiff (by decide)).1 hok, (hrun (by rw [hpast]; nofun)).1, hsame, ?_,
    (hempty rfl).2.2 (by decide)⟩
  rcases hreason with ⟨before, _, _, n, -, -, -, hvalue, hsingle⟩ | ⟨-, hvalue, -⟩
  · rw [hlong] at hvalue
    cases hvalue
    exact ⟨before.length, hsingle⟩
  · rw [hlong] at hvalue
    cases hvalue

end Memory

end CellMemory
