import CellMemory.Proofs.LastWrite

/-! # Three ways of reading

A run of data cells is looked at in place, copied and decoded, or read cell by cell. All three see
the same values, and they are refused for the same runs.

* `Memory.reply_view`: a view is replied to as a copy is.
* `Memory.value_copy_eq_ok`: when a copy succeeds, and with which values.
* `Memory.getElem?_copied`, `Memory.events_copied`: its values and its events, cell by cell.
* `Memory.value_copy_add`: a run that is cut in two.
* `Memory.reads_agree`: these facts together.
-/

namespace CellMemory
set_option autoImplicit false

namespace Kind

theorem events_decode (k : Kind) (hk : k ≠ boolean) (c : Cell) : (k.decode c).events = [] := by
  cases k with
  | boolean => exact absurd rfl hk
  | _ => rfl

theorem events_decodeAll_of_ne (k : Kind) (hk : k ≠ boolean) (cells : List Cell) :
    (k.codec.decodeAll cells).events = [] :=
  List.flatMap_eq_nil_iff.2 fun c _ => k.events_decode hk c

theorem value_decodeAll_append (k : Kind) (xs ys : List Cell) :
    (k.codec.decodeAll (xs ++ ys)).value = (k.codec.decodeAll xs).value ++ (k.codec.decodeAll ys).value :=
  List.map_append

end Kind

namespace Memory

variable (m : Memory) (k : Kind)

/-! ## Runs of data cells -/

theorem length_dataCells (start count : Nat) : (m.dataCells start count).length = count := by
  rw [dataCells, List.length_map, List.length_range']

theorem getElem?_dataCells (start count j : Nat) (hj : j < count) :
    (m.dataCells start count)[j]? = some (m.dataCell (start + j)) := by
  rw [dataCells, List.getElem?_map, List.getElem?_range' hj, Nat.one_mul, Option.map_some]

theorem dataCells_add (start a b : Nat) :
    m.dataCells start (a + b) = m.dataCells start a ++ m.dataCells (start + a) b := by
  rw [dataCells, dataCells, dataCells, ← List.map_append, List.range'_append_1]

/-- The data cells of a run, each found from the start of the run. -/
theorem dataCells_eq_map (start count : Nat) :
    m.dataCells start count = (List.range count).map fun j => m.dataCell (start + j) := by
  rw [dataCells, List.range'_eq_map_range, List.map_map]
  rfl

/-! ## One reply -/

theorem events_read (index : Nat) (h : index < m.cellCount) :
    (m.perform (.read k index)).2.events = (k.decode (m.dataCell index)).events := by
  have hnone : (Call.read k index).refusal m = none := (m.runRefusal_eq_none index 1).2 h
  rw [m.perform_accepted _ hnone]
  rfl

/-- A view reports nothing, and neither does a copy of the values that can be viewed. -/
theorem reply_view (start count : Nat) (inPlace : k ≠ .boolean) :
    (m.perform (.view k start count inPlace)).2 = (m.perform (.copy k start count)).2 := by
  have hrefusal :
      (Call.view k start count inPlace).refusal m = (Call.copy k start count).refusal m := rfl
  cases h : (Call.copy k start count).refusal m with
  | none =>
    have hreport : (Call.copy k start count).report m = [] := k.events_decodeAll_of_ne inPlace _
    rw [m.perform_accepted _ (hrefusal.trans h), m.perform_accepted _ h, hreport]
    rfl
  | some fault => rw [m.perform_refused _ _ (hrefusal.trans h), m.perform_refused _ _ h]

theorem value_copy_eq_ok (start count : Nat) (answer : Answer) :
    (m.perform (.copy k start count)).2.value = .ok answer ↔
      start + count ≤ m.cellCount ∧
        answer = .values k (k.codec.decodeAll (m.dataCells start count)).value := by
  rw [value_perform_eq_ok, Call.refusal, m.runRefusal_eq_none, eq_comm (a := answer)]
  rfl

theorem value_read_eq_ok (index : Nat) (answer : Answer) :
    (m.perform (.read k index)).2.value = .ok answer ↔
      index < m.cellCount ∧ answer = .value k (k.decode (m.dataCell index)).value := by
  rw [value_perform_eq_ok, Call.refusal, m.runRefusal_eq_none, eq_comm (a := answer)]
  rfl

theorem getElem?_copied (start count j : Nat) (hj : j < count) (h : start + count ≤ m.cellCount) :
    ∃ v, (k.codec.decodeAll (m.dataCells start count)).value[j]? = some v ∧
      (m.perform (.read k (start + j))).2.value = .ok (.value k v) := by
  refine ⟨(k.decode (m.dataCell (start + j))).value, ?_, ?_⟩
  · rw [k.value_decodeAll, List.getElem?_map, m.getElem?_dataCells start count j hj, Option.map_some]
  · exact m.perform_read (start + j) k (by omega)

theorem events_copied (start count : Nat) (h : start + count ≤ m.cellCount) :
    (m.perform (.copy k start count)).2.events =
      (List.range count).flatMap fun j => (m.perform (.read k (start + j))).2.events := by
  have hnone : (Call.copy k start count).refusal m = none :=
    (m.runRefusal_eq_none start count).2 h
  have hreads : ∀ j ∈ List.range count, (m.perform (.read k (start + j))).2.events =
      (k.decode (m.dataCell (start + j))).events := by
    intro j hj
    exact m.events_read k (start + j) (by have := List.mem_range.1 hj; omega)
  rw [m.perform_accepted _ hnone, Call.report, k.events_decodeAll, dataCells_eq_map, List.flatMap_map,
    List.flatMap_def, List.flatMap_def, List.map_congr_left hreads]

/-- Both parts of a run lie among the data cells just if all of it does. -/
theorem value_copy_add (start a b : Nat) (vs : List k.Value) :
    (m.perform (.copy k start (a + b))).2.value = .ok (.values k vs) ↔
      ∃ xs ys, (m.perform (.copy k start a)).2.value = .ok (.values k xs) ∧
        (m.perform (.copy k (start + a) b)).2.value = .ok (.values k ys) ∧ vs = xs ++ ys := by
  have hsplit := k.value_decodeAll_append (m.dataCells start a) (m.dataCells (start + a) b)
  rw [← m.dataCells_add] at hsplit
  simp only [value_copy_eq_ok, Answer.values.injEq, heq_eq_eq, true_and, hsplit]
  constructor
  · rintro ⟨hle, rfl⟩
    exact ⟨_, _, ⟨by omega, rfl⟩, ⟨by omega, rfl⟩, rfl⟩
  · rintro ⟨xs, ys, ⟨-, rfl⟩, ⟨hle, rfl⟩, rfl⟩
    exact ⟨by omega, rfl⟩

/-- Three ways to read data cells. A view and a copy of the same run are replied to alike, answer or
failure, for all values that can be viewed. A copy that succeeds has as many values as were asked
for, each of them the one that is read from its cell alone, and it reports what these reads report,
in their order; a copy that fails reports nothing. A run can be copied just if its two parts can,
wherever it is cut, and then their values together are the values of the run. -/
theorem reads_agree :
    (∀ start count (inPlace : k ≠ .boolean),
      (m.perform (.view k start count inPlace)).2 = (m.perform (.copy k start count)).2) ∧
    (∀ start count answer, (m.perform (.copy k start count)).2.value = .ok answer →
      ∃ vs : List k.Value, answer = .values k vs ∧ vs.length = count ∧
        (∀ j < count, ∃ v, vs[j]? = some v ∧
          (m.perform (.read k (start + j))).2.value = .ok (.value k v)) ∧
        (m.perform (.copy k start count)).2.events =
          (List.range count).flatMap fun j => (m.perform (.read k (start + j))).2.events) ∧
    (∀ start count failure, (m.perform (.copy k start count)).2.value = .error failure →
      (m.perform (.copy k start count)).2.events = []) ∧
    ∀ start a b vs, (m.perform (.copy k start (a + b))).2.value = .ok (.values k vs) ↔
      ∃ xs ys, (m.perform (.copy k start a)).2.value = .ok (.values k xs) ∧
        (m.perform (.copy k (start + a) b)).2.value = .ok (.values k ys) ∧ vs = xs ++ ys := by
  refine ⟨m.reply_view k, ?_, ?_, m.value_copy_add k⟩
  · intro start count answer h
    obtain ⟨hle, rfl⟩ := (m.value_copy_eq_ok k start count answer).1 h
    refine ⟨_, rfl, ?_, ?_, m.events_copied k start count hle⟩
    · rw [k.value_decodeAll, List.length_map, length_dataCells]
    · exact fun j hj => m.getElem?_copied k start count j hj hle
  · intro start count failure h
    cases hrefusal : (Call.copy k start count).refusal m with
    | none =>
      rw [m.perform_accepted _ hrefusal] at h
      cases h
    | some fault => rw [m.perform_refused _ _ hrefusal]

/-- Three data cells with the words `1`, `0` and `2 ^ 32 - 1`: seen in place and copied, copied as
booleans with the first one reported, and refused where a fourth one would have to be read. -/
theorem reads_agree_three_cells :
    ∃ m, (ofBytes (List.replicate 12 0 ++ [1, 0, 0, 0, 0, 0, 0, 0, 255, 255, 255, 255]) default).value =
        .ok m ∧
      (m.perform (.view .int32 1 2 (by decide))).2 = (m.perform (.copy .int32 1 2)).2 ∧
      (m.perform (.read .boolean (0 + 2))).2.value = .ok (.value .boolean true) ∧
      (m.perform (.copy .boolean 0 3)).2.events =
        (List.range 3).flatMap (fun j => (m.perform (.read .boolean (0 + j))).2.events) ∧
      (m.perform (.copy .boolean 1 3)).2.events = [] := by
  obtain ⟨m, hm, hcount, hvalues⟩ : ∃ m, (ofBytes (List.replicate 12 0 ++
      [1, 0, 0, 0, 0, 0, 0, 0, 255, 255, 255, 255]) default).value = .ok m ∧ m.cellCount = 3 ∧
      (Kind.boolean.codec.decodeAll (m.dataCells 0 3)).value = [true, false, true] :=
    ⟨_, rfl, rfl, by decide +kernel⟩
  obtain ⟨hview, -, -, -⟩ := m.reads_agree .int32
  obtain ⟨-, hcopy, hfailed, -⟩ := m.reads_agree .boolean
  have hpast := m.perform_refused (.copy .boolean 1 3) (.outOfBounds 1 3 m.cellCount)
    ((m.runRefusal_eq_some 1 3).2 ⟨by omega, rfl⟩)
  have hcopied := (m.value_copy_eq_ok .boolean 0 3 _).2 ⟨by omega, rfl⟩
  rw [hvalues] at hcopied
  obtain ⟨vs, hvs, -, hreads, hevents⟩ := hcopy 0 3 _ hcopied
  obtain ⟨v, hv, hread⟩ := hreads 2 (by decide)
  cases hvs
  cases hv
  exact ⟨m, hm, hview 1 2 (by decide), hread, hevents, hfailed 1 3 _ (by rw [hpast])⟩

end Memory

end CellMemory
