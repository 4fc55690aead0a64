import CellMemory.Proofs.Batch
import CellMemory.Proofs.Reading

/-! # Values as words

Every kind of value is a way to look at 32-bit words. Writing a value is writing its word, and reading
one is reading a word and converting it, whatever the kind.

* `Kind.word`, `Kind.ofWord`: the conversions, in numbers.
* `Kind.cellOf_eq_ofWord`, `Kind.value_decode_eq_ofWord`: they are what the codecs do.
* `Memory.writeBatch_as_words`, `Memory.write_as_words`: writes.
* `Memory.value_copy_as_words`, `Memory.value_read_as_words`: reads.
* `Memory.values_as_words`: all accesses together.
-/

namespace CellMemory
set_option autoImplicit false

/-! ## Conversions -/

theorem LittleEndian.value_zeros (n : Nat) : value (List.replicate n 0) = 0 := by
  induction n with
  | zero => rfl
  | succ n ih =>
    rw [List.replicate_succ, value, ih]
    rfl

theorem LittleEndian.value_append_zeros (bs : List UInt8) (n : Nat) :
    value (bs ++ List.replicate n 0) = value bs := by
  induction bs with
  | nil => exact value_zeros n
  | cons b bs ih => rw [List.cons_append, value, ih, value]

namespace Kind

/-- The word that an input is written as: an integer modulo the number of words, the largest or the
smallest word for a boolean, and for a row the number that has its bytes as base-256 digits. -/
def word : (k : Kind) → k.Input → UInt32
  | int32, v => .ofNat (v.toInt % UInt32.size).toNat
  | uint32, v => v
  | boolean, b => if b then 4294967295 else 0
  | raw, row => .ofNat (LittleEndian.value row)

/-- The value that a word is read as: words from the middle on are negative integers, every word but
zero is true, and a cell has the four base-256 digits. -/
def ofWord : (k : Kind) → UInt32 → k.Value
  | int32, w =>
    .ofInt (if w.toNat < 2147483648 then (w.toNat : Int) else (w.toNat : Int) - 4294967296)
  | uint32, w => w
  | boolean, w => w.toNat ≠ 0
  | raw, w => Cell.pad (LittleEndian.digits 4 w.toNat)

/-! The conversions lose nothing: the numbers in them are in range. -/

theorem toNat_word_int32 (v : Int32) : ((int32.word v).toNat : Int) = v.toInt % 4294967296 := by
  have hpos : 0 ≤ v.toInt % UInt32.size := Int.emod_nonneg _ (by decide)
  have hlt : v.toInt % UInt32.size < UInt32.size := Int.emod_lt_of_pos _ (by decide)
  rw [word, UInt32.toNat_ofNat_of_lt' (by omega), Int.toNat_of_nonneg hpos]
  rfl

theorem toNat_word_raw (row : List UInt8) (h : row.length ≤ 4) :
    (raw.word row).toNat = LittleEndian.value row := by
  have hpadded := LittleEndian.value_lt (row ++ List.replicate (4 - row.length) 0)
  rw [LittleEndian.value_append_zeros, List.length_append, List.length_replicate,
    Nat.add_sub_cancel' h] at hpadded
  exact UInt32.toNat_ofNat_of_lt' hpadded

theorem toInt_ofWord (w : UInt32) :
    (int32.ofWord w).toInt =
      if w.toNat < 2147483648 then (w.toNat : Int) else (w.toNat : Int) - 4294967296 := by
  have hlt := w.toNat_lt
  apply Int32.toInt_ofInt_of_le
  · split <;> omega
  · split <;> omega

theorem bytes_ofWord (w : UInt32) : (raw.ofWord w).bytes = LittleEndian.digits 4 w.toNat := rfl

/-! ## The codecs -/

variable (k : Kind)

theorem cellOf_eq_ofWord (v : k.Input) (h : k.excess? v = none) :
    k.cellOf v = Cell.ofWord (k.word v) := by
  cases k with
  | int32 =>
    have hword : v.toUInt32 = int32.word v := by
      rw [word, ← toNat_toUInt32, UInt32.ofNat_toNat]
    exact congrArg Cell.ofWord hword
  | uint32 => rfl
  | boolean => cases v <;> rfl
  | raw =>
    have hlength : v.length ≤ Cell.size := by
      apply Decidable.byContradiction
      intro hlong
      simp only [excess?, if_neg hlong, reduceCtorEq] at h
    have hword : (Cell.pad v).word = raw.word v := by
      rw [word_eq, bytes_pad v hlength, LittleEndian.value_append_zeros, word]
    rw [← hword, Cell.ofWord_word]
    rfl

theorem toInt32_eq_ofWord (w : UInt32) : w.toInt32 = int32.ofWord w := by
  have hword : w.toInt32 = .ofInt w.toNat := by
    rw [Int32.ofInt_eq_ofNat, ← UInt32.toInt32_ofNat', UInt32.ofNat_toNat]
  rw [ofWord, hword]
  split
  · rfl
  · have hround : Int32.ofInt 4294967296 = 0 := rfl
    rw [Int32.ofInt_sub, hround, Int32.sub_zero]

theorem value_decode_eq_ofWord (c : Cell) : (k.decode c).value = k.ofWord c.word := by
  cases k with
  | int32 => exact toInt32_eq_ofWord c.word
  | uint32 => rfl
  | boolean =>
    rw [Bool.eq_iff_iff]
    simp only [decode, Boolean.decode, Boolean.falsePattern, ofWord, bne_iff_ne, decide_eq_true_eq,
      ne_eq, ← UInt32.toNat_inj, UInt32.toNat_zero]
  | raw =>
    have hdigits := LittleEndian.digits_word c.word
    rw [Cell.ofWord_word] at hdigits
    exact (congrArg Cell.pad hdigits).symm

theorem value_decodeAll_eq_map (cells : List Cell) :
    (k.codec.decodeAll cells).value = (uint32.codec.decodeAll cells).value.map k.ofWord := by
  rw [k.value_decodeAll, uint32.value_decodeAll, List.map_map, List.map_inj_left]
  exact fun c _ => k.value_decode_eq_ofWord c

end Kind

/-! ## Accesses -/

namespace Memory

variable (m : Memory) (k : Kind)

theorem writeBatch_as_words (start : Nat) (vs : List k.Input)
    (h : ∀ v ∈ vs, k.excess? v = none) :
    m.perform (.writeBatch k start vs) =
      m.perform (.writeBatch .uint32 start (vs.map k.word)) := by
  have hrows : k.rowRefusal vs = none :=
    (k.rowRefusal_eq_none vs).2 (List.findSome?_eq_none_iff.2 h)
  have hwords : Kind.uint32.rowRefusal (vs.map k.word) = none :=
    (Kind.uint32.rowRefusal_eq_none _).2 (List.findSome?_eq_none_iff.2 fun _ _ => rfl)
  have hcells : vs.map k.cellOf = (vs.map k.word).map Kind.uint32.cellOf := by
    rw [List.map_map, List.map_inj_left]
    exact fun v hv => k.cellOf_eq_ofWord v (h v hv)
  apply m.perform_congr
  · rw [Call.refusal, Call.refusal, hrows, hwords, List.length_map]
  · intro _
    rw [Call.effect, Call.effect, Call.report, Call.report, hcells, List.length_map]
    exact ⟨rfl, rfl, rfl⟩

theorem write_as_words (index : Nat) (v : k.Input) (h : k.excess? v = none) :
    m.perform (.write k index v) = m.perform (.write .uint32 index (k.word v)) := by
  apply m.perform_congr
  · rw [Call.refusal_write m k index v h, Call.refusal_write m .uint32 index _ rfl]
  · intro _
    rw [Call.effect, Call.effect, k.cellOf_eq_ofWord v h]
    exact ⟨rfl, rfl, rfl⟩

theorem value_copy_as_words (start count : Nat) (answer : Answer) :
    (m.perform (.copy k start count)).2.value = .ok answer ↔
      ∃ ws, (m.perform (.copy .uint32 start count)).2.value = .ok (.values .uint32 ws) ∧
        answer = .values k (ws.map k.ofWord) := by
  simp only [value_copy_eq_ok, Answer.values.injEq, heq_eq_eq, true_and]
  rw [k.value_decodeAll_eq_map]
  constructor
  · rintro ⟨hle, rfl⟩
    exact ⟨_, ⟨hle, rfl⟩, rfl⟩
  · rintro ⟨ws, ⟨hle, rfl⟩, rfl⟩
    exact ⟨hle, rfl⟩

theorem value_read_as_words (index : Nat) (answer : Answer) :
    (m.perform (.read k index)).2.value = .ok answer ↔
      ∃ w, (m.perform (.read .uint32 index)).2.value = .ok (.value .uint32 w) ∧
        answer = .value k (k.ofWord w) := by
  simp only [value_read_eq_ok, Answer.value.injEq, heq_eq_eq, true_and]
  rw [k.value_decode_eq_ofWord]
  constructor
  · rintro ⟨hlt, rfl⟩
    exact ⟨_, ⟨hlt, rfl⟩, rfl⟩
  · rintro ⟨w, ⟨hlt, rfl⟩, rfl⟩
    exact ⟨hlt, rfl⟩

/-- Writing values of any kind, one or a batch of them, is writing their words: the same memory, the
same reply, the same events. Copying or reading values of any kind fails just as copying or reading
the words fails, and otherwise each value is its word converted. The conversions are those of the
numbers: residues modulo `2 ^ 32`, two's complement, and base-256 digits with the lowest first. -/
theorem values_as_words :
    ((∀ v, ((Kind.int32.word v).toNat : Int) = v.toInt % 4294967296) ∧
      (∀ row, row.length ≤ 4 → (Kind.raw.word row).toNat = LittleEndian.value row) ∧
      (∀ w, (Kind.int32.ofWord w).toInt =
        if w.toNat < 2147483648 then (w.toNat : Int) else (w.toNat : Int) - 4294967296) ∧
      ∀ w, (Kind.raw.ofWord w).bytes = LittleEndian.digits 4 w.toNat) ∧
    (∀ start vs, (∀ v ∈ vs, k.excess? v = none) →
      m.perform (.writeBatch k start vs) =
        m.perform (.writeBatch .uint32 start (vs.map k.word))) ∧
    (∀ index v, k.excess? v = none →
      m.perform (.write k index v) = m.perform (.write .uint32 index (k.word v))) ∧
    (∀ start count,
      (∀ failure, (m.perform (.copy k start count)).2.value = .error failure ↔
        (m.perform (.copy .uint32 start count)).2.value = .error failure) ∧
      ∀ answer, (m.perform (.copy k start count)).2.value = .ok answer ↔
        ∃ ws, (m.perform (.copy .uint32 start count)).2.value = .ok (.values .uint32 ws) ∧
          answer = .values k (ws.map k.ofWord)) ∧
    ∀ index,
      (∀ failure, (m.perform (.read k index)).2.value = .error failure ↔
        (m.perform (.read .uint32 index)).2.value = .error failure) ∧
      ∀ answer, (m.perform (.read k index)).2.value = .ok answer ↔
        ∃ w, (m.perform (.read .uint32 index)).2.value = .ok (.value .uint32 w) ∧
          answer = .value k (k.ofWord w) := by
  refine ⟨⟨Kind.toNat_word_int32, Kind.toNat_word_raw, Kind.toInt_ofWord, Kind.bytes_ofWord⟩,
    m.writeBatch_as_words k, m.write_as_words k, ?_, ?_⟩
  · intro start count
    exact ⟨m.error_congr (.copy k start count) (.copy .uint32 start count) rfl,
      m.value_copy_as_words k start count⟩
  · intro index
    exact ⟨m.error_congr (.read k index) (.read .uint32 index) rfl, m.value_read_as_words k index⟩

/-- Two data cells with the words `2 ^ 32 - 2` and `1`: copied as integers and as booleans, and written
as short rows and as a negative integer. -/
theorem values_as_words_two_cells :
    ∃ m, (ofBytes (List.replicate 12 0 ++ [254, 255, 255, 255, 1, 0, 0, 0]) default).value = .ok m ∧
      (m.perform (.copy .int32 0 2)).2.value = .ok (.values .int32 [-2, 1]) ∧
      (m.perform (.copy .boolean 0 2)).2.value = .ok (.values .boolean [true, true]) ∧
      m.perform (.writeBatch .raw 0 [[1, 2], []]) = m.perform (.writeBatch .uint32 0 [513, 0]) ∧
      m.perform (.write .int32 1 (-2)) = m.perform (.write .uint32 1 4294967294) := by
  obtain ⟨m, hm, hcount, hwords⟩ : ∃ m, (ofBytes (List.replicate 12 0 ++
      [254, 255, 255, 255, 1, 0, 0, 0]) default).value = .ok m ∧ m.cellCount = 2 ∧
      (Kind.uint32.codec.decodeAll (m.dataCells 0 2)).value = [4294967294, 1] :=
    ⟨_, rfl, rfl, by decide +kernel⟩
  have hcopied := (m.value_copy_eq_ok .uint32 0 2 _).2 ⟨Nat.le_of_eq hcount.symm, rfl⟩
  rw [hwords] at hcopied
  obtain ⟨-, -, hwrite, hintegers, -⟩ := m.values_as_words .int32
  obtain ⟨-, -, -, hbooleans, -⟩ := m.values_as_words .boolean
  obtain ⟨-, hrows, -, -, -⟩ := m.values_as_words .raw
  exact ⟨m, hm, ((hintegers 0 2).2 _).2 ⟨_, hcopied, rfl⟩, ((hbooleans 0 2).2 _).2 ⟨_, hcopied, rfl⟩,
    hrows 0 [[1, 2], []] (by decide), hwrite 1 (-2) rfl⟩

end Memory

end CellMemory
