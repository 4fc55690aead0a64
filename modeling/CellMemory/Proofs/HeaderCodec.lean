import CellMemory.Proofs.Outcome

/-! # Headers there and back

A header and its twelve bytes determine each other, and what comes after the twelve bytes makes no
difference. So a receiver finds the count that was sent, and accepts it just if it is the one expected;
counts that a word cannot hold are refused before anything is sent, and never cut down to one.

* `LittleEndian.ofNat_value_digits`, `LittleEndian.digits_ofNat_value`: a word and its four bytes.
* `Header.ofBytes_bytes_append`: from the header to its bytes and back.
* `Header.bytes_of_fields`, `Header.exists_ofBytes`: from the bytes to the header and back.
* `Header.forCells_eq_ok`, `Header.validate_forCells`: the count of a memory in a header.
* `Header.codec_exact`: these facts together.
-/

namespace CellMemory
set_option autoImplicit false

/-! ## Words -/

theorem LittleEndian.ofNat_value_digits (w : UInt32) :
    UInt32.ofNat (value (digits Cell.size w.toNat)) = w := by
  have hlt : w.toNat < span Cell.size := w.toNat_lt
  rw [value_digits, Nat.mod_eq_of_lt hlt, UInt32.ofNat_toNat]

/-- Four bytes are those of the word they spell, whichever they are. -/
theorem LittleEndian.digits_ofNat_value (bs : List UInt8) (h : bs.length = Cell.size) :
    digits Cell.size (UInt32.ofNat (value bs)).toNat = bs := by
  have hlt := value_lt bs
  rw [h] at hlt
  rw [UInt32.toNat_ofNat_of_lt' hlt, ← h, digits_value]

namespace Header

/-! ## The codec -/

theorem ofBytes_bytes_append (h : Header) (rest : List UInt8) :
    ofBytes (h.bytes ++ rest) = .ok h := by
  have hlength : ¬(h.bytes ++ rest).length < size := by
    rw [List.length_append, length_bytes]
    omega
  have hfield (n : Nat) (w : UInt32)
      (hw : ((h.bytes ++ rest).drop (Cell.size * n)).take Cell.size =
        LittleEndian.digits Cell.size w.toNat) : field (h.bytes ++ rest) n = w := by
    rw [field, hw, LittleEndian.ofNat_value_digits]
  rw [ofBytes, if_neg hlength, hfield 0 h.memberId rfl, hfield 1 h.cellCount rfl,
    hfield 2 h.reserved rfl]

theorem digits_field (bs : List UInt8) (n : Nat) (h : Cell.size * n + Cell.size ≤ bs.length) :
    LittleEndian.digits Cell.size (field bs n).toNat =
      (bs.drop (Cell.size * n)).take Cell.size := by
  apply LittleEndian.digits_ofNat_value
  rw [List.length_take, List.length_drop]
  omega

theorem bytes_of_fields (bs : List UInt8) (h : size ≤ bs.length) :
    (Header.mk (field bs 0) (field bs 1) (field bs 2)).bytes = bs.take size := by
  have hfits (n : Nat) (hn : n < cells) : Cell.size * n + Cell.size ≤ bs.length := by
    simp only [size, cells, Cell.size] at h hn ⊢
    omega
  rw [show size = Cell.size + (Cell.size + Cell.size) from rfl, List.take_add, List.take_add,
    List.drop_drop]
  simp only [bytes, List.flatMap_cons, List.flatMap_nil, List.append_nil]
  rw [digits_field bs 0 (hfits 0 (by decide)), digits_field bs 1 (hfits 1 (by decide)),
    digits_field bs 2 (hfits 2 (by decide))]
  rfl

theorem exists_ofBytes (bs : List UInt8) (h : size ≤ bs.length) :
    ∃ header, ofBytes bs = .ok header ∧ header.bytes = bs.take size :=
  ⟨_, if_neg (Nat.not_lt.2 h), bytes_of_fields bs h⟩

/-! ## The count in a header -/

theorem forCells_eq_ok (id : UInt32) (n : Nat) (h : Header) :
    forCells id n = .ok h ↔ n < UInt32.size ∧ h = ⟨id, .ofNat n, 0⟩ := by
  by_cases hn : n < UInt32.size
  · rw [forCells_of_lt id n hn, Except.ok.injEq, eq_comm]
    exact (and_iff_right hn).symm
  · rw [forCells_of_le id n (Nat.not_lt.1 hn)]
    exact iff_of_false (fun hok => by cases hok) fun hok => hn hok.1

theorem validate_eq (h : Header) (n : Nat) :
    h.validate n =
      if n = h.cellCount.toNat then .ok () else .error (.lengthMismatch n h.cellCount.toNat) := rfl

/-- The count in the header of a memory is the whole count, not its lowest 32 bits. -/
theorem validate_forCells (id : UInt32) (n expected : Nat) (h : Header)
    (hn : forCells id n = .ok h) :
    h.validate expected =
      if expected = n then .ok () else .error (.lengthMismatch expected n) := by
  obtain ⟨hlt, rfl⟩ := (forCells_eq_ok id n h).1 hn
  rw [validate_eq, UInt32.toNat_ofNat_of_lt' hlt]

/-- Every header is written as twelve bytes and read from them again, whatever follows. Any twelve
bytes or more are read as a header, which is written as the first twelve of them; fewer are refused
with the number of whole cells that there are. A memory has a header just if its number of data cells
fits in a word. The header that is read from the bytes of that one is found valid for the same number
and for no other, and then both numbers are reported. -/
theorem codec_exact :
    (∀ (h : Header) (rest : List UInt8),
      h.bytes.length = 12 ∧ ofBytes (h.bytes ++ rest) = .ok h) ∧
    (∀ bs : List UInt8, 12 ≤ bs.length → ∃ h, ofBytes bs = .ok h ∧ h.bytes = bs.take 12) ∧
    (∀ bs : List UInt8, bs.length < 12 →
      ofBytes bs = .error (.headerUnavailable (bs.length / 4))) ∧
    (∀ id n, ((∃ h, forCells id n = .ok h) ↔ n ≤ 4294967295) ∧
      (4294967295 < n → forCells id n = .error (.headerOverflow n))) ∧
    ∀ id n h, forCells id n = .ok h → ∀ (rest : List UInt8) (expected : Nat),
      ∃ h', ofBytes (h.bytes ++ rest) = .ok h' ∧
        (h'.validate expected = .ok () ↔ n = expected) ∧
        (n ≠ expected → h'.validate expected = .error (.lengthMismatch expected n)) := by
  refine ⟨?_, exists_ofBytes, fun _ hshort => if_pos hshort, ?_, ?_⟩
  · intro h rest
    exact ⟨h.length_bytes, h.ofBytes_bytes_append rest⟩
  · intro id n
    refine ⟨?_, fun hn => forCells_of_le id n hn⟩
    simp only [forCells_eq_ok, exists_and_left, exists_eq, and_true]
    exact Nat.lt_succ_iff
  · intro id n h hn rest expected
    refine ⟨h, h.ofBytes_bytes_append rest, ?_, ?_⟩
    · rw [validate_forCells id n expected h hn, eq_comm (a := n)]
      by_cases hsame : expected = n
      · rw [if_pos hsame]
        exact iff_of_true rfl hsame
      · rw [if_neg hsame]
        exact iff_of_false (fun hok => by cases hok) hsame
    · intro hne
      rw [validate_forCells id n expected h hn, if_neg hne.symm]

/-- A header with its third word set and a byte behind it; thirteen bytes and five bytes; a count that
is one too large; and two counts that differ by `2 ^ 32`. -/
theorem codec_exact_counts_apart :
    ofBytes ((Header.mk 258 26 5).bytes ++ [255]) = .ok ⟨258, 26, 5⟩ ∧
      (∃ h, ofBytes [1, 2, 3, 4, 5, 6, 7, 8, 9, 10, 11, 12, 13] = .ok h ∧
        h.bytes = [1, 2, 3, 4, 5, 6, 7, 8, 9, 10, 11, 12]) ∧
      ofBytes [1, 2, 3, 4, 5] = .error (.headerUnavailable 1) ∧
      forCells 3 4294967296 = .error (.headerOverflow 4294967296) ∧
      ∃ h', ofBytes ((Header.mk 3 1 0).bytes ++ [9]) = .ok h' ∧
        h'.validate 4294967297 = .error (.lengthMismatch 4294967297 1) := by
  obtain ⟨hback, hforth, hshort, hcounts, hpipeline⟩ := codec_exact
  obtain ⟨h', hread, -, hmismatch⟩ := hpipeline 3 1 ⟨3, 1, 0⟩ rfl [9] 4294967297
  exact ⟨(hback ⟨258, 26, 5⟩ [255]).2, hforth _ (by decide), hshort _ (by decide),
    (hcounts 3 4294967296).2 (by decide), h', hread, hmismatch (by decide)⟩

end Header

end CellMemory
