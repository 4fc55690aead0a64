import CellMemory.Proofs.Relayout

/-! # Headers as words

The header has a codec of its own, and so have the data cells. They agree: what is a header under a
layout with a prefix is a run of three words where the same bytes are all data.

* `Memory.perform_read_word`: a word of the header, read as data.
* `Header.bytes_eq_cellsOf`, `Memory.perform_write_words`: a header, written as data.
* `Memory.header_as_words`: both, for bytes taken over under both layouts.
-/

namespace CellMemory
set_option autoImplicit false

/-- The words of a header in the order in which they are stored. -/
def Header.words (h : Header) : List UInt32 := [h.memberId, h.cellCount, h.reserved]

theorem Header.bytes_eq_cellsOf (h : Header) :
    h.bytes = (h.words.map Kind.uint32.cellOf).flatMap Cell.bytes :=
  h.bytes_eq

namespace Memory

/-! ## One buffer under two layouts -/

section TwoLayouts
variable (framed bare : Memory) (hsame : framed.bytes = bare.bytes)
  (hroom : Header.cells ≤ framed.prefixCells) (hbare : bare.prefixCells = 0)

include hsame hroom hbare

theorem cellCount_of_bare : Header.cells ≤ bare.cellCount := by
  have hcells := framed.cells_of_bytes bare hsame
  omega

theorem perform_read_word (i : Nat) (hi : i < Header.cells) :
    (bare.perform (.read .uint32 i)).2.value =
      .ok (.value .uint32 (framed.buffer.cell i).word) := by
  have hcount := cellCount_of_bare framed bare hsame hroom hbare
  rw [bare.perform_read i .uint32 (by omega), dataCell, hbare, Nat.zero_add,
    framed.cell_of_bytes bare hsame]
  rfl

/-- A header and the batch of its words are stored as the same bytes at the same place. -/
theorem perform_write_words (h : Header) :
    (framed.perform (.writeHeader h)).2.value = .ok .done ∧
      (bare.perform (.writeBatch .uint32 0 h.words)).2.value = .ok .done ∧
      (framed.perform (.writeHeader h)).1.bytes =
        (bare.perform (.writeBatch .uint32 0 h.words)).1.bytes := by
  have hcount := cellCount_of_bare framed bare hsame hroom hbare
  have hheader : (Call.writeHeader h).refusal framed = none :=
    framed.headerRefusal_eq_none.2 hroom
  have hwords : (Call.writeBatch .uint32 0 h.words).refusal bare = none := by
    rw [Call.refusal_writeBatch_eq_none]
    exact ⟨fun _ _ => rfl, by rw [Nat.zero_add]; exact hcount⟩
  refine ⟨?_, ?_, ?_⟩
  · exact (framed.value_perform_eq_ok _ _).2 ⟨hheader, rfl⟩
  · exact (bare.value_perform_eq_ok _ _).2 ⟨hwords, rfl⟩
  · have hcells : (Call.writeBatch .uint32 0 h.words).effect bare = bare.store 0 h.bytes := by
      rw [Call.effect, putCells, ← h.bytes_eq_cellsOf, hbare, Nat.add_zero, Nat.zero_mul]
    rw [framed.perform_accepted _ hheader, bare.perform_accepted _ hwords, hcells]
    exact framed.bytes_store_congr bare hsame 0 h.bytes

end TwoLayouts

/-- Take the same bytes over under a layout whose prefix has room for a header, and under the one
without a prefix. Both make a memory. The header of the first one is read from the other as its
first three words, and to write a header into the first one is to write its words into the other
from cell `0` on: both succeed, and the bytes are the same again. -/
theorem header_as_words (bs : List UInt8) (l : Layout) (hwhole : bs.length % 4 = 0)
    (hroom : 3 ≤ l.prefixCells) (hfits : l.prefixCells ≤ bs.length / 4) :
    (bs.length < cellLimit * Cell.size → ∃ framed bare,
      (ofBytes bs l).value = .ok framed ∧ (ofBytes bs .bare).value = .ok bare) ∧
    ∀ framed bare, (ofBytes bs l).value = .ok framed → (ofBytes bs .bare).value = .ok bare →
      (∃ h : Header, (framed.perform .readHeader).2.value = .ok (.header h) ∧
        (bare.perform (.read .uint32 0)).2.value = .ok (.value .uint32 h.memberId) ∧
        (bare.perform (.read .uint32 1)).2.value = .ok (.value .uint32 h.cellCount) ∧
        (bare.perform (.read .uint32 2)).2.value = .ok (.value .uint32 h.reserved)) ∧
      ∀ h : Header,
        (framed.perform (.writeHeader h)).2.value = .ok .done ∧
        (bare.perform (.writeBatch .uint32 0 [h.memberId, h.cellCount, h.reserved])).2.value =
          .ok .done ∧
        (framed.perform (.writeHeader h)).1.bytes =
          (bare.perform (.writeBatch .uint32 0 [h.memberId, h.cellCount, h.reserved])).1.bytes := by
  constructor
  · intro hbound
    obtain ⟨framed, hframed⟩ := (exists_ofBytes_iff bs l hbound).2
      ⟨hwhole, by simp only [Cell.size]; omega⟩
    obtain ⟨bare, hbare⟩ := (exists_ofBytes_iff bs .bare hbound).2 ⟨hwhole, Nat.zero_le _⟩
    exact ⟨framed, bare, hframed, hbare⟩
  · intro framed bare hframed hbare
    obtain ⟨hlayout, hbytes⟩ := (ofBytes_eq_ok bs l framed).1 hframed
    obtain ⟨hlayout', hbytes'⟩ := (ofBytes_eq_ok bs .bare bare).1 hbare
    have hsame : framed.bytes = bare.bytes := hbytes.trans hbytes'.symm
    have hwidth : Header.cells ≤ framed.prefixCells := by
      rw [prefixCells, hlayout]
      exact hroom
    have hnone : bare.prefixCells = 0 := by
      rw [prefixCells, hlayout']
      rfl
    have hread := perform_read_word framed bare hsame hwidth hnone
    refine ⟨⟨framed.header, framed.perform_readHeader hwidth, ?_, ?_, ?_⟩, ?_⟩
    · exact hread 0 (by decide)
    · exact hread 1 (by decide)
    · exact hread 2 (by decide)
    · exact perform_write_words framed bare hsame hwidth hnone

/-- Twenty-four bytes behind a prefix of four cells and behind none: the count in the header is the
second word, and a header with its third word set is written as three words. -/
theorem header_as_words_four_cells :
    ∃ framed bare, (ofBytes (List.replicate 24 7) { prefixCells := 4 }).value = .ok framed ∧
      (ofBytes (List.replicate 24 7) .bare).value = .ok bare ∧
      (∃ h : Header, (framed.perform .readHeader).2.value = .ok (.header h) ∧
        (bare.perform (.read .uint32 1)).2.value = .ok (.value .uint32 h.cellCount)) ∧
      (framed.perform (.writeHeader ⟨1, 2, 3⟩)).1.bytes =
        (bare.perform (.writeBatch .uint32 0 [1, 2, 3])).1.bytes := by
  obtain ⟨hmade, hagree⟩ :=
    header_as_words (List.replicate 24 7) { prefixCells := 4 } (by decide) (by decide) (by decide)
  obtain ⟨framed, bare, hframed, hbare⟩ := hmade (by decide)
  obtain ⟨⟨h, hread, -, hcount, -⟩, hwrite⟩ := hagree framed bare hframed hbare
  exact ⟨framed, bare, hframed, hbare, ⟨h, hread, hcount⟩, (hwrite ⟨1, 2, 3⟩).2.2⟩

end Memory

end CellMemory
