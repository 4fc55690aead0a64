import CellMemory.Program
import CellMemory.Proofs.Origin
import CellMemory.Proofs.Run

/-! # There and back as bytes

A memory travels as the bytes of its buffer, and whoever knows the layout gets the same memory back.
So the bytes and the layout are all that two memories can differ in.

* `Memory.exists_ofBytes_iff`: which bytes can be taken over as a memory.
* `Memory.cellCount_ofBytes`, `Memory.perform_bytes`, `Memory.perform_dataBytes_eq`: what is found in
  one that was taken over.
* `Memory.ofBytes_bytes`, `Memory.eq_iff_bytes`: the way back, and what follows for equality.
* `Slots.transport_round_trip`: the same for the steps of programs.
-/

namespace CellMemory
set_option autoImplicit false

namespace Memory

/-! ## Bytes taken over -/

/-- The number of data cells is what the prefix leaves of the whole cells. With fewer bytes than all
memories have, they never become too many. -/
theorem exists_ofBytes_iff (bytes : List UInt8) (l : Layout)
    (h : bytes.length < cellLimit * Cell.size) :
    (∃ m, (ofBytes bytes l).value = .ok m) ↔
      bytes.length % Cell.size = 0 ∧ Cell.size * l.prefixCells ≤ bytes.length := by
  constructor
  · rintro ⟨m, hm⟩
    obtain ⟨hlayout, hbytes⟩ := (ofBytes_eq_ok bytes l m).1 hm
    have hlength := m.length_bytes
    rw [hbytes, prefixCells, hlayout, Nat.mul_comm] at hlength
    rw [hlength]
    exact ⟨Nat.mul_mod_right _ _, Nat.mul_le_mul_left _ (Nat.le_add_right _ _)⟩
  · rintro ⟨hwhole, hwidth⟩
    have hlength : bytes.length =
        (l.prefixCells + (bytes.length / Cell.size - l.prefixCells)) * Cell.size := by
      simp only [Cell.size] at hwhole hwidth ⊢
      omega
    have hlt : l.prefixCells + (bytes.length / Cell.size - l.prefixCells) < cellLimit := by
      rw [hlength] at h
      exact Nat.lt_of_mul_lt_mul_right h
    obtain ⟨m, hm, -⟩ := exists_ofBytes bytes l _ hlength hlt
    exact ⟨m, hm⟩

theorem cellCount_ofBytes (bytes : List UInt8) (l : Layout) (m : Memory)
    (h : (ofBytes bytes l).value = .ok m) :
    m.cellCount = bytes.length / Cell.size - l.prefixCells :=
  Origin.cellCount_of_make (.adopted bytes l) m h

variable (m : Memory)

theorem perform_bytes : (m.perform .bytes).2.value = .ok (.bytes m.bytes) := by
  rw [m.perform_accepted .bytes rfl]
  rfl

theorem perform_dataBytes_eq :
    (m.perform .dataBytes).2.value =
      .ok (.bytes (m.bytes.drop (Cell.size * m.layout.prefixCells))) := by
  rw [m.perform_accepted .dataBytes rfl, Nat.mul_comm]
  rfl

/-! ## And back -/

theorem ofBytes_bytes : (ofBytes m.bytes m.layout).value = .ok m :=
  (ofBytes_eq_ok m.bytes m.layout m).2 ⟨rfl, rfl⟩

theorem eq_iff_bytes (m' : Memory) : m = m' ↔ m.layout = m'.layout ∧ m.bytes = m'.bytes := by
  constructor
  · rintro rfl
    exact ⟨rfl, rfl⟩
  · rintro ⟨hlayout, hbytes⟩
    exact m.eq_of_bytes m' hlayout hbytes

end Memory

/-! ## Programs -/

namespace Slots

variable (slots : Slots)

theorem step_release (slot : String) (m : Memory) (h : slots[slot]? = some m) :
    (slots.step (.release slot)).2.value = .ok (.bytes m.bytes) := by
  simp only [step, h]

theorem step_compare (x y : String) (a b : Memory) (hx : slots[x]? = some a)
    (hy : slots[y]? = some b) :
    (slots.step (.compare x y)).2.value = .ok (.verdict (decide (a = b))) := by
  simp only [step, hx, hy]

/-- Bytes are taken over as a memory exactly when they are whole cells and hold the prefix, however
many bytes the prefix has. The memory then has as many data cells as the prefix leaves, and shows and
gives up exactly these bytes. Whatever memory a program keeps, the bytes it is given up for make the
same memory again under its layout. Hence two memories are found equal exactly when their layouts and
their bytes are. -/
theorem transport_round_trip :
    (∀ (bytes : List UInt8) (l : Layout), bytes.length < Memory.cellLimit * Cell.size →
      ((∃ m, (Memory.ofBytes bytes l).value = .ok m) ↔
        bytes.length % 4 = 0 ∧ 4 * l.prefixCells ≤ bytes.length)) ∧
    (∀ (bytes : List UInt8) (l : Layout) (m : Memory), (Memory.ofBytes bytes l).value = .ok m →
      m.cellCount = bytes.length / 4 - l.prefixCells ∧
        (m.perform .bytes).2.value = .ok (.bytes bytes) ∧
        (m.perform .dataBytes).2.value = .ok (.bytes (bytes.drop (4 * l.prefixCells))) ∧
        ∀ (slots : Slots) (slot : String), slots[slot]? = some m →
          (slots.step (.release slot)).2.value = .ok (.bytes bytes)) ∧
    (∀ (slots : Slots) (slot : String) (m : Memory), slots[slot]? = some m →
      ∃ bytes, (slots.step (.release slot)).2.value = .ok (.bytes bytes) ∧
        (Memory.ofBytes bytes m.layout).value = .ok m) ∧
    ∀ (slots : Slots) (x y : String) (a b : Memory), slots[x]? = some a → slots[y]? = some b →
      (slots.step (.compare x y)).2.value =
        .ok (.verdict (decide (a.layout = b.layout ∧ a.bytes = b.bytes))) := by
  refine ⟨Memory.exists_ofBytes_iff, ?_, ?_, ?_⟩
  · intro bytes l m h
    obtain ⟨hlayout, hbytes⟩ := (Memory.ofBytes_eq_ok bytes l m).1 h
    refine ⟨Memory.cellCount_ofBytes bytes l m h, ?_, ?_, ?_⟩
    · rw [m.perform_bytes, hbytes]
    · rw [m.perform_dataBytes_eq, hbytes, hlayout]
      rfl
    · intro slots slot hslot
      rw [slots.step_release slot m hslot, hbytes]
  · intro slots slot m hslot
    exact ⟨m.bytes, slots.step_release slot m hslot, m.ofBytes_bytes⟩
  · intro slots x y a b hx hy
    rw [slots.step_compare x y a b hx hy, decide_eq_decide.2 (a.eq_iff_bytes b)]

/-- A header and two data cells taken over under the usual layout, given up again, and compared. -/
theorem transport_round_trip_twenty_bytes :
    let bytes : List UInt8 := [9, 0, 0, 0, 2, 0, 0, 0, 0, 0, 0, 0, 42, 0, 0, 0, 255, 255, 255, 255]
    ∃ m, (Memory.ofBytes bytes default).value = .ok m ∧ m.cellCount = 2 ∧
      let slots : Slots := (∅ : Slots).insert "m" m
      (slots.step (.release "m")).2.value = .ok (.bytes bytes) ∧
        (∃ bytes', (slots.step (.release "m")).2.value = .ok (.bytes bytes') ∧
          (Memory.ofBytes bytes' m.layout).value = .ok m) ∧
        (slots.step (.compare "m" "m")).2.value = .ok (.verdict true) := by
  intro bytes
  obtain ⟨hmade, htaken, hback, hequal⟩ := transport_round_trip
  obtain ⟨m, hm⟩ := (hmade bytes default (by decide)).2 (by decide)
  have hslot : ((∅ : Slots).insert "m" m)["m"]? = some m := Std.HashMap.getElem?_insert_self
  obtain ⟨hcount, -, -, hrelease⟩ := htaken bytes default m hm
  have hcompare := hequal _ "m" "m" m m hslot hslot
  rw [decide_eq_true ⟨rfl, rfl⟩] at hcompare
  exact ⟨m, hm, hcount.trans (by decide), hrelease _ "m" hslot, hback _ "m" m hslot, hcompare⟩

end Slots

end CellMemory
