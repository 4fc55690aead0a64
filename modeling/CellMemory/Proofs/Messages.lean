import CellMemory.Fault
import CellMemory.Proofs.Numeral

/-! # Messages tell faults apart

A message shows which fault it is about, and every number and text of it. Two of them hold text that
may be anything, a message of another fault included, so a message is read from the side where nothing
of that kind stands: from its first character on, and the text of a codec from its end.

* `Fault.opening`: the first character of a message. No two sorts of fault share it.
* `Fault.outOfBounds_of_message` and its like, one for each sort of fault: what is read off behind it.
* `Fault.message_eq_iff`: all of it together.
-/

namespace CellMemory.Fault
set_option autoImplicit false

/-! ## The sort of a fault -/

/-- The character that a message starts with, where `'0'` stands for any digit. -/
def opening : Fault → Char
  | outOfBounds .. => 'c'
  | oversizedCell _ => 'r'
  | viewNotSupported _ => 'v'
  | lengthMismatch .. => 'l'
  | invalidBufferLength .. => 'i'
  | headerUnavailable _ => 'p'
  | headerOverflow _ => '0'
  | headerCodec .. => 'h'

theorem head_message (f : Fault) :
    (f.message.toList.head?.map fun c => if c.isDigit then '0' else c) = some f.opening := by
  unfold message
  cases f with
  | headerOverflow n =>
    obtain ⟨d, ds, hds⟩ := List.exists_cons_of_ne_nil (Nat.toDigits_ne_nil (n := n) (b := 10))
    have hd := Numeral.isDigit_toDigits n d (by rw [hds]; exact List.mem_cons_self)
    simp only [String.toList_append, toString, Nat.toList_repr, hds, List.cons_append,
      List.head?_cons, Option.map_some, if_pos hd]
    rfl
  | _ =>
    simp only [String.toList_append, toString, List.append_assoc]
    rfl

theorem opening_congr {a b : Fault} (h : a.message = b.message) : a.opening = b.opening := by
  have ha := a.head_message
  rw [h, b.head_message] at ha
  exact (Option.some.inj ha).symm

/-! ## What a message shows -/

section Data
variable {a b c a' b' c' : Nat} {s s' : String}

theorem outOfBounds_of_message
    (h : (outOfBounds a b c).message.toList = (outOfBounds a' b' c').message.toList) :
    a = a' ∧ b = b' ∧ c = c' := by
  unfold message at h
  simp only [String.toList_append, toString, Nat.toList_repr, List.append_assoc] at h
  obtain ⟨hindex, hrest⟩ :=
    Numeral.decimal_append_inj (by simp) (by simp) (List.append_cancel_left h)
  obtain ⟨hcount, hrest⟩ :=
    Numeral.decimal_append_inj (by simp) (by simp) (List.append_cancel_left hrest)
  obtain ⟨hcells, -⟩ :=
    Numeral.decimal_append_inj (by simp) (by simp) (List.append_cancel_left hrest)
  exact ⟨hindex, hcount, hcells⟩

theorem oversizedCell_of_message
    (h : (oversizedCell a).message.toList = (oversizedCell a').message.toList) : a = a' := by
  unfold message at h
  simp only [String.toList_append, toString, Nat.toList_repr, List.append_assoc] at h
  exact (Numeral.decimal_append_inj (by simp) (by simp) (List.append_cancel_left h)).1

theorem viewNotSupported_of_message
    (h : (viewNotSupported s).message.toList = (viewNotSupported s').message.toList) : s = s' := by
  unfold message at h
  simp only [String.toList_append, toString] at h
  exact String.toList_inj.1 (List.append_cancel_left h)

theorem lengthMismatch_of_message
    (h : (lengthMismatch a b).message.toList = (lengthMismatch a' b').message.toList) :
    a = a' ∧ b = b' := by
  unfold message at h
  simp only [String.toList_append, toString, Nat.toList_repr, List.append_assoc] at h
  obtain ⟨hexpected, hrest⟩ :=
    Numeral.decimal_append_inj (by simp) (by simp) (List.append_cancel_left h)
  exact ⟨hexpected, Numeral.decimal_inj (List.append_cancel_left hrest)⟩

theorem invalidBufferLength_of_message
    (h : (invalidBufferLength a b).message.toList = (invalidBufferLength a' b').message.toList) :
    a = a' ∧ b = b' := by
  unfold message at h
  simp only [String.toList_append, toString, Nat.toList_repr, List.append_assoc] at h
  obtain ⟨hlength, hrest⟩ :=
    Numeral.decimal_append_inj (by simp) (by simp) (List.append_cancel_left h)
  obtain ⟨hbytes, -⟩ :=
    Numeral.decimal_append_inj (by simp) (by simp) (List.append_cancel_left hrest)
  exact ⟨hlength, hbytes⟩

theorem headerUnavailable_of_message
    (h : (headerUnavailable a).message.toList = (headerUnavailable a').message.toList) : a = a' := by
  unfold message at h
  simp only [String.toList_append, toString, Nat.toList_repr, List.append_assoc] at h
  exact (Numeral.decimal_append_inj (by simp) (by simp) (List.append_cancel_left h)).1

theorem headerOverflow_of_message
    (h : (headerOverflow a).message.toList = (headerOverflow a').message.toList) : a = a' := by
  unfold message at h
  simp only [String.toList_append, toString, Nat.toList_repr] at h
  exact (Numeral.decimal_append_inj (by simp) (by simp) h).1

/-- The text may itself end like a message about a codec, so its end is found from behind. -/
theorem headerCodec_of_message
    (h : (headerCodec s a).message.toList = (headerCodec s' a').message.toList) :
    s = s' ∧ a = a' := by
  unfold message at h
  simp only [String.toList_append, toString, Numeral.hex, String.toList_ofList,
    List.append_assoc] at h
  obtain ⟨htext, hposition⟩ :=
    Numeral.append_hex_inj ⟨" at 0".toList, 'x', rfl, by decide⟩ (List.append_cancel_left h)
  exact ⟨String.toList_inj.1 htext, hposition⟩

end Data

/-- Faults with the same message are the same, whatever numbers and texts they hold. -/
theorem message_eq_iff (f g : Fault) : f.message = g.message ↔ f = g := by
  refine ⟨?_, congrArg message⟩
  intro h
  have hopening := opening_congr h
  have htext := congrArg String.toList h
  cases f with
  | outOfBounds index count cellCount =>
    cases g with
    | outOfBounds _ _ _ =>
      obtain ⟨rfl, rfl, rfl⟩ := outOfBounds_of_message htext
      rfl
    | _ => cases hopening
  | oversizedCell length =>
    cases g with
    | oversizedCell _ => rw [oversizedCell_of_message htext]
    | _ => cases hopening
  | viewNotSupported reason =>
    cases g with
    | viewNotSupported _ => rw [viewNotSupported_of_message htext]
    | _ => cases hopening
  | lengthMismatch expected actual =>
    cases g with
    | lengthMismatch _ _ =>
      obtain ⟨rfl, rfl⟩ := lengthMismatch_of_message htext
      rfl
    | _ => cases hopening
  | invalidBufferLength length prefixBytes =>
    cases g with
    | invalidBufferLength _ _ =>
      obtain ⟨rfl, rfl⟩ := invalidBufferLength_of_message htext
      rfl
    | _ => cases hopening
  | headerUnavailable prefixCells =>
    cases g with
    | headerUnavailable _ => rw [headerUnavailable_of_message htext]
    | _ => cases hopening
  | headerOverflow cellCount =>
    cases g with
    | headerOverflow _ => rw [headerOverflow_of_message htext]
    | _ => cases hopening
  | headerCodec text position =>
    cases g with
    | headerCodec _ _ =>
      obtain ⟨rfl, rfl⟩ := headerCodec_of_message htext
      rfl
    | _ => cases hopening

end CellMemory.Fault
