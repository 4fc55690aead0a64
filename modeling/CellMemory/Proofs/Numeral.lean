import CellMemory.Numeral

/-! # Numerals in texts

A number in a text can be read off it: hexadecimal digits give the number back, and where they or
decimal digits stand beside other characters, it is clear where they begin and end.

* `Numeral.ofHex`: the number that hexadecimal digits stand for.
* `Numeral.mem_toDigits_hex`, `Numeral.ofHex_toDigits`: the digits of a number, and what they stand for.
* `Numeral.length_wordDigits`, `Numeral.mem_wordDigits`, `Numeral.ofHex_wordDigits`: the same for the
  eight digits of a word.
* `Numeral.decimal_append_inj`, `Numeral.append_hex_inj`: a decimal number at the start of a text and a
  hexadecimal one at its end.
-/

namespace CellMemory.Numeral
set_option autoImplicit false

/-! ## Hexadecimal digits -/

/-- The lowercase hexadecimal digits, each at the place of its value. -/
def hexDigits : List Char := "0123456789abcdef".toList

/-- The number that hexadecimal digits stand for, the most significant one first. -/
def ofHex (ds : List Char) : Nat := ds.foldl (fun n d => 16 * n + hexDigits.idxOf d) 0

theorem ofHex_concat (ds : List Char) (d : Char) :
    ofHex (ds ++ [d]) = 16 * ofHex ds + hexDigits.idxOf d := List.foldl_append

theorem ofHex_zeros_append (n : Nat) (ds : List Char) :
    ofHex (List.replicate n '0' ++ ds) = ofHex ds := by
  induction n with
  | zero => rfl
  | succ n ih => exact ih

theorem digitChar_hex (n : Nat) (h : n < 16) :
    Nat.digitChar n ∈ hexDigits ∧ hexDigits.idxOf (Nat.digitChar n) = n := by
  have hall : ∀ n < 16, Nat.digitChar n ∈ hexDigits ∧ hexDigits.idxOf (Nat.digitChar n) = n := by
    decide
  exact hall n h

theorem mem_toDigits_hex (n : Nat) : ∀ d ∈ Nat.toDigits 16 n, d ∈ hexDigits := by
  induction n using Nat.strongRecOn with
  | ind n ih =>
    by_cases h : n < 16
    · rw [Nat.toDigits_of_lt_base h, List.forall_mem_singleton]
      exact (digitChar_hex n h).1
    · rw [Nat.toDigits_of_base_le (by decide) (Nat.not_lt.1 h), List.forall_mem_append,
        List.forall_mem_singleton]
      exact ⟨ih (n / 16) (by omega), (digitChar_hex (n % 16) (Nat.mod_lt n (by decide))).1⟩

theorem ofHex_toDigits (n : Nat) : ofHex (Nat.toDigits 16 n) = n := by
  induction n using Nat.strongRecOn with
  | ind n ih =>
    by_cases h : n < 16
    · have hone := ofHex_concat [] (Nat.digitChar n)
      rw [(digitChar_hex n h).2] at hone
      rw [Nat.toDigits_of_lt_base h]
      exact hone.trans (Nat.zero_add n)
    · rw [Nat.toDigits_of_base_le (by decide) (Nat.not_lt.1 h), ofHex_concat,
        ih (n / 16) (by omega), (digitChar_hex (n % 16) (Nat.mod_lt n (by decide))).2,
        Nat.div_add_mod]

/-! ## The digits of a word -/

/-- The characters of `hexWord`. -/
def wordDigits (w : UInt32) : List Char := (Nat.toDigits 16 w.toNat).leftpad 8 '0'

theorem length_wordDigits (w : UInt32) : (wordDigits w).length = 8 := by
  have hle : (Nat.toDigits 16 w.toNat).length ≤ 8 :=
    (Nat.length_toDigits_le_iff (by decide) (by decide)).2 w.toNat_lt
  rw [wordDigits, List.length_leftpad, Nat.max_eq_left hle]

theorem mem_wordDigits (w : UInt32) : ∀ d ∈ wordDigits w, d ∈ hexDigits := by
  rw [wordDigits, List.leftpad, List.forall_mem_append]
  refine ⟨?_, mem_toDigits_hex w.toNat⟩
  intro d hd
  rw [(List.mem_replicate.1 hd).2]
  decide

theorem ofHex_wordDigits (w : UInt32) : ofHex (wordDigits w) = w.toNat := by
  rw [wordDigits, List.leftpad, ofHex_zeros_append, ofHex_toDigits]

/-! ## Numbers beside other characters -/

theorem isDigit_toDigits (n : Nat) : ∀ c ∈ Nat.toDigits 10 n, c.isDigit = true :=
  fun _ hc => Nat.isDigit_of_mem_toDigits (by decide) (by decide) hc

theorem decimal_inj {a b : Nat} (h : Nat.toDigits 10 a = Nat.toDigits 10 b) : a = b := by
  have hvalue := congrArg (Nat.ofDigitChars 10 · 0) h
  simp only [Nat.ofDigitChars_ten_toDigits] at hvalue
  exact hvalue

theorem hex_inj {a b : Nat} (h : Nat.toDigits 16 a = Nat.toDigits 16 b) : a = b := by
  rw [← ofHex_toDigits a, h, ofHex_toDigits]

/-- A text is cut where a character of some sort is first missing. -/
theorem append_inj_of_all {p : Char → Bool} {xs ys s t : List Char}
    (hxs : ∀ c ∈ xs, p c = true) (hys : ∀ c ∈ ys, p c = true) (hs : ∀ c ∈ s.head?, p c = false)
    (ht : ∀ c ∈ t.head?, p c = false) (h : xs ++ s = ys ++ t) : xs = ys ∧ s = t := by
  have hcut (zs r : List Char) (hzs : ∀ c ∈ zs, p c = true) (hr : ∀ c ∈ r.head?, p c = false) :
      (zs ++ r).takeWhile p = zs := by
    rw [List.takeWhile_append_of_pos hzs]
    cases r with
    | nil => exact List.append_nil zs
    | cons c r => rw [List.takeWhile_cons_of_neg (by simp [hr c rfl]), List.append_nil]
  have hfront := congrArg (List.takeWhile p) h
  rw [hcut xs s hxs hs, hcut ys t hys ht] at hfront
  subst hfront
  exact ⟨rfl, List.append_cancel_left h⟩

theorem decimal_append_inj {a b : Nat} {s t : List Char} (hs : ∀ c ∈ s.head?, c.isDigit = false)
    (ht : ∀ c ∈ t.head?, c.isDigit = false) (h : Nat.toDigits 10 a ++ s = Nat.toDigits 10 b ++ t) :
    a = b ∧ s = t := by
  obtain ⟨hnumber, hrest⟩ := append_inj_of_all (isDigit_toDigits a) (isDigit_toDigits b) hs ht h
  exact ⟨decimal_inj hnumber, hrest⟩

/-- The text before the number may be anything, for the last character that is no hexadecimal digit
belongs to what stands between them. -/
theorem append_hex_inj {a b : Nat} {s t mark : List Char}
    (hmark : ∃ front last, mark = front ++ [last] ∧ last ∉ hexDigits)
    (h : s ++ (mark ++ Nat.toDigits 16 a) = t ++ (mark ++ Nat.toDigits 16 b)) : s = t ∧ a = b := by
  obtain ⟨front, last, rfl, hlast⟩ := hmark
  have hdigits (n : Nat) : ∀ c ∈ (Nat.toDigits 16 n).reverse, hexDigits.contains c = true := by
    intro c hc
    exact List.contains_iff_mem.2 (mem_toDigits_hex n c (List.mem_reverse.1 hc))
  have hstop (r : List Char) : ∀ c ∈ (last :: r).head?, hexDigits.contains c = false := by
    rintro c ⟨⟩
    simp [hlast]
  have hreverse := congrArg List.reverse h
  simp only [List.reverse_append, List.reverse_cons, List.append_assoc, List.singleton_append]
    at hreverse
  obtain ⟨hnumber, hrest⟩ :=
    append_inj_of_all (hdigits a) (hdigits b) (hstop _) (hstop _) hreverse
  have htext := List.append_cancel_left (List.cons.inj hrest).2
  exact ⟨List.reverse_inj.1 htext, hex_inj (List.reverse_inj.1 hnumber)⟩

end CellMemory.Numeral
