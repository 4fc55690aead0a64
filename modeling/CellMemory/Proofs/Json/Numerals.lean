import CellMemory.Proofs.Json.Tokens
import CellMemory.Proofs.Numeral

/-! # Plain numerals in written values

* `Json.numeral`: a natural number written with its decimal digits and nothing else.
* `Json.written_numeral`: its digits are a text of it.
* `Json.Written.eq_numeral`: in a written value, nothing else counts as that natural number, for the
  grammar has no leading zeros.
* `Json.Written.of_mem_array`, `Json.Written.of_mem_object`: what stands in a written array or
  object is written too.
-/

namespace CellMemory.Json
set_option autoImplicit false

/-! ## Numerals -/

/-- The number `n` without sign, fraction, exponent or leading zero. -/
def numeral (n : Nat) : Value :=
  .number { negative := false, integer := Nat.toDigits 10 n, fraction := none, exponent := none }

theorem natural?_numeral (n : Nat) : (numeral n).natural? = some n := by
  simp only [numeral, Value.natural?, Number.natural?, and_self, if_true,
    Nat.ofDigitChars_ten_toDigits]

theorem digitChar_of_isDigit {d : Char} (h : d.isDigit = true) :
    d.toNat - '0'.toNat < 10 ∧ Nat.digitChar (d.toNat - '0'.toNat) = d := by
  have hbounds : '0' ≤ d ∧ d ≤ '9' := by simpa [Char.isDigit, Char.le_def] using h
  have hall : ∀ n ≤ 9, Nat.digitChar n = .ofNat ('0'.toNat + n) := by decide
  obtain ⟨n, hn, rfl, hsub⟩ := eq_ofNat_of_between hbounds
  rw [hsub]
  exact ⟨Nat.lt_succ_of_le hn, hall n hn⟩

/-- Further digits continue the numeral of what was read before. -/
theorem toDigits_ofDigitChars_append {ds : List Char} (hds : ∀ d ∈ ds, d.isDigit = true) {n : Nat}
    (hn : 0 < n) : Nat.toDigits 10 (Nat.ofDigitChars 10 ds n) = Nat.toDigits 10 n ++ ds := by
  induction ds generalizing n with
  | nil => rw [Nat.ofDigitChars_nil, List.append_nil]
  | cons d ds ih =>
    obtain ⟨hlt, hd⟩ := digitChar_of_isDigit (hds d List.mem_cons_self)
    rw [Nat.ofDigitChars_cons, ih (fun d hd => hds d (List.mem_cons_of_mem _ hd)) (by omega),
      ← Nat.toDigits_append_toDigits (by decide) hn hlt, Nat.toDigits_of_lt_base hlt, hd,
      List.append_assoc, List.singleton_append]

theorem IntegerText.toDigits_ofDigitChars {ds : List Char} (h : IntegerText ds) :
    Nat.toDigits 10 (Nat.ofDigitChars 10 ds 0) = ds := by
  obtain ⟨hdigits, hzero⟩ := h
  obtain ⟨d, t, rfl, hd⟩ := hdigits.exists_cons
  obtain ⟨hlt, hchar⟩ := digitChar_of_isDigit hd
  by_cases hpos : 0 < d.toNat - '0'.toNat
  · rw [Nat.ofDigitChars_cons, Nat.mul_zero, Nat.zero_add,
      toDigits_ofDigitChars_append (fun c hc => hdigits.2 c (List.mem_cons_of_mem _ hc)) hpos,
      Nat.toDigits_of_lt_base hlt, hchar, List.singleton_append]
  · have hd0 : d = '0' := by
      rw [← hchar, Nat.eq_zero_of_not_pos hpos]
      rfl
    rw [hzero (by rw [hd0]; rfl)]
    rfl

/-- By induction on the digits: the first one is that of `n / 10`, and a zero there would have stood
alone, which it does for zero only. -/
theorem integerText_toDigits (n : Nat) : IntegerText (Nat.toDigits 10 n) := by
  refine ⟨⟨Nat.toDigits_ne_nil, Numeral.isDigit_toDigits n⟩, ?_⟩
  induction n using Nat.strongRecOn with
  | ind n ih =>
    by_cases hn : n < 10
    · rw [Nat.toDigits_of_lt_base hn]
      intro hhead
      exact congrArg (fun d => [d]) (Option.some.inj hhead)
    · obtain ⟨d, ds, hds⟩ := List.exists_cons_of_ne_nil (Nat.toDigits_ne_nil (n := n / 10) (b := 10))
      have hfront := ih (n / 10) (by omega)
      rw [hds] at hfront
      rw [Nat.toDigits_of_base_le (by decide) (Nat.not_lt.1 hn), hds]
      intro hhead
      have hzero : n / 10 = 0 := Numeral.decimal_inj (hds.trans (hfront hhead))
      omega

theorem written_numeral (n : Nat) : Written (.value (numeral n)) (Nat.toDigits 10 n) := by
  have htext := @NumberText.mk false _ _ _ _ _ (integerText_toDigits n) .absent .absent
  simp only [minus, List.nil_append, List.append_nil] at htext
  exact .number htext

variable {v : Value} {t : List Char} {n : Nat}

theorem Written.eq_numeral (h : Written (.value v) t) (hn : v.natural? = some n) :
    v = numeral n := by
  cases h with
  | number h =>
    cases h with
    | mk hi _ _ =>
      simp only [Value.natural?, Number.natural?] at hn
      split at hn
      · next hplain =>
        obtain ⟨rfl, rfl, rfl⟩ := hplain
        rw [numeral, ← Option.some.inj hn, hi.toDigits_ofDigitChars]
      · cases hn
  | _ => cases hn

/-! ## Parts of written values -/

theorem Written.of_element (h : Written (.element v) t) : ∃ s, Written (.value v) s := by
  cases h with
  | element _ h _ => exact ⟨_, h⟩

theorem Written.of_member {key : List Piece} (h : Written (.member key v) t) :
    ∃ s, Written (.value v) s := by
  cases h with
  | member _ _ _ h => exact h.of_element

/-- The values that are listed in a phrase. -/
def Phrase.listed : Phrase → List Value
  | .items vs => vs
  | .members ms => ms.map Prod.snd
  | _ => []

theorem Written.of_mem_listed {p : Phrase} (h : Written p t) :
    ∀ v ∈ p.listed, ∃ s, Written (.value v) s := by
  induction h with
  | lastItem h _ => exact List.forall_mem_singleton.mpr h.of_element
  | nextItem h _ _ ih => exact List.forall_mem_cons.mpr ⟨h.of_element, ih⟩
  | lastMember h _ => exact List.forall_mem_singleton.mpr h.of_member
  | nextMember h _ _ ih => exact List.forall_mem_cons.mpr ⟨h.of_member, ih⟩
  | _ => exact List.forall_mem_nil _

theorem Written.of_mem_array {vs : List Value} (h : Written (.value (.array vs)) t) :
    ∀ v ∈ vs, ∃ s, Written (.value v) s := by
  cases h with
  | emptyArray => exact List.forall_mem_nil _
  | array h => exact h.of_mem_listed

theorem Written.of_mem_object {ms : List (List Piece × Value)}
    (h : Written (.value (.object ms)) t) : ∀ v ∈ ms.map Prod.snd, ∃ s, Written (.value v) s := by
  cases h with
  | emptyObject => exact List.forall_mem_nil _
  | object h => exact h.of_mem_listed

end CellMemory.Json
