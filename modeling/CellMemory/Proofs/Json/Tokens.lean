import CellMemory.Json.Reader
import CellMemory.Proofs.Json.Grammar

/-! # The tokens of the reader

Each token reader takes a text of its token from the front, and nothing else.

* `digits_sound`, `number_sound`, `string_sound`, `keyword_sound`: what was taken is a text of the
  grammar, and the rest follows it.
* `digits_append`, `number_append`, `string_append`, `keyword_append`: a text of the grammar is
  taken from the front of any text in which it is not continued. For a number, `Ends` says so; a
  string ends with its quote.
-/

namespace CellMemory.Json
set_option autoImplicit false

variable {s rest : List Char}

/-- A reader that only wraps what another one takes leaves the same rest. -/
theorem of_map_eq_some {α β : Type} {f : α → β} {taken : Option (α × List Char)} {b : β}
    (h : taken.map (fun (a, rest) => (f a, rest)) = some (b, rest)) :
    ∃ a, taken = some (a, rest) ∧ f a = b := by
  obtain ⟨⟨a, r⟩, ha, he⟩ := Option.map_eq_some_iff.mp h
  obtain ⟨rfl, rfl⟩ := Prod.mk.inj he
  exact ⟨a, ha, rfl⟩

/-! ## Blanks -/

theorem isBlank_iff {c : Char} : isBlank c = true ↔ c ∈ blanks := by
  simp [isBlank, blanks, or_assoc]

theorem blank_iff_all : Blank s ↔ ∀ c ∈ s, isBlank c = true := by
  simp only [Blank, isBlank_iff]

theorem skipBlanks_append {w : List Char} (hw : Blank w) (s : List Char) :
    skipBlanks (w ++ s) = skipBlanks s :=
  List.dropWhile_append_of_pos (blank_iff_all.mp hw)

theorem exists_blank_append {t : List Char} (h : skipBlanks s = t) : ∃ w, Blank w ∧ s = w ++ t := by
  refine ⟨s.takeWhile isBlank, ?_, ?_⟩
  · exact blank_iff_all.mpr fun _ => List.all_eq_true.mp List.all_takeWhile _
  · rw [← h]
    exact List.takeWhile_append_dropWhile.symm

theorem skipBlanks_cons {c : Char} (hc : isBlank c = false) (s : List Char) :
    skipBlanks (c :: s) = c :: s := by
  rw [skipBlanks, List.dropWhile_cons_of_neg (by rw [hc]; exact Bool.false_ne_true)]

/-! ## Numbers -/

theorem Digits.exists_cons {ds : List Char} (h : Digits ds) :
    ∃ d t, ds = d :: t ∧ d.isDigit = true := by
  obtain ⟨hne, hall⟩ := h
  cases ds with
  | nil => exact absurd rfl hne
  | cons d t => exact ⟨d, t, rfl, hall d List.mem_cons_self⟩

theorem digits_sound {ds : List Char} (h : digits s = some (ds, rest)) :
    Digits ds ∧ s = ds ++ rest := by
  rw [digits] at h
  split at h
  · cases h
  · next hne =>
    obtain ⟨rfl, rfl⟩ := Prod.mk.inj (Option.some.inj h)
    exact ⟨⟨hne, fun _ => List.all_eq_true.mp List.all_takeWhile _⟩,
      List.takeWhile_append_dropWhile.symm⟩

theorem digits_append {ds : List Char} (hds : Digits ds)
    (hrest : ∀ c ∈ rest.head?, c.isDigit = false) : digits (ds ++ rest) = some (ds, rest) := by
  obtain ⟨hne, hall⟩ := hds
  have hstop : rest.takeWhile Char.isDigit = [] ∧ rest.dropWhile Char.isDigit = rest := by
    cases rest with
    | nil => exact ⟨rfl, rfl⟩
    | cons c rest =>
      have hc : ¬c.isDigit = true := by simp [hrest c rfl]
      exact ⟨List.takeWhile_cons_of_neg hc, List.dropWhile_cons_of_neg hc⟩
  rw [digits, List.takeWhile_append_of_pos hall, List.dropWhile_append_of_pos hall, hstop.1,
    hstop.2, List.append_nil]
  split
  · exact absurd rfl hne
  · rfl

theorem integerPart_sound {i : List Char} (h : integerPart s = some (i, rest)) :
    IntegerText i ∧ s = i ++ rest := by
  unfold integerPart at h
  split at h
  · obtain ⟨rfl, rfl⟩ := Prod.mk.inj (Option.some.inj h)
    exact ⟨⟨⟨by decide, by simp⟩, fun _ => rfl⟩, rfl⟩
  · next hzero =>
    obtain ⟨hi, rfl⟩ := digits_sound h
    refine ⟨⟨hi, fun hhead => ?_⟩, rfl⟩
    obtain ⟨t, rfl⟩ := List.head?_eq_some_iff.mp hhead
    exact absurd rfl (hzero _)

theorem integerPart_append {i : List Char} (hi : IntegerText i)
    (hrest : ∀ c ∈ rest.head?, c.isDigit = false) :
    integerPart (i ++ rest) = some (i, rest) := by
  by_cases hzero : i.head? = some '0'
  · rw [hi.2 hzero]
    rfl
  · rw [← digits_append hi.1 hrest]
    obtain ⟨d, t, rfl, -⟩ := hi.1.exists_cons
    unfold integerPart
    -- the reader looks for a zero first, and there is none at the front
    split
    · next h => exact absurd (congrArg some (List.cons.inj h).1) hzero
    · rfl

theorem fractionPart_sound {fraction : Option (List Char)}
    (h : fractionPart s = some (fraction, rest)) :
    ∃ f, FractionText fraction f ∧ s = f ++ rest := by
  unfold fractionPart at h
  split at h
  · obtain ⟨ds, hd, rfl⟩ := of_map_eq_some h
    obtain ⟨hds, rfl⟩ := digits_sound hd
    exact ⟨_, .present hds, rfl⟩
  · obtain ⟨rfl, rfl⟩ := Prod.mk.inj (Option.some.inj h)
    exact ⟨[], .absent, rfl⟩

theorem fractionPart_append {fraction : Option (List Char)} {f : List Char}
    (hf : FractionText fraction f) (hrest : ∀ c ∈ rest.head?, c.isDigit = false ∧ c ≠ '.') :
    fractionPart (f ++ rest) = some (fraction, rest) := by
  cases hf with
  | absent =>
    rw [List.nil_append, fractionPart.eq_def]
    split
    · exact absurd rfl (hrest _ rfl).2
    · rfl
  | present hds =>
    rw [List.cons_append, fractionPart, digits_append hds fun c hc => (hrest c hc).1,
      Option.map_some]

theorem exponentSign_sound (s : List Char) :
    ∃ sign t, exponentSign s = (sign, t) ∧ sign ∈ [[], ['+'], ['-']] ∧ s = sign ++ t := by
  unfold exponentSign
  split
  · exact ⟨_, _, rfl, by decide, rfl⟩
  · exact ⟨_, _, rfl, by decide, rfl⟩
  · exact ⟨_, _, rfl, by decide, rfl⟩

theorem exponentSign_append {sign ds : List Char} (hsign : sign ∈ [[], ['+'], ['-']])
    (hds : Digits ds) : exponentSign (sign ++ (ds ++ rest)) = (sign, ds ++ rest) := by
  obtain ⟨d, t, rfl, hd⟩ := hds.exists_cons
  simp only [List.mem_cons, List.not_mem_nil, or_false] at hsign
  obtain rfl | rfl | rfl := hsign
  · rw [List.nil_append, List.cons_append, exponentSign.eq_def]
    split
    · next h => exact absurd (List.cons.inj h).1 (by rintro rfl; cases hd)
    · next h => exact absurd (List.cons.inj h).1 (by rintro rfl; cases hd)
    · rfl
  · rfl
  · rfl

theorem signedDigits_sound {exponent : Option (List Char)} {e : Char} (he : e ∈ ['e', 'E'])
    (h : signedDigits s = some (exponent, rest)) :
    ∃ x, ExponentText exponent x ∧ e :: s = x ++ rest := by
  obtain ⟨sign, t, hsplit, hsign, rfl⟩ := exponentSign_sound s
  rw [signedDigits, hsplit] at h
  obtain ⟨ds, hd, rfl⟩ := of_map_eq_some (f := fun ds => some (sign ++ ds)) h
  obtain ⟨hds, rfl⟩ := digits_sound hd
  exact ⟨_, .present he hsign hds, by simp⟩

theorem exponentPart_sound {exponent : Option (List Char)}
    (h : exponentPart s = some (exponent, rest)) :
    ∃ x, ExponentText exponent x ∧ s = x ++ rest := by
  unfold exponentPart at h
  split at h
  · exact signedDigits_sound (by decide) h
  · exact signedDigits_sound (by decide) h
  · obtain ⟨rfl, rfl⟩ := Prod.mk.inj (Option.some.inj h)
    exact ⟨[], .absent, rfl⟩

theorem exponentPart_append {exponent : Option (List Char)} {x : List Char}
    (hx : ExponentText exponent x) (hrest : ∀ c ∈ rest.head?, c.isDigit = false ∧ c ∉ ['e', 'E']) :
    exponentPart (x ++ rest) = some (exponent, rest) := by
  cases hx with
  | absent =>
    rw [List.nil_append, exponentPart.eq_def]
    split
    · exact absurd (by decide) (hrest _ rfl).2
    · exact absurd (by decide) (hrest _ rfl).2
    · rfl
  | @present e sign ds he hsign hds =>
    have hd : signedDigits (sign ++ (ds ++ rest)) = some (some (sign ++ ds), rest) := by
      simp only [signedDigits, exponentSign_append hsign hds,
        digits_append hds fun c hc => (hrest c hc).1, Option.map_some]
    rw [List.cons_append, List.append_assoc, ← hd]
    simp only [List.mem_cons, List.not_mem_nil, or_false] at he
    obtain rfl | rfl := he <;> rfl

/-- The characters that end a value and belong to the array or object around it. -/
def closers : List Char := [',', ']', '\x7d']

/-- What may follow a value: the end of the text, a blank or one of the closers. -/
def Ends (rest : List Char) : Prop := ∀ c ∈ rest.head?, c ∈ blanks ++ closers

theorem Ends.not_number (h : Ends rest) :
    ∀ c ∈ rest.head?, c.isDigit = false ∧ c ≠ '.' ∧ c ∉ ['e', 'E'] := by
  intro c hc
  have hall : ∀ c ∈ blanks ++ closers, c.isDigit = false ∧ c ≠ '.' ∧ c ∉ ['e', 'E'] := by
    simp [blanks, closers]
  exact hall c (h c hc)

theorem unsigned_sound {negative : Bool} {n : Number} (h : unsigned negative s = some (n, rest)) :
    ∃ t, NumberText n (minus negative ++ t) ∧ s = t ++ rest := by
  simp only [unsigned, Option.bind_eq_bind, Option.bind_eq_some_iff] at h
  obtain ⟨⟨i, s₁⟩, hi, ⟨fraction, s₂⟩, hf, ⟨exponent, s₃⟩, hx, hn⟩ := h
  obtain ⟨rfl, rfl⟩ := Prod.mk.inj (Option.some.inj hn)
  obtain ⟨integer, rfl⟩ := integerPart_sound hi
  obtain ⟨f, fractional, rfl⟩ := fractionPart_sound hf
  obtain ⟨x, exponential, rfl⟩ := exponentPart_sound hx
  exact ⟨i ++ (f ++ x), .mk integer fractional exponential, by simp only [List.append_assoc]⟩

theorem number_sound {n : Number} (h : number s = some (n, rest)) :
    ∃ t, NumberText n t ∧ s = t ++ rest := by
  unfold number at h
  split at h
  · obtain ⟨t, ht, rfl⟩ := unsigned_sound h
    exact ⟨_, ht, rfl⟩
  · obtain ⟨t, ht, rfl⟩ := unsigned_sound h
    exact ⟨_, ht, rfl⟩

theorem FractionText.head {fraction : Option (List Char)} {f : List Char}
    (h : FractionText fraction f) : ∀ c ∈ (f ++ rest).head?, c = '.' ∨ c ∈ rest.head? := by
  cases h with
  | absent => exact fun c hc => .inr hc
  | present => exact fun c hc => .inl (Option.some.inj hc).symm

theorem ExponentText.head {exponent : Option (List Char)} {x : List Char}
    (h : ExponentText exponent x) : ∀ c ∈ (x ++ rest).head?, c ∈ ['e', 'E'] ∨ c ∈ rest.head? := by
  cases h with
  | absent => exact fun c hc => .inr hc
  | present he => exact fun c hc => .inl (Option.some.inj hc ▸ he)

theorem unsigned_append {negative : Bool} {i f x : List Char}
    {fraction exponent : Option (List Char)} (hi : IntegerText i) (hf : FractionText fraction f)
    (hx : ExponentText exponent x) (hrest : Ends rest) :
    unsigned negative (i ++ (f ++ (x ++ rest))) =
      some ({ negative, integer := i, fraction, exponent }, rest) := by
  have afterExponent := hrest.not_number
  have afterFraction : ∀ c ∈ (x ++ rest).head?, c.isDigit = false ∧ c ≠ '.' := by
    intro c hc
    obtain he | hc := hx.head c hc
    · have hall : ∀ c ∈ ['e', 'E'], c.isDigit = false ∧ c ≠ '.' := by simp
      exact hall c he
    · exact ⟨(afterExponent c hc).1, (afterExponent c hc).2.1⟩
  have afterInteger : ∀ c ∈ (f ++ (x ++ rest)).head?, c.isDigit = false := by
    intro c hc
    obtain rfl | hc := hf.head c hc
    · rfl
    · exact (afterFraction c hc).1
  simp only [unsigned, integerPart_append hi afterInteger, fractionPart_append hf afterFraction,
    exponentPart_append hx fun c hc => ⟨(afterExponent c hc).1, (afterExponent c hc).2.2⟩,
    Option.bind_eq_bind, Option.bind_some]
  rfl

theorem NumberText.exists_cons {n : Number} {t : List Char} (h : NumberText n t) :
    ∃ c t', t = c :: t' ∧ (c = '-' ∨ c.isDigit = true) := by
  cases h with
  | @mk negative i f x _ _ hi _ _ =>
    obtain ⟨d, i, rfl, hd⟩ := hi.1.exists_cons
    cases negative with
    | true => exact ⟨'-', _, rfl, .inl rfl⟩
    | false => exact ⟨d, _, rfl, .inr hd⟩

theorem number_append {n : Number} {t : List Char} (h : NumberText n t) (hrest : Ends rest) :
    number (t ++ rest) = some (n, rest) := by
  cases h with
  | @mk negative i f x fraction exponent hi hf hx =>
    rw [← unsigned_append hi hf hx hrest]
    simp only [List.append_assoc]
    obtain ⟨d, t, rfl, hd⟩ := hi.1.exists_cons
    cases negative with
    | true => rfl
    | false =>
      rw [minus, List.nil_append, List.cons_append, number.eq_def]
      split
      · next h => exact absurd (List.cons.inj h).1 (by rintro rfl; cases hd)
      · rfl

/-! ## Strings -/

theorem toNat_le {a b : Char} (h : a ≤ b) : a.toNat ≤ b.toNat := UInt32.le_iff_toNat_le.mp h

theorem eq_ofNat_of_between {low high c : Char} (hc : low ≤ c ∧ c ≤ high) :
    ∃ n ≤ high.toNat - low.toNat, c = .ofNat (low.toNat + n) ∧ c.toNat - low.toNat = n := by
  have hlow := toNat_le hc.1
  have hhigh := toNat_le hc.2
  refine ⟨c.toNat - low.toNat, by omega, ?_, rfl⟩
  rw [Nat.add_sub_cancel' hlow, Char.ofNat_toNat]

theorem hexDigit?_sound {c : Char} {n : Nat} (h : hexDigit? c = some n) : HexDigit c n := by
  have decimal : ∀ n ≤ 9, HexDigit (.ofNat ('0'.toNat + n)) n :=
    fun n hn => .lower (by revert n; decide)
  have small : ∀ n ≤ 5, HexDigit (.ofNat ('a'.toNat + n)) (n + 10) :=
    fun n hn => .lower (by revert n; decide)
  have capital : ∀ n ≤ 5, HexDigit (.ofNat ('A'.toNat + n)) (n + 10) :=
    fun n hn => .upper (by revert n; decide)
  unfold hexDigit? at h
  split at h
  · next hc =>
    obtain ⟨m, hm, rfl, hsub⟩ := eq_ofNat_of_between hc
    rw [hsub] at h
    exact Option.some.inj h ▸ decimal m hm
  split at h
  · next hc =>
    obtain ⟨m, hm, rfl, hsub⟩ := eq_ofNat_of_between hc
    rw [hsub] at h
    exact Option.some.inj h ▸ small m hm
  split at h
  · next hc =>
    obtain ⟨m, hm, rfl, hsub⟩ := eq_ofNat_of_between hc
    rw [hsub] at h
    exact Option.some.inj h ▸ capital m hm
  · cases h

theorem hexDigit?_of_hexDigit {c : Char} {n : Nat} (h : HexDigit c n) : hexDigit? c = some n := by
  have lower : ∀ i : Fin 16, hexDigit? "0123456789abcdef".toList[i] = some i.val := by decide
  have upper : ∀ i : Fin 16, hexDigit? "0123456789ABCDEF".toList[i] = some i.val := by decide
  cases h with
  | lower h =>
    obtain ⟨hn, rfl⟩ := List.getElem?_eq_some_iff.mp h
    exact lower ⟨n, hn⟩
  | upper h =>
    obtain ⟨hn, rfl⟩ := List.getElem?_eq_some_iff.mp h
    exact upper ⟨n, hn⟩

theorem HexDigit.lt {c : Char} {n : Nat} (h : HexDigit c n) : n < 16 := by
  cases h with
  | lower h => exact (List.getElem?_eq_some_iff.mp h).1
  | upper h => exact (List.getElem?_eq_some_iff.mp h).1

theorem unit?_eq_some_iff {a b c d : Char} {u : UInt16} :
    unit? a b c d = some u ↔ PieceText (.unit u) ['\\', 'u', a, b, c, d] := by
  constructor
  · intro h
    simp only [unit?, Option.bind_eq_bind, Option.bind_eq_some_iff] at h
    obtain ⟨i, hi, j, hj, k, hk, l, hl, hu⟩ := h
    have hi := hexDigit?_sound hi
    have hj := hexDigit?_sound hj
    have hk := hexDigit?_sound hk
    have hl := hexDigit?_sound hl
    have hlt : ((i * 16 + j) * 16 + k) * 16 + l < UInt16.size := by
      have := hi.lt
      have := hj.lt
      have := hk.lt
      have := hl.lt
      simp only [UInt16.size]
      omega
    obtain rfl := Option.some.inj hu
    exact .code hi hj hk hl (UInt16.toNat_ofNat_of_lt' hlt)
  · intro h
    cases h with
    | code hi hj hk hl hu =>
      simp only [unit?, hexDigit?_of_hexDigit hi, hexDigit?_of_hexDigit hj,
        hexDigit?_of_hexDigit hk, hexDigit?_of_hexDigit hl, Option.bind_eq_bind, Option.bind_some,
        ← hu, UInt16.ofNat_toNat]
      rfl

theorem escape?_sound {e c : Char} (h : escape? e = some c) : (e, c) ∈ shortEscapes := by
  unfold escape? at h
  split at h
  case h_9 => cases h
  all_goals
    obtain rfl := Option.some.inj h
    decide

theorem escape?_of_mem {e c : Char} (h : (e, c) ∈ shortEscapes) : escape? e = some c := by
  have hall : ∀ p ∈ shortEscapes, escape? p.1 = some p.2 := by decide
  exact hall _ h

theorem string_sound {ps : List Piece} (h : string s = some (ps, rest)) :
    ∃ t, PiecesText ps t ∧ s = t ++ '\x22' :: rest := by
  -- by the cases of the reader: an escape by number takes six characters, a short one two
  induction s using string.induct generalizing ps with
  | case1 => cases h
  | case2 r =>
    obtain ⟨rfl, rfl⟩ := Prod.mk.inj (Option.some.inj h)
    exact ⟨[], .nil, rfl⟩
  | case3 a b c d r ih =>
    simp only [string, Option.bind_eq_bind, Option.bind_eq_some_iff] at h
    obtain ⟨u, hu, ⟨qs, r'⟩, hq, he⟩ := h
    obtain ⟨rfl, rfl⟩ := Prod.mk.inj (Option.some.inj he)
    obtain ⟨t, ht, rfl⟩ := ih hq
    exact ⟨_, .cons (unit?_eq_some_iff.mp hu) ht, rfl⟩
  | case4 e r hcode ih =>
    rw [string.eq_4 e r hcode] at h
    simp only [Option.bind_eq_bind, Option.bind_eq_some_iff] at h
    obtain ⟨c, hc, ⟨qs, r'⟩, hq, he⟩ := h
    obtain ⟨rfl, rfl⟩ := Prod.mk.inj (Option.some.inj he)
    obtain ⟨t, ht, rfl⟩ := ih hq
    exact ⟨_, .cons (.short (escape?_sound hc)) ht, rfl⟩
  | case5 c r hquote hcode hshort hbad =>
    rw [string.eq_5 c r hquote hcode hshort, if_pos hbad] at h
    cases h
  | case6 c r hquote hcode hshort hgood ih =>
    rw [string.eq_5 c r hquote hcode hshort, if_neg hgood] at h
    simp only [Option.bind_eq_bind, Option.bind_eq_some_iff] at h
    obtain ⟨⟨qs, r'⟩, hq, he⟩ := h
    obtain ⟨rfl, rfl⟩ := Prod.mk.inj (Option.some.inj he)
    obtain ⟨t, ht, rfl⟩ := ih hq
    have hprintable : ' ' ≤ c := Char.not_lt.mp fun hlt => hgood (.inl hlt)
    exact ⟨_, .cons (.plain (toNat_le hprintable) hquote fun hb => hgood (.inr hb)) ht, rfl⟩

theorem string_piece {p : Piece} {t : List Char} (h : PieceText p t) {ps : List Piece}
    (hs : string s = some (ps, rest)) : string (t ++ s) = some (p :: ps, rest) := by
  cases h with
  | @plain c hprintable hquote hslash =>
    have hgood : ¬(c < ' ' ∨ c = '\\') := by
      rintro (hlt | rfl)
      · exact absurd (UInt32.lt_iff_toNat_lt.mp hlt) (Nat.not_lt.mpr hprintable)
      · exact hslash rfl
    rw [List.singleton_append, string.eq_5 c s hquote (fun _ _ _ _ _ hb => absurd hb hslash)
      fun _ _ hb => absurd hb hslash, if_neg hgood, hs]
    rfl
  | @short e c he =>
    have hall : ∀ p ∈ shortEscapes, p.1 ≠ 'u' := by decide
    have hcode : e ≠ 'u' := hall _ he
    show string ('\\' :: e :: s) = _
    rw [string.eq_4 e s fun _ _ _ _ _ hu => absurd hu hcode, escape?_of_mem he, hs]
    rfl
  | @code a b c d _ _ _ _ u hi hj hk hl hu =>
    have hunit := unit?_eq_some_iff.mpr (.code hi hj hk hl hu)
    show string ('\\' :: 'u' :: a :: b :: c :: d :: s) = _
    rw [string, hunit, hs]
    rfl

theorem string_append {ps : List Piece} {t : List Char} (h : PiecesText ps t) :
    string (t ++ '\x22' :: rest) = some (ps, rest) := by
  induction h with
  | nil => rfl
  | cons hp _ ih =>
    rw [List.append_assoc]
    exact string_piece hp ih

/-! ## Keywords -/

theorem keyword_sound {word : String} {v v' : Value} (h : keyword word v s = some (v', rest)) :
    v' = v ∧ s = word.toList ++ rest := by
  unfold keyword at h
  split at h
  · next hword =>
    obtain ⟨rfl, rfl⟩ := Prod.mk.inj (Option.some.inj h)
    obtain ⟨t, rfl⟩ := List.isPrefixOf_iff_prefix.mp hword
    rw [← String.length_toList, List.drop_left]
    exact ⟨rfl, rfl⟩
  · cases h

theorem keyword_append (word : String) (v : Value) (rest : List Char) :
    keyword word v (word.toList ++ rest) = some (v, rest) := by
  rw [keyword, if_pos (List.isPrefixOf_iff_prefix.mpr (List.prefix_append _ _)),
    ← String.length_toList, List.drop_left]

end CellMemory.Json
