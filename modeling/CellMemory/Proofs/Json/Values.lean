import CellMemory.Proofs.Json.Tokens

/-! # The reader and the grammar

A text is read as a value exactly if the grammar has it as a text of that value, among blanks.

* `Json.read_sound`: what is read is written. The three readers call each other one level deeper, so
  the induction is on the depth, for all three at once.
* `Json.read_complete`: what is written is read, by induction on the grammar. The invariant
  `ReadsBack` says for each phrase which reader reads it back and how deep its calls go.
* `Json.read_eq_some_iff`: both together.
-/

namespace CellMemory.Json
set_option autoImplicit false

variable {depth : Nat} {s rest : List Char} {v : Value} {vs : List Value}
  {ms : List (List Piece × Value)}

/-! ## What is read is written -/

/-- What `value` takes from a text at this depth is a text of the value it returns. -/
def ValuesWritten (depth : Nat) : Prop :=
  ∀ {s rest : List Char} {v : Value}, value depth s = some (v, rest) →
    ∃ t, Written (.value v) t ∧ s = t ++ rest

def ItemsWritten (depth : Nat) : Prop :=
  ∀ {s rest : List Char} {vs : List Value}, items depth (skipBlanks s) = some (vs, rest) →
    ∃ t, Written (.items vs) t ∧ s = t ++ ']' :: rest

def MembersWritten (depth : Nat) : Prop :=
  ∀ {s rest : List Char} {ms : List (List Piece × Value)},
    members depth (skipBlanks s) = some (ms, rest) →
    ∃ t, Written (.members ms) t ∧ s = t ++ '\x7d' :: rest

theorem element_sound (hvalues : ValuesWritten depth)
    (h : value depth (skipBlanks s) = some (v, rest)) :
    ∃ t, Written (.element v) t ∧ s = t ++ skipBlanks rest := by
  obtain ⟨t, ht, htext⟩ := hvalues h
  obtain ⟨w, hw, rfl⟩ := exists_blank_append htext
  obtain ⟨w', hw', hrest⟩ := exists_blank_append (s := rest) rfl
  refine ⟨w ++ (t ++ w'), .element hw ht hw', ?_⟩
  rw [List.append_assoc, List.append_assoc, ← hrest]

/-- A key, the colon and the value behind it. -/
theorem member_sound (hvalues : ValuesWritten depth) {key : List Piece} {r₁ r₂ r₃ : List Char}
    (hquote : skipBlanks s = '\x22' :: r₁) (hkey : string r₁ = some (key, r₂))
    (hcolon : skipBlanks r₂ = ':' :: r₃) (hv : value depth (skipBlanks r₃) = some (v, rest)) :
    ∃ t, Written (.member key v) t ∧ s = t ++ skipBlanks rest := by
  obtain ⟨w, hw, rfl⟩ := exists_blank_append hquote
  obtain ⟨k, hk, rfl⟩ := string_sound hkey
  obtain ⟨w', hw', rfl⟩ := exists_blank_append hcolon
  obtain ⟨t, ht, rfl⟩ := element_sound hvalues hv
  exact ⟨_, .member hw (.quoted hk) hw' ht, by simp⟩

theorem value_sound (hitems : ItemsWritten depth) (hmembers : MembersWritten depth) :
    ValuesWritten (depth + 1) := by
  intro s rest v h
  rw [value.eq_def] at h
  dsimp only at h
  split at h
  · obtain ⟨ps, hs, rfl⟩ := of_map_eq_some h
    obtain ⟨t, ht, rfl⟩ := string_sound hs
    exact ⟨_, .string (.quoted ht), by simp⟩
  · split at h
    · next hclose =>
      obtain ⟨rfl, rfl⟩ := Prod.mk.inj (Option.some.inj h)
      obtain ⟨w, hw, rfl⟩ := exists_blank_append hclose
      exact ⟨_, .emptyArray hw, by simp⟩
    · obtain ⟨vs, hi, rfl⟩ := of_map_eq_some h
      obtain ⟨t, ht, rfl⟩ := hitems hi
      exact ⟨_, .array ht, by simp⟩
  · split at h
    · next hclose =>
      obtain ⟨rfl, rfl⟩ := Prod.mk.inj (Option.some.inj h)
      obtain ⟨w, hw, rfl⟩ := exists_blank_append hclose
      exact ⟨_, .emptyObject hw, by simp⟩
    · obtain ⟨ms, hm, rfl⟩ := of_map_eq_some h
      obtain ⟨t, ht, rfl⟩ := hmembers hm
      exact ⟨_, .object ht, by simp⟩
  · obtain ⟨rfl, rfl⟩ := keyword_sound h
    exact ⟨_, .null, rfl⟩
  · obtain ⟨rfl, rfl⟩ := keyword_sound h
    exact ⟨_, .true, rfl⟩
  · obtain ⟨rfl, rfl⟩ := keyword_sound h
    exact ⟨_, .false, rfl⟩
  · obtain ⟨n, hn, rfl⟩ := of_map_eq_some h
    obtain ⟨t, ht, rfl⟩ := number_sound hn
    exact ⟨_, .number ht, rfl⟩

theorem items_sound (hvalues : ValuesWritten depth) (hitems : ItemsWritten depth) :
    ItemsWritten (depth + 1) := by
  intro s rest vs h
  rw [items] at h
  simp only [Option.bind_eq_bind, Option.bind_eq_some_iff] at h
  obtain ⟨⟨v, r⟩, hv, h⟩ := h
  obtain ⟨t, ht, rfl⟩ := element_sound hvalues hv
  split at h
  · next hclose =>
    obtain ⟨rfl, rfl⟩ := Prod.mk.inj (Option.some.inj h)
    rw [hclose]
    exact ⟨t, .lastItem ht, rfl⟩
  · next r' hcomma =>
    obtain ⟨⟨ws, r''⟩, hi, he⟩ := Option.bind_eq_some_iff.mp h
    obtain ⟨rfl, rfl⟩ := Prod.mk.inj (Option.some.inj he)
    obtain ⟨t', ht', rfl⟩ := hitems hi
    rw [hcomma]
    exact ⟨_, .nextItem ht ht', by simp⟩
  · cases h

theorem members_sound (hvalues : ValuesWritten depth) (hmembers : MembersWritten depth) :
    MembersWritten (depth + 1) := by
  intro s rest ms h
  rw [members.eq_def] at h
  dsimp only at h
  split at h
  · next r hquote =>
    simp only [Option.bind_eq_bind, Option.bind_eq_some_iff] at h
    obtain ⟨⟨key, r₁⟩, hkey, h⟩ := h
    split at h
    · next r₂ hcolon =>
      obtain ⟨⟨v, r₃⟩, hv, h⟩ := Option.bind_eq_some_iff.mp h
      obtain ⟨t, ht, rfl⟩ := member_sound hvalues hquote hkey hcolon hv
      split at h
      · next hclose =>
        obtain ⟨rfl, rfl⟩ := Prod.mk.inj (Option.some.inj h)
        rw [hclose]
        exact ⟨t, .lastMember ht, rfl⟩
      · next r₄ hcomma =>
        obtain ⟨⟨ns, r₅⟩, hm, he⟩ := Option.bind_eq_some_iff.mp h
        obtain ⟨rfl, rfl⟩ := Prod.mk.inj (Option.some.inj he)
        obtain ⟨t', ht', rfl⟩ := hmembers hm
        rw [hcomma]
        exact ⟨_, .nextMember ht ht', by simp⟩
      · cases h
    · cases h
  · cases h

theorem readers_sound (depth : Nat) :
    ValuesWritten depth ∧ ItemsWritten depth ∧ MembersWritten depth := by
  induction depth with
  | zero =>
    refine ⟨fun h => ?_, fun h => ?_, fun h => ?_⟩
    · rw [value] at h
      cases h
    · rw [items] at h
      cases h
    · rw [members] at h
      cases h
  | succ depth ih =>
    obtain ⟨hvalues, hitems, hmembers⟩ := ih
    exact ⟨value_sound hitems hmembers, items_sound hvalues hitems,
      members_sound hvalues hmembers⟩

theorem read_sound {text : List Char} (h : read text = some v) : Written (.element v) text := by
  simp only [read, Option.bind_eq_bind, Option.bind_eq_some_iff] at h
  obtain ⟨⟨v', rest⟩, hv, h⟩ := h
  split at h
  · next hrest =>
    obtain rfl := Option.some.inj h
    obtain ⟨t, ht, rfl⟩ := element_sound (readers_sound _).1 hv
    rw [hrest, List.append_nil]
    exact ht
  · cases h

/-! ## What is written is read -/

/-- What may follow a value and the blanks behind it. -/
def Closes (rest : List Char) : Prop := ∀ c ∈ rest.head?, c ∈ closers

theorem Closes.skipBlanks_eq (h : Closes rest) : skipBlanks rest = rest := by
  cases rest with
  | nil => rfl
  | cons c rest =>
    have hall : ∀ c ∈ closers, isBlank c = false := by simp [closers, isBlank]
    exact skipBlanks_cons (hall c (h c rfl)) rest

theorem Closes.ends_append (h : Closes rest) {w : List Char} (hw : Blank w) : Ends (w ++ rest) := by
  intro c hc
  cases w with
  | nil => exact List.mem_append_right blanks (h c hc)
  | cons d w =>
    obtain rfl := Option.some.inj hc
    exact List.mem_append_left closers (hw d List.mem_cons_self)

/-- No value starts with a character that may follow one. -/
theorem value_eq_none {c : Char} (hc : c ∈ blanks ++ closers) : value depth (c :: s) = none := by
  simp only [blanks, closers, List.mem_append, List.mem_cons, List.not_mem_nil, or_false,
    or_assoc] at hc
  cases depth with
  | zero => rw [value]
  | succ depth => obtain rfl | rfl | rfl | rfl | rfl | rfl | rfl := hc <;> rfl

theorem skipBlanks_of_value {p : Value × List Char} (h : value depth s = some p) :
    skipBlanks s = s := by
  cases s with
  | nil => rfl
  | cons c s =>
    cases hc : isBlank c with
    | false => exact skipBlanks_cons hc s
    | true =>
      rw [value_eq_none (List.mem_append_left closers (isBlank_iff.mp hc))] at h
      cases h

theorem items_close (depth : Nat) (s : List Char) : items depth (']' :: s) = none := by
  cases depth with
  | zero => rw [items]
  | succ depth =>
    rw [items, value_eq_none (by decide)]
    rfl

theorem members_close (depth : Nat) (s : List Char) : members depth ('\x7d' :: s) = none := by
  cases depth with
  | zero => rw [members]
  | succ depth => rfl

/-- The reader of a phrase takes `t` from the front of a text as that phrase. Each character costs
two levels at most, one to enter its value and one to go on to the next item or member. The readers
of items and members also take the closing bracket or brace. -/
def ReadsBack : Phrase → List Char → Prop
  | .value v, t => ∀ depth rest, 2 * t.length ≤ depth → Ends rest →
      value depth (t ++ rest) = some (v, rest)
  | .element v, t => ∀ depth rest, 2 * t.length ≤ depth → Closes rest →
      ∃ r, value depth (skipBlanks (t ++ rest)) = some (v, r) ∧ skipBlanks r = rest
  | .items vs, t => ∀ depth rest, 2 * t.length < depth →
      items depth (skipBlanks (t ++ ']' :: rest)) = some (vs, rest)
  | .member key v, t => ∀ depth rest, 2 * t.length ≤ depth → Closes rest →
      ∃ r₁ r₂ r₃ r₄, skipBlanks (t ++ rest) = '\x22' :: r₁ ∧ string r₁ = some (key, r₂) ∧
        skipBlanks r₂ = ':' :: r₃ ∧ value depth (skipBlanks r₃) = some (v, r₄) ∧
        skipBlanks r₄ = rest
  | .members ms, t => ∀ depth rest, 2 * t.length < depth →
      members depth (skipBlanks (t ++ '\x7d' :: rest)) = some (ms, rest)

theorem readsBack_keyword (c : Char) (word : String) {t : List Char}
    (heq : ∀ depth rest, value (depth + 1) (c :: rest) = keyword word v rest)
    (ht : t = c :: word.toList) : ReadsBack (.value v) t := by
  intro depth rest hdepth _
  subst ht
  cases depth with
  | zero => simp at hdepth
  | succ depth => rw [List.cons_append, heq, keyword_append]

theorem readsBack_number {n : Number} {t : List Char} (h : NumberText n t) :
    ReadsBack (.value (.number n)) t := by
  intro depth rest hdepth hrest
  obtain ⟨c, t', rfl, hc⟩ := h.exists_cons
  have hother : ∀ c' ∈ ['\x22', '[', '\x7b', 'n', 't', 'f'], ∀ r, c :: t' ++ rest ≠ c' :: r := by
    have hall : ∀ c' ∈ ['\x22', '[', '\x7b', 'n', 't', 'f'], c' ≠ '-' ∧ c'.isDigit = false := by
      simp
    rintro c' hc' r h
    obtain rfl : c = c' := (List.cons.inj h).1
    obtain ⟨hminus, hdigit⟩ := hall c hc'
    simp [hminus, hdigit] at hc
  cases depth with
  | zero => simp at hdepth
  | succ depth =>
    rw [value.eq_8 _ _ (hother _ (by decide)) (hother _ (by decide)) (hother _ (by decide))
      (hother _ (by decide)) (hother _ (by decide)) (hother _ (by decide)), number_append h hrest]
    rfl

theorem readsBack_string {ps : List Piece} {t : List Char} (h : StringText ps t) :
    ReadsBack (.value (.string ps)) t := by
  intro depth rest hdepth _
  cases h with
  | quoted hs =>
    cases depth with
    | zero => simp at hdepth
    | succ depth =>
      rw [List.cons_append, value, List.append_assoc, List.singleton_append, string_append hs]
      rfl

theorem readsBack_emptyArray {w : List Char} (hw : Blank w) :
    ReadsBack (.value (.array [])) ('[' :: (w ++ [']'])) := by
  intro depth rest hdepth _
  cases depth with
  | zero => simp at hdepth
  | succ depth =>
    rw [List.cons_append, value, List.append_assoc, skipBlanks_append hw]
    rfl

theorem readsBack_array {t : List Char} (h : ReadsBack (.items vs) t) :
    ReadsBack (.value (.array vs)) ('[' :: (t ++ [']'])) := by
  intro depth rest hdepth _
  simp only [List.length_cons, List.length_append, List.length_nil] at hdepth
  cases depth with
  | zero => omega
  | succ depth =>
    have hitems := h depth rest (by omega)
    rw [List.cons_append, value, List.append_assoc, List.singleton_append]
    -- the items start behind the blanks, so the bracket cannot stand there yet
    split
    · next hclose =>
      rw [hclose, items_close] at hitems
      cases hitems
    · rw [hitems]
      rfl

theorem readsBack_emptyObject {w : List Char} (hw : Blank w) :
    ReadsBack (.value (.object [])) ('\x7b' :: (w ++ ['\x7d'])) := by
  intro depth rest hdepth _
  cases depth with
  | zero => simp at hdepth
  | succ depth =>
    rw [List.cons_append, value, List.append_assoc, skipBlanks_append hw]
    rfl

theorem readsBack_object {t : List Char} (h : ReadsBack (.members ms) t) :
    ReadsBack (.value (.object ms)) ('\x7b' :: (t ++ ['\x7d'])) := by
  intro depth rest hdepth _
  simp only [List.length_cons, List.length_append, List.length_nil] at hdepth
  cases depth with
  | zero => omega
  | succ depth =>
    have hmembers := h depth rest (by omega)
    rw [List.cons_append, value, List.append_assoc, List.singleton_append]
    split
    · next hclose =>
      rw [hclose, members_close] at hmembers
      cases hmembers
    · rw [hmembers]
      rfl

theorem readsBack_element {t w w' : List Char} (hw : Blank w) (h : ReadsBack (.value v) t)
    (hw' : Blank w') : ReadsBack (.element v) (w ++ (t ++ w')) := by
  intro depth rest hdepth hrest
  simp only [List.length_append] at hdepth
  have hvalue := h depth (w' ++ rest) (by omega) (hrest.ends_append hw')
  refine ⟨w' ++ rest, ?_, ?_⟩
  · rw [List.append_assoc, List.append_assoc, skipBlanks_append hw, skipBlanks_of_value hvalue]
    exact hvalue
  · rw [skipBlanks_append hw', hrest.skipBlanks_eq]

theorem readsBack_lastItem {t : List Char} (h : ReadsBack (.element v) t) :
    ReadsBack (.items [v]) t := by
  intro depth rest hdepth
  cases depth with
  | zero => omega
  | succ depth =>
    obtain ⟨r, hv, hr⟩ := h depth (']' :: rest) (by omega) (by rintro c ⟨⟩; decide)
    rw [items, hv]
    simp only [Option.bind_eq_bind, Option.bind_some, hr]
    rfl

theorem readsBack_nextItem {t t' : List Char} (h : ReadsBack (.element v) t)
    (h' : ReadsBack (.items vs) t') : ReadsBack (.items (v :: vs)) (t ++ ',' :: t') := by
  intro depth rest hdepth
  simp only [List.length_append, List.length_cons] at hdepth
  cases depth with
  | zero => omega
  | succ depth =>
    obtain ⟨r, hv, hr⟩ := h depth (',' :: (t' ++ ']' :: rest)) (by omega) (by rintro c ⟨⟩; decide)
    rw [List.append_assoc, List.cons_append, items, hv]
    simp only [Option.bind_eq_bind, Option.bind_some, hr, h' depth rest (by omega)]
    rfl

theorem readsBack_member {key : List Piece} {k t w w' : List Char} (hw : Blank w)
    (hk : StringText key k) (hw' : Blank w') (h : ReadsBack (.element v) t) :
    ReadsBack (.member key v) (w ++ (k ++ (w' ++ ':' :: t))) := by
  intro depth rest hdepth hrest
  simp only [List.length_append, List.length_cons] at hdepth
  obtain ⟨r, hv, hr⟩ := h depth rest (by omega) hrest
  cases hk with
  | @quoted k hk =>
    refine ⟨k ++ '\x22' :: (w' ++ ':' :: (t ++ rest)), w' ++ ':' :: (t ++ rest), t ++ rest, r, ?_,
      string_append hk, ?_, hv, hr⟩
    · simp only [List.append_assoc, List.cons_append, skipBlanks_append hw]
      exact skipBlanks_cons rfl _
    · rw [skipBlanks_append hw']
      exact skipBlanks_cons rfl _

theorem readsBack_lastMember {key : List Piece} {t : List Char} (h : ReadsBack (.member key v) t) :
    ReadsBack (.members [(key, v)]) t := by
  intro depth rest hdepth
  cases depth with
  | zero => omega
  | succ depth =>
    obtain ⟨r₁, r₂, r₃, r₄, hquote, hkey, hcolon, hv, hr⟩ :=
      h depth ('\x7d' :: rest) (by omega) (by rintro c ⟨⟩; decide)
    rw [hquote, members]
    simp only [Option.bind_eq_bind, Option.bind_some, hkey, hcolon, hv, hr]
    rfl

theorem readsBack_nextMember {key : List Piece} {t t' : List Char} (h : ReadsBack (.member key v) t)
    (h' : ReadsBack (.members ms) t') : ReadsBack (.members ((key, v) :: ms)) (t ++ ',' :: t') := by
  intro depth rest hdepth
  simp only [List.length_append, List.length_cons] at hdepth
  cases depth with
  | zero => omega
  | succ depth =>
    obtain ⟨r₁, r₂, r₃, r₄, hquote, hkey, hcolon, hv, hr⟩ :=
      h depth (',' :: (t' ++ '\x7d' :: rest)) (by omega) (by rintro c ⟨⟩; decide)
    rw [List.append_assoc, List.cons_append, hquote, members]
    simp only [Option.bind_eq_bind, Option.bind_some, hkey, hcolon, hv, hr,
      h' depth rest (by omega)]
    rfl

theorem Written.readsBack {p : Phrase} {t : List Char} (h : Written p t) : ReadsBack p t := by
  induction h with
  | null => exact readsBack_keyword 'n' "ull" (fun _ _ => rfl) rfl
  | true => exact readsBack_keyword 't' "rue" (fun _ _ => rfl) rfl
  | false => exact readsBack_keyword 'f' "alse" (fun _ _ => rfl) rfl
  | number h => exact readsBack_number h
  | string h => exact readsBack_string h
  | emptyArray hw => exact readsBack_emptyArray hw
  | array _ ih => exact readsBack_array ih
  | emptyObject hw => exact readsBack_emptyObject hw
  | object _ ih => exact readsBack_object ih
  | element hw _ hw' ih => exact readsBack_element hw ih hw'
  | lastItem _ ih => exact readsBack_lastItem ih
  | nextItem _ _ ih ih' => exact readsBack_nextItem ih ih'
  | member hw hk hw' _ ih => exact readsBack_member hw hk hw' ih
  | lastMember _ ih => exact readsBack_lastMember ih
  | nextMember _ _ ih ih' => exact readsBack_nextMember ih ih'

theorem read_complete {text : List Char} (h : Written (.element v) text) : read text = some v := by
  obtain ⟨r, hv, hr⟩ := h.readsBack (2 * text.length + 1) [] (by omega) (fun _ hc => nomatch hc)
  rw [List.append_nil] at hv
  simp only [read, hv, Option.bind_eq_bind, Option.bind_some, if_pos hr]
  rfl

theorem read_eq_some_iff {text : List Char} : read text = some v ↔ Written (.element v) text :=
  ⟨read_sound, read_complete⟩

end CellMemory.Json
