import CellMemory.Layout.Document
import CellMemory.Proofs.Json.Numerals
import CellMemory.Proofs.Json.Values

/-! # Which documents describe a layout

* `Layout.Describes`: the number of prefix cells that a JSON value calls for, by the shape of the
  value and the characters its keys stand for.
* `Layout.counts?`: the values under the key of that number, as the reader collects them.
* `Layout.ofValue?_eq_some_iff`: the reader takes from a written value what it describes.
* `Layout.documents_exact`: which texts are read as which layout, and which as none.
* `Layout.written_toJson`: the document of a layout in the grammar.
* `Layout.ofJson?_toJson`, `Layout.configuration_round_trip`: reading undoes writing.
-/

namespace CellMemory.Layout
set_option autoImplicit false

open Json (Value Piece Spells Written numeral)

/-- The keys of these members are proper strings, and none of them is that of the number. -/
def OtherKeys (ms : List (List Piece × Value)) : Prop :=
  ∀ m ∈ ms, ∃ key, Spells m.1 key ∧ key ≠ "prefix_cell_count".toList

/-- The value calls for a prefix of so many cells. An array gives the number as its only item, an
object under its key; where it is missing, the usual 3 cells are meant. -/
inductive Describes : Value → Nat → Prop
  | emptyArray : Describes (.array []) 3
  | array (n : Nat) : Describes (.array [numeral n]) n
  | unnamed {ms : List (List Piece × Value)} : OtherKeys ms → Describes (.object ms) 3
  | named {before after : List (List Piece × Value)} {key : List Piece} (n : Nat) :
      Spells key "prefix_cell_count".toList → OtherKeys (before ++ after) →
      Describes (.object (before ++ (key, numeral n) :: after)) n

theorem ofPrefixCells?_eq_some_iff {n : Nat} {l : Layout} :
    ofPrefixCells? n = some l ↔ n = l.prefixCells := by
  unfold ofPrefixCells?
  constructor
  · intro h
    split at h
    · exact congrArg prefixCells (Option.some.inj h)
    · cases h
  · rintro rfl
    rw [dif_pos l.prefixCells_le]

theorem eq_default_iff {l : Layout} : default = l ↔ l.prefixCells = 3 :=
  ⟨fun h => h ▸ rfl, fun h => Layout.ext h.symm⟩

variable {l : Layout} {vs : List Value} {ms : List (List Piece × Value)}

theorem ofCount?_eq_some_iff {v : Value} :
    ofCount? v = some l ↔ v.natural? = some l.prefixCells := by
  simp only [ofCount?, Option.bind_eq_some_iff, ofPrefixCells?_eq_some_iff, exists_eq_right]

theorem ofCounts?_eq_some_iff :
    ofCounts? vs = some l ↔
      (vs = [] ∧ l.prefixCells = 3) ∨ ∃ v, vs = [v] ∧ v.natural? = some l.prefixCells := by
  rcases vs with _ | ⟨v, _ | ⟨v', vs⟩⟩
  · simp [ofCounts?, eq_default_iff]
  · simp [ofCounts?, ofCount?_eq_some_iff]
  · simp [ofCounts?]

/-- The values of the members whose key is that of the number, unless a key is no proper string. -/
def counts? (ms : List (List Piece × Value)) : Option (List Value) := do
  let keys ← ms.mapM fun member => Json.text? member.1
  let named := keys.zip (ms.map Prod.snd)
  return (named.filter fun entry => entry.1 = prefixKey.toList).map Prod.snd

theorem ofValue?_object (ms : List (List Piece × Value)) :
    ofValue? (.object ms) = (counts? ms).bind ofCounts? := by
  simp only [ofValue?, counts?, Option.bind_eq_bind, Option.bind_assoc]
  rfl

theorem counts?_cons (m : List Piece × Value) (ms : List (List Piece × Value)) :
    counts? (m :: ms) = (Json.text? m.1).bind fun key => (counts? ms).map fun vs =>
      if key = prefixKey.toList then m.2 :: vs else vs := by
  cases hm : Json.text? m.1 with
  | none => simp [counts?, hm]
  | some key =>
    cases hms : ms.mapM fun member => Json.text? member.1 with
    | none => simp [counts?, hm, hms]
    | some keys =>
      by_cases hkey : key = prefixKey.toList
      · simp [counts?, hm, hms, hkey]
      · simp [counts?, hm, hms, hkey]

theorem counts?_eq_nil_iff : counts? ms = some [] ↔ OtherKeys ms := by
  induction ms with
  | nil => exact ⟨fun _ => List.forall_mem_nil _, fun _ => rfl⟩
  | cons m ms ih =>
    rw [counts?_cons, OtherKeys, List.forall_mem_cons, ← OtherKeys, ← ih]
    simp only [Option.bind_eq_some_iff, Option.map_eq_some_iff, Json.text?_eq_some_iff]
    constructor
    · rintro ⟨key, hspells, vs, hvs, heq⟩
      split at heq
      · cases heq
      · next hkey => exact ⟨⟨key, hspells, hkey⟩, heq ▸ hvs⟩
    · rintro ⟨⟨key, hspells, hkey⟩, hms⟩
      exact ⟨key, hspells, [], hms, if_neg hkey⟩

theorem counts?_eq_singleton_iff {v : Value} : counts? ms = some [v] ↔
    ∃ before key after, ms = before ++ (key, v) :: after ∧
      Spells key "prefix_cell_count".toList ∧ OtherKeys (before ++ after) := by
  -- the first member either has the key, and then no later one has it, or belongs to `before`
  induction ms with
  | nil => simp [counts?]
  | cons m ms ih =>
    rw [counts?_cons]
    simp only [Option.bind_eq_some_iff, Option.map_eq_some_iff, Json.text?_eq_some_iff]
    constructor
    · rintro ⟨key, hspells, vs, hvs, heq⟩
      split at heq
      · next hkey =>
        obtain ⟨rfl, rfl⟩ := List.cons.inj heq
        exact ⟨[], m.1, ms, rfl, hkey ▸ hspells, counts?_eq_nil_iff.mp hvs⟩
      · next hkey =>
        subst heq
        obtain ⟨before, key', after, rfl, hspells', hother⟩ := ih.mp hvs
        exact ⟨m :: before, key', after, rfl, hspells',
          List.forall_mem_cons.mpr ⟨⟨key, hspells, hkey⟩, hother⟩⟩
    · rintro ⟨before, key, after, heq, hspells, hother⟩
      rcases before with _ | ⟨m', before⟩
      · obtain ⟨rfl, rfl⟩ := List.cons.inj heq
        exact ⟨_, hspells, [], counts?_eq_nil_iff.mpr hother, if_pos rfl⟩
      · obtain ⟨rfl, rfl⟩ := List.cons.inj heq
        obtain ⟨⟨key', hspells', hkey'⟩, hother⟩ := List.forall_mem_cons.mp hother
        exact ⟨key', hspells', [v], ih.mpr ⟨before, key, after, rfl, hspells, hother⟩,
          if_neg hkey'⟩

theorem describes_of_ofValue? {v : Value} {t : List Char} (hw : Written (.value v) t)
    (h : ofValue? v = some l) : Describes v l.prefixCells := by
  cases v with
  | array vs =>
    obtain ⟨rfl, hl⟩ | ⟨v, rfl, hv⟩ := ofCounts?_eq_some_iff.mp h
    · exact hl ▸ .emptyArray
    · obtain ⟨s, hs⟩ := hw.of_mem_array v List.mem_cons_self
      obtain rfl := hs.eq_numeral hv
      exact .array _
  | object ms =>
    rw [ofValue?_object] at h
    obtain ⟨vs, hvs, hcounts⟩ := Option.bind_eq_some_iff.mp h
    obtain ⟨rfl, hl⟩ | ⟨v, rfl, hv⟩ := ofCounts?_eq_some_iff.mp hcounts
    · exact hl ▸ .unnamed (counts?_eq_nil_iff.mp hvs)
    · obtain ⟨before, key, after, rfl, hspells, hother⟩ := counts?_eq_singleton_iff.mp hvs
      obtain ⟨s, hs⟩ := hw.of_mem_object v (by simp)
      obtain rfl := hs.eq_numeral hv
      exact .named _ hspells hother
  | _ => cases h

theorem ofValue?_of_describes {v : Value} (h : Describes v l.prefixCells) :
    ofValue? v = some l := by
  generalize hn : l.prefixCells = n at h
  cases h with
  | emptyArray => exact ofCounts?_eq_some_iff.mpr (.inl ⟨rfl, hn⟩)
  | array n =>
    exact ofCounts?_eq_some_iff.mpr (.inr ⟨_, rfl, hn ▸ Json.natural?_numeral _⟩)
  | unnamed hother =>
    rw [ofValue?_object, counts?_eq_nil_iff.mpr hother]
    exact ofCounts?_eq_some_iff.mpr (.inl ⟨rfl, hn⟩)
  | named n hspells hother =>
    rw [ofValue?_object, counts?_eq_singleton_iff.mpr ⟨_, _, _, rfl, hspells, hother⟩]
    exact ofCounts?_eq_some_iff.mpr (.inr ⟨_, rfl, hn ▸ Json.natural?_numeral _⟩)

theorem ofValue?_eq_some_iff {v : Value} {t : List Char} (hw : Written (.value v) t) :
    ofValue? v = some l ↔ Describes v l.prefixCells :=
  ⟨describes_of_ofValue? hw, ofValue?_of_describes⟩

/-! ## Documents -/

/-- A text is read as a layout exactly if it is a JSON value among blanks, written in the strict
grammar, that calls for a number of prefix cells which is a size; every other text is refused. -/
theorem documents_exact (text : String) :
    (∀ l : Layout, ofJson? text = some l ↔
      ∃ v, Written (.element v) text.toList ∧ Describes v l.prefixCells) ∧
    (ofJson? text = none ↔
      ¬∃ v n, Written (.element v) text.toList ∧ Describes v n ∧ n ≤ Size.limit) := by
  have accepted : ∀ l : Layout, ofJson? text = some l ↔
      ∃ v, Written (.element v) text.toList ∧ Describes v l.prefixCells := by
    intro l
    rw [ofJson?, Option.bind_eq_some_iff]
    refine exists_congr fun v => ?_
    rw [Json.read_eq_some_iff]
    refine and_congr_right fun hw => ?_
    obtain ⟨s, hs⟩ := hw.of_element
    exact ofValue?_eq_some_iff hs
  refine ⟨accepted, ?_⟩
  constructor
  · rintro hnone ⟨v, n, hw, hd, hn⟩
    have hsome := (accepted ⟨n, hn⟩).mpr ⟨v, hw, hd⟩
    rw [hnone] at hsome
    cases hsome
  · intro hall
    cases h : ofJson? text with
    | none => rfl
    | some l =>
      obtain ⟨v, hw, hd⟩ := (accepted l).mp h
      exact absurd ⟨v, l.prefixCells, hw, hd, l.prefixCells_le⟩ hall

-- The key is compared after unescaping; the other member holds half of a surrogate pair.
example : ofJson? "\t\x7b \"x\": [-1e99, \"\\ud800\"], \"prefix\\u005fcell_count\" :7\x7d\n" =
    some { prefixCells := 7 } := by
  decide +kernel

example : ofJson? "[03]" = none := by decide +kernel

/-! ## Documents that are written -/

/-- The pieces of a text that needs no escapes. -/
def plain (cs : List Char) : List Piece := cs.map .char

theorem spells_plain (cs : List Char) : Spells (plain cs) cs := by
  induction cs with
  | nil => exact .nil
  | cons c cs ih => exact .char ih

theorem stringText_plain (cs : List Char)
    (h : ∀ c ∈ cs, 0x20 ≤ c.toNat ∧ c ≠ '\x22' ∧ c ≠ '\\') :
    Json.StringText (plain cs) ('\x22' :: (cs ++ ['\x22'])) := by
  apply Json.StringText.quoted
  induction cs with
  | nil => exact .nil
  | cons c cs ih =>
    obtain ⟨⟨hcontrol, hquote, hescape⟩, hrest⟩ := List.forall_mem_cons.1 h
    exact .cons (.plain hcontrol hquote hescape) (ih hrest)

/-- The document is an object with one member, and there is no blank in it. -/
theorem written_toJson (l : Layout) :
    Written (.element (.object [(plain prefixKey.toList, numeral l.prefixCells)]))
      l.toJson.toList := by
  have hblank : Json.Blank [] := List.forall_mem_nil _
  have hkey := stringText_plain prefixKey.toList (by simp [prefixKey])
  have hnumber := Written.element hblank (Json.written_numeral l.prefixCells) hblank
  have hobject := Written.object (.lastMember (.member hblank hkey hblank hnumber))
  have hdocument := Written.element hblank hobject hblank
  have htext : l.toJson.toList = '\x7b' :: '\x22' :: (prefixKey.toList ++
      ('\x22' :: ':' :: (Nat.toDigits 10 l.prefixCells ++ ['\x7d']))) := by
    simp only [toJson, String.toList_append, toString, Nat.toList_repr, List.append_assoc]
    rfl
  rw [htext]
  simpa using hdocument

theorem ofJson?_toJson (l : Layout) : ofJson? l.toJson = some l := by
  rw [ofJson?, Json.read_complete l.written_toJson]
  exact ofValue?_of_describes
    (@Describes.named [] [] _ _ (spells_plain prefixKey.toList) (List.forall_mem_nil _))

/-- The document of the layout that a text describes. -/
def normal? (text : String) : Option String := (ofJson? text).map toJson

theorem normal?_toJson (l : Layout) : normal? l.toJson = some l.toJson := by
  rw [normal?, ofJson?_toJson, Option.map_some]

/-- A layout with any number of prefix cells that is a size is read from its document, so no two
layouts share one. Whatever text a layout is read from, in whatever form, with whatever else in it, the
document of that layout is a text of it too, and its own document. -/
theorem configuration_round_trip :
    (∀ n (h : n ≤ Size.limit), ofJson? (toJson ⟨n, h⟩) = some ⟨n, h⟩) ∧
    (∀ l l' : Layout, l.toJson = l'.toJson ↔ l = l') ∧
    ∀ (text : String) (l : Layout), ofJson? text = some l →
      ∃ document, normal? text = some document ∧ ofJson? document = some l ∧
        normal? document = some document := by
  refine ⟨fun n h => ofJson?_toJson ⟨n, h⟩, ?_, ?_⟩
  · intro l l'
    refine ⟨?_, congrArg toJson⟩
    intro hsame
    have hread := l.ofJson?_toJson
    rw [hsame, ofJson?_toJson] at hread
    exact (Option.some.inj hread).symm
  · intro text l hread
    refine ⟨l.toJson, ?_, l.ofJson?_toJson, l.normal?_toJson⟩
    rw [normal?, hread, Option.map_some]

/-- The largest prefix, and seven cells in a text with blanks, an escape in the key and a member that
is ignored. -/
theorem configuration_round_trip_largest :
    ofJson? (toJson ⟨18446744073709551615, by decide⟩) =
        some ⟨18446744073709551615, by decide⟩ ∧
      ∃ document, normal? "\x7b \"x\": [-1e99, \"\\ud800\"], \"prefix\\u005fcell_count\" :7\x7d\n" =
          some document ∧
        ofJson? document = some { prefixCells := 7 } ∧ normal? document = some document := by
  obtain ⟨hsizes, -, haccepted⟩ := configuration_round_trip
  exact ⟨hsizes 18446744073709551615 (by decide), haccepted _ _ (by decide +kernel)⟩

end CellMemory.Layout
