import CellMemory.Proofs.Outcome

/-! # Runs

What one call keeps, and from it what any run of calls keeps and what it leaves behind.

* `Memory.perform_failed`: a call that fails changes nothing.
* `Memory.layout_run`, `Memory.cellCount_run`: no run changes the layout or the number of data cells.
* `Memory.getElem?_replies`: a reply in a run.
* `Call.latest`: what the last successful call of a run told about a matter.
* `Memory.view_run`: an observation that each successful call either sets or leaves alone is, after
  a run, what the last call to set it has set.
-/

namespace CellMemory
set_option autoImplicit false

/-! ## One call -/

/-- Whether a request got an answer. -/
def Reply.succeeded (reply : Reply) : Bool :=
  match reply.value with
  | .ok _ => true
  | .error _ => false

theorem Call.layout_effect (c : Call) (m : Memory) : (c.effect m).layout = m.layout := by
  cases c <;> simp only [effect, Memory.layout_store, Memory.layout_putCells]

theorem Call.cellCount_effect (c : Call) (m : Memory) : (c.effect m).cellCount = m.cellCount := by
  cases c <;> simp only [effect, Memory.cellCount_store, Memory.cellCount_putCells]

namespace Memory

variable (m : Memory)

/-- A call either fails and changes nothing, or succeeds and has its effect. -/
theorem perform_cases (c : Call) :
    (Reply.succeeded (m.perform c).2 = false ∧ (m.perform c).1 = m) ∨
      (Reply.succeeded (m.perform c).2 = true ∧ c.refusal m = none ∧
        (m.perform c).1 = c.effect m) := by
  cases h : c.refusal m with
  | none =>
    rw [m.perform_accepted c h]
    exact .inr ⟨rfl, rfl, rfl⟩
  | some fault =>
    rw [m.perform_refused c fault h]
    exact .inl ⟨rfl, rfl⟩

theorem value_perform (c : Call) :
    (m.perform c).2.value =
      match c.refusal m with
      | none => .ok (c.answer m)
      | some fault => .error (.fault fault) := by
  cases h : c.refusal m with
  | none => rw [m.perform_accepted c h]
  | some fault => rw [m.perform_refused c fault h]

theorem value_perform_eq_ok (c : Call) (answer : Answer) :
    (m.perform c).2.value = .ok answer ↔ c.refusal m = none ∧ c.answer m = answer := by
  rw [value_perform]
  cases c.refusal m with
  | none => simp only [Except.ok.injEq, true_and]
  | some fault => simp only [reduceCtorEq, false_and]

/-- Calls that are refused alike and come to the same are carried out alike. -/
theorem perform_congr (c c' : Call) (hrefusal : c.refusal m = c'.refusal m)
    (h : c.refusal m = none →
      c.effect m = c'.effect m ∧ c.answer m = c'.answer m ∧ c.report m = c'.report m) :
    m.perform c = m.perform c' := by
  cases hc : c.refusal m with
  | none =>
    obtain ⟨heffect, hanswer, hreport⟩ := h hc
    rw [m.perform_accepted c hc, m.perform_accepted c' (hrefusal.symm.trans hc), heffect, hanswer,
      hreport]
  | some fault =>
    rw [m.perform_refused c fault hc, m.perform_refused c' fault (hrefusal.symm.trans hc)]

theorem error_congr (c c' : Call) (hrefusal : c.refusal m = c'.refusal m) (failure : Failure) :
    (m.perform c).2.value = .error failure ↔ (m.perform c').2.value = .error failure := by
  rw [value_perform, value_perform, hrefusal]
  cases c'.refusal m with
  | none => simp only [reduceCtorEq]
  | some fault => exact Iff.rfl

theorem perform_failed (c : Call) (failure : Failure)
    (h : (m.perform c).2.value = .error failure) : (m.perform c).1 = m := by
  rcases m.perform_cases c with ⟨-, hsame⟩ | ⟨hsucceeded, -, -⟩
  · exact hsame
  · rw [Reply.succeeded, h] at hsucceeded
    cases hsucceeded

theorem layout_perform (c : Call) : (m.perform c).1.layout = m.layout := by
  rcases m.perform_cases c with ⟨-, hsame⟩ | ⟨-, -, heffect⟩
  · rw [hsame]
  · rw [heffect, c.layout_effect]

theorem cellCount_perform (c : Call) : (m.perform c).1.cellCount = m.cellCount := by
  rcases m.perform_cases c with ⟨-, hsame⟩ | ⟨-, -, heffect⟩
  · rw [hsame]
  · rw [heffect, c.cellCount_effect]

/-! ## Many calls -/

theorem layout_run (calls : List Call) : (m.run calls).1.layout = m.layout := by
  induction calls generalizing m with
  | nil => rfl
  | cons c rest ih =>
    rw [run, ih]
    exact m.layout_perform c

theorem cellCount_run (calls : List Call) : (m.run calls).1.cellCount = m.cellCount := by
  induction calls generalizing m with
  | nil => rfl
  | cons c rest ih =>
    rw [run, ih]
    exact m.cellCount_perform c

/-- A reply in a run is that of the memory after the calls before. -/
theorem getElem?_replies (calls : List Call) (n : Nat) :
    (m.run calls).2[n]? = calls[n]?.map fun c => ((m.run (calls.take n)).1.perform c).2 := by
  induction calls generalizing m n with
  | nil => rfl
  | cons c rest ih =>
    cases n with
    | zero => rfl
    | succ n => exact ih (m.perform c).1 n

end Memory

/-! ## The last successful call -/

section Latest
variable {α β : Type} (tells : Call → Option α)

/-- What calls tell about a matter, of the last one that succeeded and tells anything. -/
def Call.latest (calls : List Call) (replies : List Reply) : Option α :=
  ((calls.zip replies).filterMap fun p =>
    if Reply.succeeded p.2 then tells p.1 else none).getLast?

theorem Call.latest_cons (c : Call) (reply : Reply) (calls : List Call) (replies : List Reply) :
    latest tells (c :: calls) (reply :: replies) =
      (latest tells calls replies).or (if Reply.succeeded reply then tells c else none) := by
  unfold latest
  rw [List.zip_cons_cons, List.filterMap_cons]
  cases h : (if Reply.succeeded reply then tells c else none) with
  | none => rw [Option.or_none]
  | some a =>
    rw [List.getLast?_cons]
    cases (List.filterMap _ (calls.zip replies)).getLast? <;> rfl

/-- The induction is on the calls, and the step is asked of every memory of this layout with as many
data cells, since these are the memories on the way. -/
theorem Memory.view_run (m : Memory) (calls : List Call) (view : Memory → β) (value : α → β)
    (hstep : ∀ (m' : Memory) (c : Call), m'.layout = m.layout → m'.cellCount = m.cellCount →
      c.refusal m' = none → view (c.effect m') = ((tells c).map value).getD (view m')) :
    view (m.run calls).1 =
      ((Call.latest tells calls (m.run calls).2).map value).getD (view m) := by
  induction calls generalizing m with
  | nil => rfl
  | cons c rest ih =>
    have hrest := ih (m.perform c).1 (by
      intro m' c' hlayout hcount
      exact hstep m' c' (hlayout.trans (m.layout_perform c))
        (hcount.trans (m.cellCount_perform c)))
    simp only [run, Call.latest_cons]
    rw [hrest]
    rcases m.perform_cases c with ⟨hfailed, hsame⟩ | ⟨hsucceeded, hrefusal, heffect⟩
    · rw [hfailed, hsame, if_neg Bool.false_ne_true, Option.or_none]
    · rw [hsucceeded, heffect, if_pos rfl, hstep m c rfl rfl hrefusal]
      cases Call.latest tells rest ((c.effect m).run rest).2 with
      | none => rfl
      | some a => rfl

end Latest

end CellMemory
