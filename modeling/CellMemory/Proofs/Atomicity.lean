import CellMemory.Program
import CellMemory.Proofs.Run

/-! # Steps that fail

A step that fails leaves every name with the memory it had, if it had one. The failing steps of a
program can therefore be left out of it: neither the memories at its end nor the replies to the other
steps depend on them.

* `Slots.step_failed`: one step of a program.
* `Slots.step_congr`: a step depends on nothing but the memories kept under each name.
* `Slots.succeeding`: the steps of a program that succeed.
* `Slots.run_succeeding`: a program and its succeeding steps, run side by side.
* `Slots.failures_atomic`: what follows for whole programs.
-/

namespace CellMemory
set_option autoImplicit false

namespace Slots

variable (slots : Slots)

/-! ## One step -/

theorem keep_failed (slot : String) (made : Traced (Except Failure Memory)) (failure : Failure)
    (h : (slots.keep slot made).2.value = .error failure) : (slots.keep slot made).1 = slots := by
  unfold keep at h ⊢
  cases hmade : made.value with
  | ok m =>
    rw [hmade] at h
    cases h
  | error failure' => rfl

theorem insert_equiv (slot : String) (m : Memory) (h : slots[slot]? = some m) :
    (slots.insert slot m).Equiv slots := by
  apply Std.HashMap.Equiv.of_forall_getElem?_eq
  intro name
  rw [Std.HashMap.getElem?_insert]
  by_cases hname : slot = name
  · rw [if_pos (beq_iff_eq.2 hname), ← hname, h]
  · rw [if_neg (mt beq_iff_eq.1 hname)]

theorem step_failed (s : Step) (failure : Failure) (h : (slots.step s).2.value = .error failure) :
    (slots.step s).1.Equiv slots := by
  cases s with
  | allocate slot cellCount layout =>
    have hkeep : (slots.step (.allocate slot cellCount layout)).1 = slots :=
      slots.keep_failed slot _ failure h
    rw [hkeep]
  | adopt slot bytes layout =>
    have hkeep : (slots.step (.adopt slot bytes layout)).1 = slots :=
      slots.keep_failed slot _ failure h
    rw [hkeep]
  | release slot =>
    cases hslot : slots[slot]? with
    | none =>
      simp only [step, hslot]
      exact .refl slots
    | some m =>
      simp only [step, hslot] at h
      cases h
  | duplicate slot target =>
    cases hslot : slots[slot]? with
    | none =>
      simp only [step, hslot]
      exact .refl slots
    | some m =>
      simp only [step, hslot] at h
      cases h
  | compare slot other =>
    simp only [step]
    split <;> exact .refl slots
  | call slot c =>
    cases hslot : slots[slot]? with
    | none =>
      simp only [step, hslot]
      exact .refl slots
    | some m =>
      simp only [step, hslot] at h ⊢
      rw [m.perform_failed c failure h]
      exact slots.insert_equiv slot m hslot

/-! ## Steps on equal memories -/

section Congruence
variable {slots} {slots' : Slots}

theorem keep_congr (h : slots.Equiv slots') (slot : String) (made : Traced (Except Failure Memory)) :
    (slots.keep slot made).1.Equiv (slots'.keep slot made).1 ∧
      (slots.keep slot made).2 = (slots'.keep slot made).2 := by
  unfold keep
  cases made.value with
  | ok m => exact ⟨h.insert slot m, rfl⟩
  | error failure => exact ⟨h, rfl⟩

theorem step_congr (h : slots.Equiv slots') (s : Step) :
    (slots.step s).1.Equiv (slots'.step s).1 ∧ (slots.step s).2 = (slots'.step s).2 := by
  cases s with
  | allocate slot cellCount layout => exact keep_congr h slot _
  | adopt slot bytes layout => exact keep_congr h slot _
  | release slot =>
    simp only [step, h.getElem?_eq]
    cases slots'[slot]? with
    | none => exact ⟨h, rfl⟩
    | some m => exact ⟨h.erase slot, rfl⟩
  | duplicate slot target =>
    simp only [step, h.getElem?_eq]
    cases slots'[slot]? with
    | none => exact ⟨h, rfl⟩
    | some m => exact ⟨h.insert target m, rfl⟩
  | compare slot other =>
    simp only [step, h.getElem?_eq]
    cases slots'[slot]? with
    | none => exact ⟨h, rfl⟩
    | some m =>
      cases slots'[other]? with
      | none => exact ⟨h, rfl⟩
      | some m' => exact ⟨h, rfl⟩
  | call slot c =>
    simp only [step, h.getElem?_eq]
    cases slots'[slot]? with
    | none => exact ⟨h, rfl⟩
    | some m => exact ⟨h.insert slot _, rfl⟩

end Congruence

/-! ## Programs -/

theorem run_append (xs ys : List Step) :
    slots.run (xs ++ ys) =
      (((slots.run xs).1.run ys).1, (slots.run xs).2 ++ ((slots.run xs).1.run ys).2) := by
  induction xs generalizing slots with
  | nil => rfl
  | cons s xs ih => simp only [List.cons_append, run, ih]

theorem length_replies (steps : List Step) : (slots.run steps).2.length = steps.length := by
  induction steps generalizing slots with
  | nil => rfl
  | cons s rest ih => simp only [run, List.length_cons, ih]

/-- The steps that succeed when a program is run. -/
def succeeding (steps : List Step) : List Step :=
  ((steps.zip (slots.run steps).2).filter fun p => Reply.succeeded p.2).map Prod.fst

theorem succeeding_cons (s : Step) (rest : List Step) :
    slots.succeeding (s :: rest) =
      if Reply.succeeded (slots.step s).2 then s :: succeeding (slots.step s).1 rest
      else succeeding (slots.step s).1 rest := by
  unfold succeeding
  simp only [run, List.zip_cons_cons, List.filter_cons]
  split <;> rfl

/-- The invariant of the two runs is that they keep equal memories: a succeeding step is made in
both, and a failing one changes nothing in the first. -/
theorem run_succeeding (slots' : Slots) (h : slots.Equiv slots') (steps : List Step) :
    (slots.run steps).1.Equiv (slots'.run (slots.succeeding steps)).1 ∧
      (slots'.run (slots.succeeding steps)).2 = (slots.run steps).2.filter Reply.succeeded := by
  induction steps generalizing slots slots' with
  | nil => exact ⟨h, rfl⟩
  | cons s rest ih =>
    rw [succeeding_cons]
    cases hvalue : (slots.step s).2.value with
    | ok answer =>
      have hsucceeded : Reply.succeeded (slots.step s).2 = true := by
        rw [Reply.succeeded, hvalue]
      obtain ⟨hslots, hreply⟩ := step_congr h s
      obtain ⟨hlast, hreplies⟩ := ih (slots.step s).1 (slots'.step s).1 hslots
      rw [if_pos hsucceeded]
      refine ⟨hlast, ?_⟩
      simp only [run, List.filter_cons, hsucceeded, if_true, hreplies, ← hreply]
    | error failure =>
      have hfailed : Reply.succeeded (slots.step s).2 = false := by
        rw [Reply.succeeded, hvalue]
      have hslots := (slots.step_failed s failure hvalue).trans h
      obtain ⟨hlast, hreplies⟩ := ih (slots.step s).1 slots' hslots
      rw [if_neg (by rw [hfailed]; decide)]
      refine ⟨hlast, ?_⟩
      simp only [run, List.filter_cons, hfailed, hreplies]
      rfl

/-- A step that fails leaves what is kept under every name as it was, wherever in a program it
stands. Without the steps that fail, a program ends with the same memories under the same names, and
the other steps get the same replies. -/
theorem failures_atomic (steps : List Step) :
    (∀ i reply failure, (slots.run steps).2[i]? = some reply → reply.value = .error failure →
      ∀ slot : String, (slots.run (steps.take (i + 1))).1[slot]? =
        (slots.run (steps.take i)).1[slot]?) ∧
    (∀ slot : String,
      (slots.run (slots.succeeding steps)).1[slot]? = (slots.run steps).1[slot]?) ∧
    (slots.run (slots.succeeding steps)).2 = (slots.run steps).2.filter Reply.succeeded := by
  obtain ⟨hlast, hreplies⟩ := slots.run_succeeding slots (.refl slots) steps
  refine ⟨?_, fun slot => hlast.symm.getElem?_eq, hreplies⟩
  intro i reply failure hreply hvalue slot
  have hi : i < steps.length := by
    obtain ⟨hi, -⟩ := List.getElem?_eq_some_iff.1 hreply
    rw [length_replies] at hi
    exact hi
  have hsplit : steps = steps.take i ++ steps[i] :: steps.drop (i + 1) := by
    rw [← List.drop_eq_getElem_cons hi, List.take_append_drop]
  have hbefore : (slots.run (steps.take i)).2.length = i := by
    rw [length_replies, List.length_take, Nat.min_eq_left (Nat.le_of_lt hi)]
  have hstep : ((slots.run (steps.take i)).1.step steps[i]).2 = reply := by
    rw [hsplit, run_append, List.getElem?_append_right (by omega), hbefore, Nat.sub_self] at hreply
    exact Option.some.inj hreply
  rw [List.take_succ_eq_append_getElem hi, run_append]
  rw [← hstep] at hvalue
  exact (step_failed _ _ failure hvalue).getElem?_eq

/-- The second row of a batch is too long: the first row is not written either. -/
theorem failures_atomic_late_row :
    let slots : Slots := ∅
    let steps : List Step :=
      [.allocate "m" 2 default, .call "m" (.writeBatch .raw 0 [[1], [1, 2, 3, 4, 5]])]
    (slots.run steps).2[1]? = some { value := .error (.fault (.oversizedCell 5)) } ∧
      ∀ slot : String, (slots.run (steps.take 2)).1[slot]? = (slots.run (steps.take 1)).1[slot]? := by
  intro slots steps
  have hreply : (slots.run steps).2[1]? = some { value := .error (.fault (.oversizedCell 5)) } := by
    obtain ⟨m, hm⟩ : ∃ m, (Memory.allocate 2 default).value = .ok m := ⟨_, rfl⟩
    have hperform := m.perform_refused (.writeBatch .raw 0 [[1], [1, 2, 3, 4, 5]]) _ rfl
    simp only [steps, run, step, keep, hm, Std.HashMap.getElem?_insert_self, hperform]
    rfl
  exact ⟨hreply, (slots.failures_atomic steps).1 1 _ _ hreply rfl⟩

end Slots

end CellMemory
