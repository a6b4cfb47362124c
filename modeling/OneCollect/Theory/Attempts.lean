import OneCollect.Theory.Iterate

/-! Calls tried one after another. A value is shown, an `Err` is passed over, and a panic is the end.
An iterator may be such a run with a state (`Runs`): its account is what is left to be tried. -/

namespace OneCollect.Theory

variable {State Item ι : Type}

/-- The items that are shown, and whether a panic comes after them. -/
structure Outcome (Item : Type) where
  items : List Item
  panics : Bool
  deriving DecidableEq, Repr

namespace Outcome

def cons (item : Item) (o : Outcome Item) : Outcome Item := { o with items := item :: o.items }

/-- What a list of calls shows. -/
def ofTries : List (Exec Item) → Outcome Item
  | [] => ⟨[], false⟩
  | .ok item :: rest => (ofTries rest).cons item
  | .error (.error _) :: rest => ofTries rest
  | .error .panic :: _ => ⟨[], true⟩

/-- What a call has shown that ends with `ending`. -/
def ofCall (items : List Item) : (ending : Exec Unit) → Outcome Item
  | .error .panic => ⟨items, true⟩
  | _ => ⟨items, false⟩

/-- One run after another: the second is not reached behind a panic. -/
def append (o o' : Outcome Item) : Outcome Item :=
  if o.panics then o else { o' with items := o.items ++ o'.items }

theorem ofTries_append (tries tries' : List (Exec Item)) :
    ofTries (tries ++ tries') = (ofTries tries).append (ofTries tries') := by
  induction tries with
  | nil => rfl
  | cons call tries ih =>
    match call with
    | .ok item =>
      rw [List.cons_append, ofTries, ofTries, ih, append, append, cons, cons]
      by_cases hp : (ofTries tries).panics = true
      · rw [if_pos hp, if_pos hp]
      · rw [if_neg hp, if_neg hp]
        rfl
    | .error (.error text) => exact ih
    | .error .panic => rfl

/-- Every item has a property, and no panic comes after them. -/
def Clear (o : Outcome Item) (P : Item → Prop) : Prop := o.panics = false ∧ ∀ item ∈ o.items, P item

theorem clear_cons {item : Item} {o : Outcome Item} {P : Item → Prop} :
    (o.cons item).Clear P ↔ P item ∧ o.Clear P := by
  unfold Clear cons
  rw [List.forall_mem_cons]
  exact and_left_comm

/-- No try panics, and those with a value have a good one. -/
theorem clear_ofTries {tries : List (Exec Item)} {P : Item → Prop} :
    (ofTries tries).Clear P ↔ ∀ call ∈ tries, Safely call P := by
  induction tries with
  | nil =>
    exact iff_of_true ⟨rfl, fun _ h => absurd h List.not_mem_nil⟩
      fun _ h => absurd h List.not_mem_nil
  | cons call tries ih =>
    rw [List.forall_mem_cons, ← ih]
    match call with
    | .ok item => exact clear_cons.trans (and_congr_left' safely_ok.symm)
    | .error (.error text) => exact (and_iff_right (safely_fail text)).symm
    | .error .panic => exact iff_of_false (fun h => nomatch h.1) fun h => not_safely_panicked h.1

end Outcome

/-! ## A loop with a callback -/

/-- The items passed on so far, and how the loop ends. -/
def tryEach (call : ι → Exec Item) : List ι → (passed : List Item) → List Item × Exec Unit
  | [], passed => (passed, .ok ())
  | i :: rest, passed =>
    match call i with
    | .ok item => tryEach call rest (passed ++ [item])
    | .error (.error _) => tryEach call rest passed
    | .error .panic => (passed, panicked)

/-- How a run of tries ends. -/
def endOf (panics : Bool) : Exec Unit := if panics then panicked else .ok ()

theorem tryEach_eq (call : ι → Exec Item) (is : List ι) (passed : List Item) :
    tryEach call is passed =
      (passed ++ (Outcome.ofTries (is.map call)).items,
        endOf (Outcome.ofTries (is.map call)).panics) := by
  induction is generalizing passed with
  | nil => simp [tryEach, Outcome.ofTries, endOf]
  | cons i is ih =>
    rw [tryEach, List.map_cons]
    match call i with
    | .ok item =>
      rw [Outcome.ofTries, Outcome.cons]
      dsimp only
      rw [ih, List.append_assoc]
      rfl
    | .error (.error text) => exact ih passed
    | .error .panic => simp [Outcome.ofTries, endOf]

/-! ## Iterators over tries -/

namespace Iterator

/-- The items up to the first call without one, or up to a panic. -/
inductive Runs (iterator : Iterator State Item) : State → Outcome Item → Prop where
  | stop {state after : State} (hnext : iterator.next state = .ok (false, after)) :
    Runs iterator state ⟨[], false⟩
  | panic {state : State} (hnext : iterator.next state = panicked) : Runs iterator state ⟨[], true⟩
  | step {state after : State} {o : Outcome Item} (hnext : iterator.next state = .ok (true, after))
    (hrest : Runs iterator after o) : Runs iterator state (o.cons (iterator.item after))

variable {iterator : Iterator State Item} {state : State} {o o' : Outcome Item}

theorem Runs.unique (h : iterator.Runs state o) (h' : iterator.Runs state o') : o = o' := by
  induction h generalizing o' with
  | stop hnext =>
    cases h' with
    | stop => rfl
    | panic hother => exact nomatch hnext.symm.trans hother
    | step hother => exact nomatch hnext.symm.trans hother
  | panic hnext =>
    cases h' with
    | stop hother => exact nomatch hnext.symm.trans hother
    | panic => rfl
    | step hother => exact nomatch hnext.symm.trans hother
  | step hnext _ ih =>
    cases h' with
    | stop hother => exact nomatch hnext.symm.trans hother
    | panic hother => exact nomatch hnext.symm.trans hother
    | step hother hrest =>
      obtain ⟨-, rfl⟩ := Prod.mk.inj (Except.ok.inj (hnext.symm.trans hother))
      rw [ih hrest]

/-- A call against what is left to be tried. -/
inductive Answers (iterator : Iterator State Item) (pending : State → List (Exec Item))
    (valid : State → Prop) (state : State) : Prop where
  | done (after : State) (hnext : iterator.next state = .ok (false, after)) (hvalid : valid after)
    (hpending : Outcome.ofTries (pending state) = ⟨[], false⟩)
    (hafter : Outcome.ofTries (pending after) = ⟨[], false⟩)
  | yield (after : State) (hnext : iterator.next state = .ok (true, after)) (hvalid : valid after)
    (hpending : Outcome.ofTries (pending state) =
      (Outcome.ofTries (pending after)).cons (iterator.item after))
  | panic (hnext : iterator.next state = panicked)
    (hpending : Outcome.ofTries (pending state) = ⟨[], true⟩)

/-- **A run shows what is left.** An iterator whose calls answer for what is left to be tried. -/
theorem runs_of_answers {pending : State → List (Exec Item)} {valid : State → Prop}
    (hanswers : ∀ state, valid state → iterator.Answers pending valid state)
    (hvalid : valid state) : iterator.Runs state (Outcome.ofTries (pending state)) := by
  generalize hitems : (Outcome.ofTries (pending state)).items = items
  induction items generalizing state with
  | nil =>
    cases hanswers state hvalid with
    | done after hnext _ hpending _ =>
      rw [hpending]
      exact .stop hnext
    | yield after hnext _ hpending =>
      rw [hpending] at hitems
      cases hitems
    | panic hnext hpending =>
      rw [hpending]
      exact .panic hnext
  | cons item items ih =>
    cases hanswers state hvalid with
    | done after hnext _ hpending _ =>
      rw [hpending] at hitems
      cases hitems
    | yield after hnext hafter hpending =>
      rw [hpending] at hitems ⊢
      exact .step hnext (ih hafter (List.cons.inj hitems).2)
    | panic hnext hpending =>
      rw [hpending] at hitems
      cases hitems

end Iterator

end OneCollect.Theory
