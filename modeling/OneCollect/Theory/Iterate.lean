import OneCollect.Theory.Checked

/-! Iterators with a state. A call of `next` says whether there is one more item, which the state
then shows. What is left to come is an invariant of the calls (`Leaves`); it gives both the items up
to the end (`Leaves.iterates`) and those of some calls (`Leaves.calls`). -/

namespace OneCollect.Theory

structure Iterator (State Item : Type) where
  next : State → Exec (Bool × State)
  item : State → Item

namespace Iterator

variable {State Item : Type} {iterator : Iterator State Item} {state : State} {items : List Item}

/-- The items up to the first call that has none. -/
inductive Iterates (iterator : Iterator State Item) : State → List Item → Prop where
  | stop {state after : State} (hnext : iterator.next state = .ok (false, after)) :
    Iterates iterator state []
  | step {state after : State} {items : List Item} (hnext : iterator.next state = .ok (true, after))
    (hrest : Iterates iterator after items) : Iterates iterator state (iterator.item after :: items)

/-- Some calls in turn, and the items that they show. -/
def calls (iterator : Iterator State Item) : Nat → State → Exec (List Item × State)
  | 0, state => .ok ([], state)
  | n + 1, state => do
    let (more, state) ← iterator.next state
    let (items, last) ← calls iterator n state
    .ok (if more then iterator.item state :: items else items, last)

/-- The items are those of the state. -/
theorem Iterates.unique {others : List Item} (h : iterator.Iterates state items)
    (hothers : iterator.Iterates state others) : items = others := by
  induction h generalizing others with
  | stop hnext =>
    cases hothers with
    | stop => rfl
    | step hother => exact nomatch hnext.symm.trans hother
  | step hnext _ ih =>
    cases hothers with
    | stop hother => exact nomatch hnext.symm.trans hother
    | step hother hrest =>
      obtain ⟨-, rfl⟩ := Prod.mk.inj (Except.ok.inj (hnext.symm.trans hother))
      rw [ih hrest]

theorem iterates_of_stop {after : State} (hnext : iterator.next state = .ok (false, after)) :
    iterator.Iterates state items ↔ items = [] := by
  constructor
  · intro h
    cases h with
    | stop => rfl
    | step hmore => exact nomatch hnext.symm.trans hmore
  · rintro rfl
    exact .stop hnext

theorem iterates_of_step {after : State} (hnext : iterator.next state = .ok (true, after)) :
    iterator.Iterates state items ↔
      ∃ rest, iterator.Iterates after rest ∧ iterator.item after :: rest = items := by
  constructor
  · intro h
    cases h with
    | stop hstop => exact nomatch hnext.symm.trans hstop
    | step hmore hrest =>
      obtain ⟨-, rfl⟩ := Prod.mk.inj (Except.ok.inj (hnext.symm.trans hmore))
      exact ⟨_, hrest, rfl⟩
  · rintro ⟨rest, hrest, rfl⟩
    exact .step hnext hrest

theorem not_iterates_of_error {fault : Fault} (hnext : iterator.next state = .error fault) :
    ¬ iterator.Iterates state items := by
  intro h
  cases h with
  | stop hstop => exact nomatch hnext.symm.trans hstop
  | step hmore => exact nomatch hnext.symm.trans hmore

/-- An iterator that shows what another one does, in another form. -/
theorem iterates_map {Outer Shown : Type} {outer : Iterator Outer Shown} {wrap : State → Outer}
    {form : Item → Shown}
    (hnext : ∀ s, outer.next (wrap s) = iterator.next s >>= fun r => .ok (r.1, wrap r.2))
    (hitem : ∀ s, outer.item (wrap s) = form (iterator.item s)) {shown : List Shown} :
    outer.Iterates (wrap state) shown ↔ ∃ items, iterator.Iterates state items ∧
      items.map form = shown := by
  constructor
  · intro h
    generalize hwrapped : wrap state = wrapped at h
    induction h generalizing state with
    | stop hstop =>
      subst hwrapped
      rw [hnext] at hstop
      obtain ⟨⟨more, after⟩, hinner, hstop⟩ := bind_eq_ok.mp hstop
      cases hstop
      exact ⟨[], .stop hinner, rfl⟩
    | step hstep _ ih =>
      subst hwrapped
      rw [hnext] at hstep
      obtain ⟨⟨more, after⟩, hinner, hstep⟩ := bind_eq_ok.mp hstep
      cases hstep
      obtain ⟨items, hitems, rfl⟩ := ih rfl
      exact ⟨_, .step hinner hitems, by simp [hitem]⟩
  · rintro ⟨items, hitems, rfl⟩
    induction hitems with
    | @stop state after hstop =>
      have hdone := hnext state
      rw [hstop] at hdone
      exact .stop hdone
    | @step state after items hstep _ ih =>
      have hmore := hnext state
      rw [hstep] at hmore
      rw [List.map_cons, ← hitem]
      exact .step hmore ih

/-- What is left from a state on: a call shows the first item of it, and without one it stops. -/
structure Leaves (iterator : Iterator State Item) (left : State → List Item → Prop) : Prop where
  stop {state : State} (h : left state []) :
    ∃ after, iterator.next state = .ok (false, after) ∧ left after []
  step {state : State} {item : Item} {items : List Item} (h : left state (item :: items)) :
    ∃ after, iterator.next state = .ok (true, after) ∧ iterator.item after = item ∧ left after items

variable {left : State → List Item → Prop}

theorem Leaves.iterates (h : iterator.Leaves left) (hleft : left state items) :
    iterator.Iterates state items := by
  induction items generalizing state with
  | nil =>
    obtain ⟨after, hnext, -⟩ := h.stop hleft
    exact .stop hnext
  | cons item items ih =>
    obtain ⟨after, hnext, rfl, hrest⟩ := h.step hleft
    exact .step hnext (ih hrest)

theorem Leaves.calls (h : iterator.Leaves left) (hleft : left state items) (n : Nat) :
    ∃ after, iterator.calls n state = .ok (items.take n, after) ∧ left after (items.drop n) := by
  induction n generalizing state items with
  | zero => exact ⟨state, rfl, hleft⟩
  | succ n ih =>
    cases items with
    | nil =>
      obtain ⟨next, hnext, hrest⟩ := h.stop hleft
      obtain ⟨after, hcalls, hafter⟩ := ih hrest
      rw [List.take_nil] at hcalls
      rw [List.drop_nil] at hafter
      refine ⟨after, ?_, hafter⟩
      rw [Iterator.calls, hnext, ok_bind]
      dsimp only
      rw [hcalls, List.take_nil]
      rfl
    | cons item items =>
      obtain ⟨next, hnext, hitem, hrest⟩ := h.step hleft
      obtain ⟨after, hcalls, hafter⟩ := ih hrest
      refine ⟨after, ?_, hafter⟩
      rw [Iterator.calls, hnext, ok_bind]
      dsimp only
      rw [hcalls, ← hitem]
      rfl

end Iterator

end OneCollect.Theory
