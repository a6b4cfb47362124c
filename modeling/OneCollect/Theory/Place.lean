import Mathlib.Data.List.TakeDrop
import Mathlib.Logic.Function.Basic

/-! A place that holds the last thing that was put into it, until it is taken out.

`put n` is what the step `n` puts in, and `takes n x` says that the step `n` takes out `x`, should
it be there. What is in the place is then told by the steps alone (`Place.eq_some_iff`). -/

namespace OneCollect.Theory

variable {α : Type}

/-- The contents of a place step by step. -/
structure Place (put : Nat → Option α) (takes : Nat → α → Prop) (place : Nat → Option α) :
    Prop where
  start : place 0 = none
  filled : ∀ n x, put n = some x → place (n + 1) = some x
  taken : ∀ n x, put n = none → place n = some x → takes n x → place (n + 1) = none
  kept : ∀ n x, put n = none → place n = some x → ¬ takes n x → place (n + 1) = some x
  bare : ∀ n, put n = none → place n = none → place (n + 1) = none

/-- **Contents.** A place holds what was put in at some step and neither replaced nor taken out
since. -/
theorem Place.eq_some_iff {put : Nat → Option α} {takes : Nat → α → Prop}
    {place : Nat → Option α} (h : Place put takes place) {n : Nat} {x : α} :
    place n = some x ↔
      ∃ i < n, put i = some x ∧ ∀ k, i < k → k < n → put k = none ∧ ¬ takes k x := by
  induction n generalizing x with
  | zero => simp [h.start]
  | succ n ih =>
    cases hput : put n with
    | some y =>
      rw [h.filled n y hput]
      constructor
      · rintro hxy
        exact ⟨n, Nat.lt_succ_self n, hput.trans hxy, fun k hik hkn => by omega⟩
      · rintro ⟨i, hi, hx, hrest⟩
        rcases Nat.lt_or_ge i n with hlt | hge
        · have hnone := (hrest n hlt (Nat.lt_succ_self n)).1
          rw [hput] at hnone
          cases hnone
        · obtain rfl : i = n := by omega
          exact hput.symm.trans hx
    | none =>
      have hprevious : place (n + 1) = some x ↔ place n = some x ∧ ¬ takes n x := by
        cases hplace : place n with
        | none => simp [h.bare n hput hplace]
        | some y =>
          by_cases htakes : takes n y
          · rw [h.taken n y hput hplace htakes]
            refine ⟨fun hnone => (by cases hnone), fun hand => ?_⟩
            obtain rfl := Option.some.inj hand.1
            exact absurd htakes hand.2
          · rw [h.kept n y hput hplace htakes]
            refine ⟨fun hxy => ⟨hxy, ?_⟩, fun hand => hand.1⟩
            obtain rfl := Option.some.inj hxy
            exact htakes
      rw [hprevious, ih]
      constructor
      · rintro ⟨⟨i, hi, hx, hrest⟩, htakes⟩
        refine ⟨i, Nat.lt_succ_of_lt hi, hx, fun k hik hkn => ?_⟩
        rcases Nat.lt_or_ge k n with hlt | hge
        · exact hrest k hik hlt
        · obtain rfl : k = n := by omega
          exact ⟨hput, htakes⟩
      · rintro ⟨i, hi, hx, hrest⟩
        have hne : i ≠ n := by
          rintro rfl
          rw [hput] at hx
          cases hx
        have hlt : i < n := by omega
        exact ⟨⟨i, hlt, hx, fun k hik hkn => hrest k hik (Nat.lt_succ_of_lt hkn)⟩,
          (hrest n hlt (Nat.lt_succ_self n)).2⟩

/-- The steps of a place in one equation. -/
theorem Place.of_step {put : Nat → Option α} {takes : Nat → α → Bool} {place : Nat → Option α}
    (hstart : place 0 = none)
    (hstep : ∀ n, place (n + 1) = (put n).or ((place n).filter fun x => !takes n x)) :
    Place put (fun n x => takes n x = true) place where
  start := hstart
  filled n x hput := by rw [hstep, hput, Option.some_or]
  taken n x hput hplace htakes := by
    rw [hstep, hput, hplace, Option.none_or]
    simp [Option.filter, htakes]
  kept n x hput hplace htakes := by
    rw [hstep, hput, hplace, Option.none_or]
    simp [Option.filter, htakes]
  bare n hput hplace := by
    rw [hstep, hput, hplace]
    rfl

/-- What can have been put in at one step only, and is not taken out, is in the place until the
next thing is put in. -/
theorem Place.eq_some_iff_of_only {put : Nat → Option α} {takes : Nat → α → Prop}
    {place : Nat → Option α} (h : Place put takes place) {i n : Nat} {x : α} (hi : i < n)
    (honly : ∀ i' < n, put i' = some x → i' = i)
    (htakes : ∀ k, i < k → k < n → ¬ takes k x) :
    place n = some x ↔ put i = some x ∧ ∀ k, i < k → k < n → put k = none := by
  rw [h.eq_some_iff]
  constructor
  · rintro ⟨i', hi', hput, hrest⟩
    obtain rfl := honly i' hi' hput
    exact ⟨hput, fun k hik hkn => (hrest k hik hkn).1⟩
  · rintro ⟨hput, hrest⟩
    exact ⟨i, hi, hput, fun k hik hkn => ⟨hrest k hik hkn, htakes k hik hkn⟩⟩

/-- A step that takes nothing out. -/
theorem filter_keep (place : Option α) : (place.filter fun _ => true) = place := by
  cases place <;> rfl

/-- A map without the entry of a key, should the entry be of a kind, as a filter. -/
theorem filter_of_update_none {κ : Type} [DecidableEq κ] {map after : κ → Option α} {key : κ}
    {kind : α → Bool}
    (hfound : ∀ x, map key = some x → kind x = true → after = Function.update map key none)
    (hnone : (∀ x, map key = some x → kind x = false) → after = map) (other : κ) :
    after other = (map other).filter fun x => !(decide (key = other) && kind x) := by
  by_cases hkey : key = other
  · subst hkey
    cases hentry : map key with
    | none =>
      rw [hnone fun x hx => (by rw [hentry] at hx; cases hx), hentry]
      rfl
    | some x =>
      cases hkind : kind x with
      | true =>
        rw [hfound x hentry hkind, Function.update_self]
        simp [Option.filter, hkind]
      | false =>
        have hall : ∀ y, map key = some y → kind y = false := by
          intro y hy
          obtain rfl := Option.some.inj (hentry.symm.trans hy)
          exact hkind
        rw [hnone hall, hentry]
        simp [Option.filter, hkind]
  · have hsame : after other = map other := by
      by_cases hfind : ∃ x, map key = some x ∧ kind x = true
      · obtain ⟨x, hentry, hkind⟩ := hfind
        rw [hfound x hentry hkind, Function.update_of_ne (Ne.symm hkey)]
      · rw [hnone fun x hx => by
          rw [Bool.eq_false_iff]
          exact fun hkind => hfind ⟨x, hx, hkind⟩]
    rw [hsame]
    cases map other <;> simp [hkey, Option.filter]

end OneCollect.Theory
