import Mathlib.Data.List.Forall2
import Mathlib.Data.List.Nodup
import Mathlib.Data.List.Sort

/-! Lists that go together: `List.Forall₂` at an index and for a member, and one element replaced;
a statement of all positions; a function that never fails; entries one for each key. -/

namespace OneCollect.Theory

variable {α β : Type} {R : α → β → Prop}

/-- A statement of all positions is one of the first and of those behind it. -/
theorem forall_getElem?_cons {x : α} {xs : List α} {P : Nat → α → Prop} :
    (∀ i a, (x :: xs)[i]? = some a → P i a) ↔
      P 0 x ∧ ∀ i a, xs[i]? = some a → P (i + 1) a := by
  constructor
  · intro h
    exact ⟨h 0 x rfl, fun i a hi => h (i + 1) a hi⟩
  · rintro ⟨hfirst, hrest⟩ i a hi
    cases i with
    | zero =>
      cases hi
      exact hfirst
    | succ i => exact hrest i a hi

theorem forall₂_getElem? {xs : List α} {ys : List β} (h : List.Forall₂ R xs ys) {i : Nat} {y : β}
    (hy : ys[i]? = some y) : ∃ x, xs[i]? = some x ∧ R x y := by
  induction h generalizing i with
  | nil => simp at hy
  | cons hxy _ ih =>
    cases i with
    | zero => exact ⟨_, rfl, by simp at hy; exact hy ▸ hxy⟩
    | succ i => exact ih hy

theorem forall₂_mem_right {xs : List α} {ys : List β} (h : List.Forall₂ R xs ys) {y : β}
    (hy : y ∈ ys) : ∃ x ∈ xs, R x y := by
  obtain ⟨i, hi⟩ := List.mem_iff_getElem?.mp hy
  obtain ⟨x, hx, hxy⟩ := forall₂_getElem? h hi
  exact ⟨x, List.mem_of_getElem? hx, hxy⟩

theorem forall₂_mem_left {xs : List α} {ys : List β} (h : List.Forall₂ R xs ys) {x : α}
    (hx : x ∈ xs) : ∃ y ∈ ys, R x y := by
  obtain ⟨y, hy, hxy⟩ := forall₂_mem_right h.flip hx
  exact ⟨y, hy, hxy⟩

theorem forall₂_takeWhile {p : α → Bool} {q : β → Bool}
    (hpq : ∀ x y, R x y → p x = q y) {xs : List α} {ys : List β} (h : List.Forall₂ R xs ys) :
    List.Forall₂ R (xs.takeWhile p) (ys.takeWhile q) := by
  induction h with
  | nil => exact .nil
  | cons hxy _ ih =>
    rw [List.takeWhile_cons, List.takeWhile_cons, hpq _ _ hxy]
    split
    · exact .cons hxy ih
    · exact .nil

/-- Lists that go together are sorted alike, by keys that are the same. -/
theorem forall₂_insertionSort {f : α → Nat} {g : β → Nat} (hkey : ∀ x y, R x y → f x = g y)
    {xs : List α} {ys : List β} (h : List.Forall₂ R xs ys) :
    List.Forall₂ R (xs.insertionSort fun a b => f a ≤ f b)
      (ys.insertionSort fun a b => g a ≤ g b) := by
  refine List.rel_foldr (fun x y hxy xs ys hall => ?_) .nil h
  induction hall with
  | nil => exact .cons hxy .nil
  | cons hx hall ih =>
    simp only [List.orderedInsert, hkey _ _ hxy, hkey _ _ hx]
    split
    · exact .cons hxy (.cons hx hall)
    · exact .cons hx ih

theorem forall₂_map_of_mem {f : α → β} {xs : List α} {ys : List β}
    (hR : ∀ x ∈ xs, ∀ y, R x y → y = f x) (h : List.Forall₂ R xs ys) : ys = xs.map f := by
  induction h with
  | nil => rfl
  | cons hxy _ ih =>
    obtain ⟨hhead, htail⟩ := List.forall_mem_cons.mp hR
    rw [List.map_cons, hhead _ hxy, ih htail]

theorem forall₂_set {xs : List α} {ys : List β} (h : List.Forall₂ R xs ys) {x : α} {y : β}
    (hxy : R x y) (i : Nat) : List.Forall₂ R (xs.set i x) (ys.set i y) := by
  induction h generalizing i with
  | nil => exact .nil
  | cons hhead htail ih =>
    cases i with
    | zero => exact .cons hxy htail
    | succ i => exact .cons hhead (ih i)

theorem forall₂_map_left {γ : Type} {f : γ → α} {xs : List γ} {ys : List β}
    (h : List.Forall₂ (fun x y => R (f x) y) xs ys) : List.Forall₂ R (xs.map f) ys := by
  induction h with
  | nil => exact .nil
  | cons hhead _ ih => exact .cons hhead ih

/-- Two elements of a list that is pairwise related. -/
theorem pairwise_getElem? {R : α → α → Prop} {xs : List α} (h : xs.Pairwise R) {i j : Nat}
    {x y : α} (hij : i < j) (hx : xs[i]? = some x) (hy : xs[j]? = some y) : R x y := by
  obtain ⟨hi, rfl⟩ := List.getElem?_eq_some_iff.mp hx
  obtain ⟨hj, rfl⟩ := List.getElem?_eq_some_iff.mp hy
  exact List.pairwise_iff_getElem.mp h i j hi hj hij

theorem set_of_getElem? {xs : List α} {i : Nat} {x : α} (h : xs[i]? = some x) : xs.set i x = xs := by
  obtain ⟨hi, rfl⟩ := List.getElem?_eq_some_iff.mp h
  exact List.set_getElem_self hi

theorem mapM_eq_some_map {xs : List α} {f : α → Option β} {g : α → β}
    (h : ∀ x ∈ xs, f x = some (g x)) : xs.mapM f = some (xs.map g) := by
  induction xs with
  | nil => rfl
  | cons x xs ih =>
    obtain ⟨hx, h⟩ := List.forall_mem_cons.mp h
    rw [List.mapM_cons, hx, ih h]
    rfl

/-- Fallible calls one after another that all have a value. -/
theorem mapM_eq_ok_iff {ε : Type} {f : α → Except ε β} {xs : List α} {ys : List β} :
    xs.mapM f = .ok ys ↔ List.Forall₂ (fun x y => f x = .ok y) xs ys := by
  induction xs generalizing ys with
  | nil =>
    rw [List.mapM_nil, List.forall₂_nil_left_iff]
    exact ⟨fun h => (Except.ok.inj h).symm, fun h => congrArg _ h.symm⟩
  | cons x xs ih =>
    rw [List.mapM_cons, List.forall₂_cons_left_iff]
    cases hx : f x with
    | error fault => simp [bind, Except.bind]
    | ok y =>
      constructor
      · intro h
        cases hxs : xs.mapM f with
        | error fault =>
          rw [hxs] at h
          cases h
        | ok rest =>
          rw [hxs] at h
          cases h
          exact ⟨y, rest, rfl, ih.mp hxs, rfl⟩
      · rintro ⟨y', rest, hy, hrest, rfl⟩
        cases hy
        rw [ih.mpr hrest]
        rfl

/-! ## Entries one for each key -/

/-- The entry of a key. -/
theorem find?_map_key [DecidableEq α] {xs : List α} {f : α → β} {key : β → α}
    (hkey : ∀ y, key (f y) = y) {x : α} (hx : x ∈ xs) :
    (xs.map f).find? (fun a => key a = x) = some (f x) := by
  have hsame : ((fun a => decide (key a = x)) ∘ f) = fun y => decide (y = x) := by
    funext y
    rw [Function.comp_apply, hkey]
  rw [List.find?_map, hsame]
  have hfind : xs.find? (fun y => decide (y = x)) = some x := by
    have hsome : (xs.find? fun y => decide (y = x)).isSome :=
      List.find?_isSome.mpr ⟨x, hx, by simp⟩
    obtain ⟨y, hy⟩ := Option.isSome_iff_exists.mp hsome
    have heq : y = x := by simpa using List.find?_some hy
    rw [hy, heq]
  rw [hfind, Option.map_some]

theorem count_map_key [DecidableEq α] {xs : List α} {f : α → β} {key : β → α}
    (hkey : ∀ y, key (f y) = y) (hxs : xs.Nodup) {x : α} (hx : x ∈ xs) :
    ((xs.map f).map key).count x = 1 := by
  have hsame : key ∘ f = id := funext hkey
  rw [List.map_map, hsame, List.map_id]
  exact List.count_eq_one_of_mem hxs hx

end OneCollect.Theory
