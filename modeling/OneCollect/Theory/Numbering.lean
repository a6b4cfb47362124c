import Mathlib.Data.List.Nodup
import Mathlib.Data.List.Basic

/-! Numbering the values of a sequence in the order they are first seen. The number of a value
is its position in the list of distinct values so far, and later values do not change it. -/

namespace OneCollect.Theory

variable {α : Type} [DecidableEq α]

/-- One more value: it is appended if it is new. -/
def insertNew (items : List α) (x : α) : List α := if x ∈ items then items else items ++ [x]

/-- The values of a sequence in the order they are first seen. -/
def distinct (xs : List α) : List α := xs.foldl insertNew []

theorem insertNew_of_mem {items : List α} {x : α} (h : x ∈ items) : insertNew items x = items :=
  if_pos h

theorem insertNew_of_not_mem {items : List α} {x : α} (h : x ∉ items) :
    insertNew items x = items ++ [x] :=
  if_neg h

theorem prefix_insertNew (items : List α) (x : α) : items <+: insertNew items x := by
  by_cases h : x ∈ items
  · exact (insertNew_of_mem h).symm ▸ List.prefix_refl items
  · exact (insertNew_of_not_mem h).symm ▸ List.prefix_append items [x]

theorem mem_insertNew {items : List α} {x y : α} : y ∈ insertNew items x ↔ y ∈ items ∨ y = x := by
  by_cases h : x ∈ items
  · rw [insertNew_of_mem h]
    constructor
    · exact Or.inl
    · rintro (hy | rfl)
      · exact hy
      · exact h
  · rw [insertNew_of_not_mem h, List.mem_append, List.mem_singleton]

theorem nodup_insertNew {items : List α} (h : items.Nodup) (x : α) :
    (insertNew items x).Nodup := by
  by_cases hx : x ∈ items
  · rw [insertNew_of_mem hx]
    exact h
  · rw [insertNew_of_not_mem hx]
    exact List.nodup_append.mpr
      ⟨h, List.nodup_singleton x, fun a ha b hb hab => hx (by
        rw [← List.mem_singleton.mp hb, ← hab]
        exact ha)⟩

theorem prefix_foldl_insertNew (xs items : List α) : items <+: xs.foldl insertNew items := by
  induction xs generalizing items with
  | nil => exact List.prefix_refl items
  | cons x xs ih => exact (prefix_insertNew items x).trans (ih _)

theorem mem_foldl_insertNew {xs items : List α} {y : α} :
    y ∈ xs.foldl insertNew items ↔ y ∈ items ∨ y ∈ xs := by
  induction xs generalizing items with
  | nil => simp
  | cons x xs ih => rw [List.foldl_cons, ih, mem_insertNew, List.mem_cons, or_assoc]

theorem mem_distinct {xs : List α} {y : α} : y ∈ distinct xs ↔ y ∈ xs := by
  rw [distinct, mem_foldl_insertNew]
  simp

theorem nodup_foldl_insertNew {items : List α} (h : items.Nodup) (xs : List α) :
    (xs.foldl insertNew items).Nodup := by
  induction xs generalizing items with
  | nil => exact h
  | cons x xs ih => exact ih (nodup_insertNew h x)

theorem nodup_distinct (xs : List α) : (distinct xs).Nodup :=
  nodup_foldl_insertNew List.nodup_nil xs

theorem foldl_insertNew_of_nodup {items xs : List α} (h : (items ++ xs).Nodup) :
    xs.foldl insertNew items = items ++ xs := by
  induction xs generalizing items with
  | nil => exact (List.append_nil items).symm
  | cons x xs ih =>
    have hx : x ∉ items := fun hmem =>
      (List.nodup_append.mp h).2.2 x hmem x List.mem_cons_self rfl
    have hsplit : items ++ x :: xs = (items ++ [x]) ++ xs := by simp
    rw [List.foldl_cons, insertNew_of_not_mem hx, ih (hsplit ▸ h), hsplit]

/-- Distinct values are left as they are. -/
theorem distinct_of_nodup {xs : List α} (h : xs.Nodup) : distinct xs = xs :=
  foldl_insertNew_of_nodup h

theorem distinct_append (xs ys : List α) :
    distinct (xs ++ ys) = ys.foldl insertNew (distinct xs) :=
  List.foldl_append ..

/-- The number of a value: its position. -/
def numberOf (items : List α) (x : α) : Nat := items.idxOf x

theorem getElem?_numberOf {items : List α} {x : α} (h : x ∈ items) :
    items[numberOf items x]? = some x :=
  List.getElem?_idxOf h

theorem numberOf_eq {items : List α} {x : α} {i : Nat} (h : items.Nodup)
    (hi : items[i]? = some x) : numberOf items x = i := by
  obtain ⟨hlt, rfl⟩ := List.getElem?_eq_some_iff.mp hi
  exact List.Nodup.idxOf_getElem h i hlt

theorem numberOf_append_new {items : List α} {x : α} (h : x ∉ items) :
    numberOf (items ++ [x]) x = items.length := by
  rw [numberOf, List.idxOf_append_of_notMem h, List.idxOf_cons_self, Nat.add_zero]

/-- Later values keep the number of a value. -/
theorem numberOf_extend {items items' : List α} {x : α} (h : items <+: items')
    (hx : x ∈ items) : numberOf items' x = numberOf items x := by
  obtain ⟨rest, rfl⟩ := h
  exact List.idxOf_append_of_mem hx

/-- A value that is new gets the number of distinct values before it. -/
theorem numberOf_distinct_of_first {before after : List α} {x : α} (h : x ∉ before) :
    numberOf (distinct (before ++ x :: after)) x = (distinct before).length := by
  have hnew : x ∉ distinct before := mt mem_distinct.mp h
  have hmem : x ∈ distinct before ++ [x] := List.mem_append_right _ (List.mem_singleton.mpr rfl)
  rw [distinct_append, List.foldl_cons, insertNew_of_not_mem hnew,
    numberOf_extend (prefix_foldl_insertNew after _) hmem, numberOf_append_new hnew]

/-- Distinct values have distinct numbers. -/
theorem numberOf_inj {items : List α} {x y : α} (hx : x ∈ items) (hy : y ∈ items) :
    numberOf items x = numberOf items y ↔ x = y := by
  constructor
  · intro h
    have hget := getElem?_numberOf hx
    rw [h, getElem?_numberOf hy] at hget
    exact (Option.some.inj hget).symm
  · rintro rfl
    rfl

/-! ## Numbers below a bound

A number may be kept modulo `m`. Every number of a table is kept as it is exactly when the table
has no more than `m` values. -/

section Truncated

variable {items : List α} {m : Nat}

theorem numberOf_lt {x : α} (hx : x ∈ items) : numberOf items x < items.length :=
  List.idxOf_lt_length_of_mem hx

theorem numberOf_mod {x : α} (hle : items.length ≤ m) (hx : x ∈ items) :
    numberOf items x % m = numberOf items x :=
  Nat.mod_eq_of_lt (Nat.lt_of_lt_of_le (numberOf_lt hx) hle)

/-- The value whose number is `m` would be found under the number 0. -/
theorem length_le_of_numberOf_mod (h : items.Nodup) (hm : 0 < m)
    (hlast : ∀ x, items[m]? = some x → items[numberOf items x % m]? = some x) :
    items.length ≤ m := by
  by_contra hlt
  have hget : items[m]? = some (items.get ⟨m, by omega⟩) := List.getElem?_eq_getElem (by omega)
  have hfirst := hlast _ hget
  rw [numberOf_eq h hget, Nat.mod_self] at hfirst
  have hzero := numberOf_eq h hfirst
  rw [numberOf_eq h hget] at hzero
  omega

end Truncated

end OneCollect.Theory
