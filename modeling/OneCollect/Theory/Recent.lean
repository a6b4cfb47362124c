import Mathlib.Data.List.TakeWhile
import Mathlib.Order.Lattice

/-! A history kept as a list that is sorted by a key now and then.

A stable sort moves no element past one of its own key (`sameByKey_mergeSort`), so what a
search by key sees of the sorted list is a fact about the history: the last element of the
prefix up to `q` is the newest of those with the greatest key up to `q`
(`SameByKey.newestBelow_getLast?`). -/

namespace OneCollect.Theory

variable {α κ : Type} [LinearOrder κ] (key : α → κ)

/-- The same elements of every key, in the same order. -/
def SameByKey (xs ys : List α) : Prop :=
  ∀ k, ys.filter (fun x => key x = k) = xs.filter (fun x => key x = k)

/-- The newest of the elements with the greatest key up to `q`, if any key is. -/
def NewestBelow (q : κ) (xs : List α) : Option α → Prop
  | none => ∀ x ∈ xs, q < key x
  | some y => ∃ before after, xs = before ++ y :: after ∧ key y ≤ q ∧
      (∀ x ∈ before, key x ≤ q → key x ≤ key y) ∧ ∀ x ∈ after, key x ≤ q → key x < key y

/-- The newest element that satisfies `p`, if any does. -/
def NewestWith (p : α → Prop) (xs : List α) : Option α → Prop
  | none => ∀ x ∈ xs, ¬ p x
  | some y => ∃ before after, xs = before ++ y :: after ∧ p y ∧ ∀ x ∈ after, ¬ p x

variable {key} {xs ys zs : List α}

theorem SameByKey.refl (xs : List α) : SameByKey key xs xs := fun _ => rfl

theorem SameByKey.trans (h : SameByKey key xs ys) (h' : SameByKey key ys zs) :
    SameByKey key xs zs := fun k => (h' k).trans (h k)

theorem SameByKey.append (h : SameByKey key xs ys) (zs : List α) :
    SameByKey key (xs ++ zs) (ys ++ zs) := by
  intro k
  rw [List.filter_append, List.filter_append, h k]

theorem SameByKey.mem_iff (h : SameByKey key xs ys) {x : α} : x ∈ ys ↔ x ∈ xs := by
  have hx := congrArg (x ∈ ·) (h (key x))
  simpa [List.mem_filter] using hx

section MergeSort

variable (key)

theorem ascending_mergeSort (xs : List α) :
    (xs.mergeSort (fun a b => key a ≤ key b)).Pairwise (fun a b => key a ≤ key b) := by
  have h := @List.pairwise_mergeSort α (fun a b => decide (key a ≤ key b))
    (fun a b c hab hbc => by simpa using le_trans (by simpa using hab) (by simpa using hbc))
    (fun a b => by simpa using le_total (key a) (key b)) xs
  simpa using h

/-- The sort is stable. -/
theorem sameByKey_mergeSort (xs : List α) :
    SameByKey key xs (xs.mergeSort (fun a b => key a ≤ key b)) := by
  intro k
  have hperm := List.mergeSort_perm xs (fun a b => decide (key a ≤ key b))
  -- the elements of one key are in order, so the sort keeps them as they stand
  have hsub : (xs.filter (fun x => key x = k)).Sublist
      (xs.mergeSort (fun a b => key a ≤ key b)) := by
    refine List.sublist_mergeSort
      (fun a b c hab hbc => by simpa using le_trans (by simpa using hab) (by simpa using hbc))
      (fun a b => by simpa using le_total (key a) (key b)) ?_ List.filter_sublist
    refine List.pairwise_of_forall_mem_list fun a ha b hb => ?_
    have ha : key a = k := by simpa using (List.mem_filter.mp ha).2
    have hb : key b = k := by simpa using (List.mem_filter.mp hb).2
    simp [ha, hb]
  have hsub := hsub.filter (fun x => decide (key x = k))
  rw [List.filter_filter] at hsub
  simp only [Bool.and_self] at hsub
  exact (hsub.eq_of_length (hperm.filter _).length_eq.symm).symm

end MergeSort

/-- In an ascending list everything after the prefix up to `q` lies above `q`. -/
theorem lt_of_mem_dropWhile (hsorted : ys.Pairwise fun a b => key a ≤ key b) {q : κ} {x : α}
    (hx : x ∈ ys.dropWhile (fun x => key x ≤ q)) : q < key x := by
  induction ys with
  | nil => exact absurd hx List.not_mem_nil
  | cons y ys ih =>
    rw [List.pairwise_cons] at hsorted
    rw [List.dropWhile_cons] at hx
    split at hx
    · exact ih hsorted.2 hx
    · rename_i hy
      have hy : q < key y := by simpa using hy
      rcases List.mem_cons.mp hx with rfl | hx
      · exact hy
      · exact lt_of_lt_of_le hy (hsorted.1 x hx)

/-- **A search by key in the sorted list.** It finds the newest of the elements with the
greatest key up to `q`. -/
theorem SameByKey.newestBelow_getLast? (h : SameByKey key xs ys)
    (hsorted : ys.Pairwise fun a b => key a ≤ key b) (q : κ) :
    NewestBelow key q xs (ys.takeWhile (fun x => key x ≤ q)).getLast? := by
  have hsplit := List.takeWhile_append_dropWhile (p := fun x => decide (key x ≤ q)) (l := ys)
  cases hlast : (ys.takeWhile (fun x => key x ≤ q)).getLast? with
  | none =>
    intro x hx
    have hnil := List.getLast?_eq_none_iff.mp hlast
    rw [hnil, List.nil_append] at hsplit
    exact lt_of_mem_dropWhile hsorted (hsplit.symm ▸ h.mem_iff.mpr hx)
  | some y =>
    obtain ⟨init, hinit⟩ := List.getLast?_eq_some_iff.mp hlast
    have hy : key y ≤ q := by
      have := List.mem_takeWhile_imp (p := fun x => decide (key x ≤ q)) (l := ys) (x := y)
        (hinit ▸ by simp)
      simpa using this
    have hgreatest : ∀ x ∈ xs, key x ≤ q → key x ≤ key y := by
      intro x hx hxq
      have hx : x ∈ ys := h.mem_iff.mpr hx
      rw [← hsplit, hinit, List.mem_append, List.mem_append, List.mem_singleton] at hx
      rcases hx with (hx | rfl) | hx
      · have hprefix := hsorted.sublist
          (List.takeWhile_sublist (fun x => decide (key x ≤ q)))
        rw [hinit] at hprefix
        exact (List.pairwise_append.mp hprefix).2.2 x hx y (by simp)
      · exact le_refl _
      · exact absurd hxq (not_le.mpr (lt_of_mem_dropWhile hsorted hx))
    -- the elements of the key of `y` end with `y` in the sorted list, hence in the history
    have hkey : xs.filter (fun x => key x = key y) =
        init.filter (fun x => key x = key y) ++ [y] := by
      have hnone : (ys.dropWhile (fun x => key x ≤ q)).filter (fun x => key x = key y) = [] := by
        refine List.filter_eq_nil_iff.mpr fun x hx => ?_
        have := lt_of_mem_dropWhile hsorted hx
        have hne : key x ≠ key y := ne_of_gt (lt_of_le_of_lt hy this)
        simpa using hne
      rw [← h (key y)]
      conv => lhs; rw [← hsplit, hinit]
      rw [List.filter_append, List.filter_append, hnone]
      simp
    obtain ⟨before, rest, rfl, -, hrest⟩ := List.filter_eq_append_iff.mp hkey
    obtain ⟨skipped, after, rfl, hskipped, -, hafter⟩ := List.filter_eq_cons_iff.mp hrest
    refine ⟨before ++ skipped, after, by simp, hy, fun x hx => ?_, fun x hx hxq => ?_⟩
    · exact hgreatest x (by
        rcases List.mem_append.mp hx with hx | hx <;> simp [hx])
    · have hle := hgreatest x (by simp [hx]) hxq
      have hne : ¬ key x = key y := by
        simpa using List.filter_eq_nil_iff.mp hafter x hx
      exact lt_of_le_of_ne hle hne

/-! ## Newest elements -/

/-- There is one newest element. -/
theorem NewestWith.unique {p : α → Prop} {r r' : Option α} (h : NewestWith p xs r)
    (h' : NewestWith p xs r') : r = r' := by
  cases r with
  | none =>
    cases r' with
    | none => rfl
    | some y =>
      obtain ⟨before, after, rfl, hy, -⟩ := h'
      exact absurd hy (h y (by simp))
  | some y =>
    obtain ⟨before, after, rfl, hy, hafter⟩ := h
    cases r' with
    | none => exact absurd hy (h' y (by simp))
    | some y' =>
      obtain ⟨before', after', heq, hy', hafter'⟩ := h'
      rcases List.append_eq_append_iff.mp heq with ⟨gap, -, hgap⟩ | ⟨gap, -, hgap⟩
      · cases gap with
        | nil => cases hgap; rfl
        | cons z gap =>
          cases hgap
          exact absurd hy' (hafter y' (by simp))
      · cases gap with
        | nil => cases hgap; rfl
        | cons z gap =>
          cases hgap
          exact absurd hy (hafter' y (by simp))

theorem newestWith_filter_getLast? (p : α → Bool) (xs : List α) :
    NewestWith (fun x => p x = true) xs (xs.filter p).getLast? := by
  cases hlast : (xs.filter p).getLast? with
  | none =>
    exact fun x hx => List.filter_eq_nil_iff.mp (List.getLast?_eq_none_iff.mp hlast) x hx
  | some y =>
    obtain ⟨init, hinit⟩ := List.getLast?_eq_some_iff.mp hlast
    obtain ⟨before, rest, rfl, -, hrest⟩ := List.filter_eq_append_iff.mp hinit
    obtain ⟨skipped, after, rfl, -, hy, hafter⟩ := List.filter_eq_cons_iff.mp hrest
    exact ⟨before ++ skipped, after, by simp, hy, List.filter_eq_nil_iff.mp hafter⟩

/-- Newest below `q` is newest among those with the greatest key up to `q`. -/
theorem NewestBelow.newestWith {q : κ} {r : Option α} (h : NewestBelow key q xs r) :
    NewestWith (fun x => key x ≤ q ∧ ∀ z ∈ xs, key z ≤ q → key z ≤ key x) xs r := by
  cases r with
  | none => exact fun x hx hp => absurd hp.1 (not_le.mpr (h x hx))
  | some y =>
    obtain ⟨before, after, rfl, hy, hbefore, hafter⟩ := h
    refine ⟨before, after, rfl, ⟨hy, fun z hz hzq => ?_⟩, fun x hx hp => ?_⟩
    · rcases List.mem_append.mp hz with hz | hz
      · exact hbefore z hz hzq
      · rcases List.mem_cons.mp hz with rfl | hz
        · exact le_refl _
        · exact le_of_lt (hafter z hz hzq)
    · exact absurd (hp.2 y (by simp) hy) (not_le.mpr (hafter x hx hp.1))

theorem NewestBelow.unique {q : κ} {r r' : Option α} (h : NewestBelow key q xs r)
    (h' : NewestBelow key q xs r') : r = r' :=
  h.newestWith.unique h'.newestWith

theorem NewestBelow.mem {q : κ} {y : α} (h : NewestBelow key q xs (some y)) : y ∈ xs := by
  obtain ⟨before, after, rfl, -⟩ := h
  simp

/-- The test of one element stands in for the search for the newest that passes it exactly
when that one, if there is any, is the one tested. -/
theorem NewestBelow.filter_eq_iff {q : κ} {p : α → Bool} {b r : Option α}
    (hb : NewestBelow key q xs b) (hr : NewestWith (fun x => p x = true) xs r) :
    b.filter p = r ↔ ∀ y, NewestWith (fun x => p x = true) xs (some y) →
      NewestBelow key q xs (some y) := by
  constructor
  · intro heq y hy
    rw [hr.unique hy, Option.filter_eq_some_iff] at heq
    exact heq.1 ▸ hb
  · intro hcond
    cases r with
    | none =>
      refine Option.filter_eq_none_iff.mpr fun y hy => ?_
      exact hr y (hy ▸ hb : NewestBelow key q xs (some y)).mem
    | some y =>
      have hp : p y = true := by
        obtain ⟨-, -, -, hp, -⟩ := hr
        exact hp
      rw [hb.unique (hcond y hr), Option.filter_eq_some_iff]
      exact ⟨rfl, hp⟩

/-! ## Last positions in a growing history -/

/-- Position `i` is the last whose element satisfies `p`. -/
def LastAt (p : α → Prop) (xs : List α) (i : Nat) : Prop :=
  (∃ x, xs[i]? = some x ∧ p x) ∧ ∀ j x, i < j → xs[j]? = some x → ¬ p x

theorem LastAt.lt {p : α → Prop} {i : Nat} (h : LastAt p xs i) : i < xs.length := by
  obtain ⟨⟨x, hx, -⟩, -⟩ := h
  exact (List.getElem?_eq_some_iff.mp hx).1

/-- The last position comes no earlier than any other. -/
theorem LastAt.le_of_getElem? {p : α → Prop} {i j : Nat} {x : α} (h : LastAt p xs i)
    (hx : xs[j]? = some x) (hp : p x) : j ≤ i :=
  not_lt.mp fun hlt => h.2 j x hlt hx hp

theorem lastAt_concat {p : α → Prop} {x : α} (hp : p x) : LastAt p (xs ++ [x]) xs.length := by
  refine ⟨⟨x, by simp, hp⟩, fun j y hj hy => ?_⟩
  have hlt := (List.getElem?_eq_some_iff.mp hy).1
  rw [List.length_append, List.length_singleton] at hlt
  omega

/-- An element without the property leaves the last position. -/
theorem LastAt.concat {p : α → Prop} {i : Nat} {x : α} (h : LastAt p xs i) (hp : ¬ p x) :
    LastAt p (xs ++ [x]) i := by
  obtain ⟨⟨y, hy, hpy⟩, hlast⟩ := h
  have hi := (List.getElem?_eq_some_iff.mp hy).1
  refine ⟨⟨y, by rw [List.getElem?_append_left hi]; exact hy, hpy⟩, fun j z hj hz => ?_⟩
  by_cases hjl : j < xs.length
  · rw [List.getElem?_append_left hjl] at hz
    exact hlast j z hj hz
  · have hlt := (List.getElem?_eq_some_iff.mp hz).1
    rw [List.length_append, List.length_singleton] at hlt
    obtain rfl : j = xs.length := by omega
    rw [List.getElem?_concat_length] at hz
    exact Option.some.inj hz ▸ hp

end OneCollect.Theory
