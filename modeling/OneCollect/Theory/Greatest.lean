import Mathlib.Order.Lattice

/-! Searching a list: the first index past a prefix, and the element of greatest key
kept by a loop that replaces its candidate only by a strictly greater one. -/

namespace OneCollect.Theory

/-- The length of the longest prefix satisfying `p`: where a list partitioned by `p` changes. -/
def partitionPoint {α : Type} (p : α → Bool) (xs : List α) : Nat := (xs.takeWhile p).length

/-- On a partitioned list the partition point is the length of the first part. -/
theorem partitionPoint_append {α : Type} {p : α → Bool} {lo hi : List α}
    (hlo : ∀ x ∈ lo, p x = true) (hhi : ∀ x ∈ hi, p x = false) :
    partitionPoint p (lo ++ hi) = lo.length := by
  unfold partitionPoint
  rw [List.takeWhile_append_of_pos hlo]
  cases hi with
  | nil => simp
  | cons x hi => simp [hhi x (by simp)]

variable {α κ : Type} [LinearOrder κ] (key : α → κ)

/-- One turn of the loop: keep the candidate unless `x` has a strictly greater key. -/
def keepGreatest (best : Option α) (x : α) : Option α :=
  match best with
  | some y => if key x > key y then some x else some y
  | none => some x

theorem foldl_keepGreatest_some {xs : List α} {init y : α}
    (h : xs.foldl (keepGreatest key) (some init) = some y) :
    y ∈ init :: xs ∧ ∀ x ∈ init :: xs, key x ≤ key y := by
  induction xs generalizing init with
  | nil =>
    obtain rfl : init = y := by simpa using h
    simp
  | cons x xs ih =>
    simp only [List.foldl_cons, keepGreatest] at h
    split at h
    · rename_i hlt
      obtain ⟨hm, hmax⟩ := ih h
      refine ⟨List.mem_cons_of_mem _ hm, fun z hz => ?_⟩
      rcases List.mem_cons.mp hz with rfl | hz
      · exact le_trans (le_of_lt hlt) (hmax x (by simp))
      · exact hmax z hz
    · rename_i hle
      obtain ⟨hm, hmax⟩ := ih h
      constructor
      · rcases List.mem_cons.mp hm with rfl | hm
        · simp
        · exact List.mem_cons_of_mem _ (List.mem_cons_of_mem _ hm)
      · intro z hz
        rcases List.mem_cons.mp hz with rfl | hz
        · exact hmax z (by simp)
        · rcases List.mem_cons.mp hz with rfl | hz
          · exact le_trans (not_lt.mp hle) (hmax init (by simp))
          · exact hmax z (List.mem_cons_of_mem _ hz)

theorem foldl_keepGreatest_isSome (xs : List α) (init : α) :
    ∃ y, xs.foldl (keepGreatest key) (some init) = some y := by
  induction xs generalizing init with
  | nil => exact ⟨init, rfl⟩
  | cons x xs ih =>
    simp only [List.foldl_cons, keepGreatest]
    split
    · exact ih x
    · exact ih init

/-- The loop ends with an element of greatest key, or with nothing on the empty list. -/
theorem foldl_keepGreatest (xs : List α) :
    (xs = [] ∧ xs.foldl (keepGreatest key) none = none) ∨
      ∃ y ∈ xs, xs.foldl (keepGreatest key) none = some y ∧ ∀ x ∈ xs, key x ≤ key y := by
  cases xs with
  | nil => exact Or.inl ⟨rfl, rfl⟩
  | cons x xs =>
    obtain ⟨y, hy⟩ := foldl_keepGreatest_isSome key xs x
    obtain ⟨hm, hmax⟩ := foldl_keepGreatest_some key hy
    exact Or.inr ⟨y, hm, hy, hmax⟩

end OneCollect.Theory
