import Mathlib.Data.List.Sort
import OneCollect.Theory.Rounds

/-! A cursor over a list in order of time, asked for its item at the current time and moved
past that item. Along a timeline each item is shown once (`Along.filterMap_itemAt`). -/

namespace OneCollect.Theory.Cursor

variable {α : Type} (time : α → Nat)

/-- The item under the cursor, when its time has come. -/
def itemAt (xs : List α) (i now : Nat) : Option α := xs[i]?.filter fun x => time x == now

def pass (xs : List α) (i now : Nat) : Nat :=
  if (itemAt time xs i now).isSome then i + 1 else i

def Ascending (xs : List α) : Prop := xs.Pairwise fun a b => time a ≤ time b

/-- A list sorted by time is in order of time. -/
theorem ascending_insertionSort (xs : List α) :
    Ascending time (xs.insertionSort fun a b => time a ≤ time b) := by
  have htotal : Std.Total fun a b : α => time a ≤ time b := ⟨fun a b => Nat.le_total _ _⟩
  have htrans : IsTrans α fun a b => time a ≤ time b := ⟨fun _ _ _ => Nat.le_trans⟩
  exact List.pairwise_insertionSort _ xs

variable {time} {xs : List α} {x : α} {i now c : Nat}

theorem itemAt_eq_some : itemAt time xs i now = some x ↔ xs[i]? = some x ∧ time x = now := by
  rw [itemAt, Option.filter_eq_some_iff, beq_iff_eq]

theorem le_pass (time : α → Nat) (xs : List α) (i now : Nat) : i ≤ pass time xs i now := by
  unfold pass
  split
  · exact Nat.le_succ i
  · exact Nat.le_refl _

theorem pass_of_isSome (h : (itemAt time xs i now).isSome = true) :
    i < xs.length ∧ pass time xs i now = i + 1 := by
  obtain ⟨x, hx⟩ := Option.isSome_iff_exists.mp h
  exact ⟨(List.getElem?_eq_some_iff.mp (itemAt_eq_some.mp hx).1).1, if_pos h⟩

theorem pass_of_lt (h : ∀ x ∈ xs, time x < now) : pass time xs i now = i := by
  rw [pass, if_neg]
  rw [Option.isSome_iff_exists]
  rintro ⟨x, hx⟩
  obtain ⟨hget, rfl⟩ := itemAt_eq_some.mp hx
  exact Nat.lt_irrefl _ (h x (List.mem_of_getElem? hget))

/-- What is before the cursor: the item that is passed, and the rest. -/
theorem itemAt_append_drop (time : α → Nat) (xs : List α) (i now : Nat) :
    (itemAt time xs i now).toList ++ xs.drop (pass time xs i now) = xs.drop i := by
  cases h : itemAt time xs i now with
  | none =>
    rw [pass, h]
    rfl
  | some x =>
    obtain ⟨hx, -⟩ := itemAt_eq_some.mp h
    obtain ⟨hi, rfl⟩ := List.getElem?_eq_some_iff.mp hx
    rw [pass, h, List.drop_eq_getElem_cons hi]
    rfl

/-- The time of the next item is not before the current time. -/
theorem le_of_pass (hs : Ascending time xs) (hle : ∀ x, xs[i]? = some x → now ≤ time x)
    (h : xs[pass time xs i now]? = some x) : now ≤ time x := by
  unfold pass at h
  split at h
  next hsome =>
    obtain ⟨y, hy⟩ := Option.isSome_iff_exists.mp hsome
    obtain ⟨hget, rfl⟩ := itemAt_eq_some.mp hy
    obtain ⟨hi, rfl⟩ := List.getElem?_eq_some_iff.mp hget
    obtain ⟨hj, rfl⟩ := List.getElem?_eq_some_iff.mp h
    exact List.pairwise_iff_getElem.mp hs i (i + 1) hi hj (Nat.lt_succ_self i)
  next => exact hle x h

/-- No item is left that is due before the one under the cursor. -/
theorem le_of_mem_drop (hs : Ascending time xs) (hle : ∀ x, xs[i]? = some x → now ≤ time x)
    (h : x ∈ xs.drop i) : now ≤ time x := by
  cases hdrop : xs.drop i with
  | nil =>
    rw [hdrop] at h
    exact absurd h List.not_mem_nil
  | cons y ys =>
    have hy : xs[i]? = some y := by rw [← List.head?_drop, hdrop]; rfl
    have hsorted := List.Pairwise.sublist (List.drop_sublist i xs) hs
    rw [hdrop] at h hsorted
    rcases List.mem_cons.mp h with rfl | h
    · exact hle x hy
    · exact Nat.le_trans (hle y hy) ((List.pairwise_cons.mp hsorted).1 x h)

/-! ## Counting the items of one time -/

/-- The items of time `c` before the cursor. -/
def countAt (time : α → Nat) (c : Nat) (xs : List α) (i : Nat) : Nat :=
  (xs.drop i).countP fun x => time x == c

theorem countAt_pass_of_ne (h : now ≠ c) :
    countAt time c xs (pass time xs i now) = countAt time c xs i := by
  unfold countAt
  rw [← itemAt_append_drop time xs i now, List.countP_append]
  cases hitem : itemAt time xs i now with
  | none => exact (Nat.zero_add _).symm
  | some x =>
    have hx := (itemAt_eq_some.mp hitem).2
    rw [Option.toList_some, List.countP_singleton, if_neg, Nat.zero_add]
    rw [beq_iff_eq, hx]
    exact h

theorem countAt_eq_zero (hs : Ascending time xs) (hle : ∀ x, xs[i]? = some x → now ≤ time x)
    (h : c < now) : countAt time c xs i = 0 := by
  refine List.countP_eq_zero.mpr fun x hx heq => ?_
  have hge := le_of_mem_drop hs hle hx
  rw [beq_iff_eq.mp heq] at hge
  omega

theorem countAt_pos (h : xs[i]? = some x) (hx : time x = c) : 0 < countAt time c xs i := by
  obtain ⟨hi, rfl⟩ := List.getElem?_eq_some_iff.mp h
  rw [countAt, List.drop_eq_getElem_cons hi, List.countP_cons, if_pos (beq_iff_eq.mpr hx)]
  exact Nat.succ_pos _

/-- At its time each step passes one of them, as long as there are any. -/
theorem countAt_pass (hs : Ascending time xs) (hle : ∀ x, xs[i]? = some x → c ≤ time x) :
    countAt time c xs (pass time xs i c) = countAt time c xs i - 1 := by
  cases hitem : itemAt time xs i c with
  | none =>
    have hpass : pass time xs i c = i := by rw [pass, hitem]; rfl
    have hlt : ∀ x, xs[i]? = some x → c + 1 ≤ time x := by
      intro x hx
      refine Nat.lt_of_le_of_ne (hle x hx) fun heq => ?_
      rw [itemAt_eq_some.mpr ⟨hx, heq.symm⟩] at hitem
      cases hitem
    rw [hpass, countAt_eq_zero hs hlt (Nat.lt_succ_self c)]
  | some x =>
    have hsplit := itemAt_append_drop time xs i c
    have hx := (itemAt_eq_some.mp hitem).2
    have hcount : countAt time c xs i = 1 + countAt time c xs (pass time xs i c) := by
      unfold countAt
      rw [← hsplit, List.countP_append, hitem, Option.toList_some, List.countP_singleton,
        if_pos (beq_iff_eq.mpr hx)]
    omega

/-! ## A cursor along a timeline -/

/-- The cursor `index` over `items` is moved by every step of the timeline, and never left behind
the current time. -/
structure Along {ρ : Type} (S : Timeline ρ Nat) (time : α → Nat) (items : ρ → List α)
    (index : ρ → Nat) : Prop where
  items_next : ∀ r, items (S.next r) = items r
  index_next : ∀ r, index (S.next r) = pass time (items r) (index r) (S.time r)
  le_time : ∀ r, S.Valid r → ∀ x, (items r)[index r]? = some x → S.time r ≤ time x

namespace Along

variable {ρ : Type} {S : Timeline ρ Nat} {items : ρ → List α} {index : ρ → Nat} {r : ρ}

/-- At the end nothing is left that has a time before it. -/
theorem drop_eq_nil (h : Along S time items index) (hv : S.Valid r) (hdone : S.time r = S.limit)
    (hlt : ∀ x ∈ items r, time x < S.limit) : (items r).drop (index r) = [] := by
  rw [List.drop_eq_nil_iff]
  by_contra hi
  rw [not_le] at hi
  have hge := h.le_time r hv (items r)[index r] (List.getElem?_eq_getElem hi)
  exact absurd (hlt _ (List.getElem_mem hi)) (not_lt.mpr (hdone ▸ hge))

/-- **Each item once.** A timeline shows the items before the cursor, in order. -/
theorem filterMap_itemAt (h : Along S time items index) (hv : S.Valid r)
    (hlt : ∀ x ∈ items r, time x < S.limit) :
    (S.trace r).filterMap (fun r => itemAt time (items r) (index r) (S.time r)) =
      (items r).drop (index r) := by
  revert hlt
  refine Timeline.trace_induction (fun r hv hdone => ?_) (fun r hv hnot ih => ?_) hv
  · intro hlt
    rw [Timeline.trace_done hdone, h.drop_eq_nil hv hdone hlt, List.filterMap_nil]
  · intro hlt
    have ih := ih (by rwa [h.items_next])
    rw [h.items_next, h.index_next] at ih
    rw [Timeline.trace_step hv hnot, ← itemAt_append_drop time (items r) (index r) (S.time r),
      ← ih]
    cases hitem : itemAt time (items r) (index r) (S.time r) with
    | none =>
      simp only [List.filterMap_cons, hitem]
      rfl
    | some x =>
      simp only [List.filterMap_cons, hitem]
      rfl

end Along

end OneCollect.Theory.Cursor
