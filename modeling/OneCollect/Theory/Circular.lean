import Mathlib.Data.List.Basic
import Mathlib.Data.Nat.ModEq

/-! Circular areas. Positions are unbounded counters; position `p` lies in the cell
`p % area.length`. `put` writes a run of values from a position on, `Holds` says that such
a run is there.

A write puts its run in place (`holds_put`) and leaves every run alone that lies behind it
by less than the area (`Holds.put`). `put_eq_overwrite` and `put_eq_wrapped` are the two
ways to copy a run into the area, `Holds.take_drop` and `Holds.drop_take` the two ways to
get it back. -/

namespace OneCollect.Theory.Circular

variable {α : Type}

/-- The area with a run written from `start` on. -/
def put : List α → Nat → List α → List α
  | area, _, [] => area
  | area, start, x :: xs => put (area.set (start % area.length) x) (start + 1) xs

/-- The run `xs` lies in the area from `start` on. -/
def Holds (area : List α) (start : Nat) (xs : List α) : Prop :=
  ∀ k, k < xs.length → area[(start + k) % area.length]? = xs[k]?

/-- Two positions less than the area apart have different cells. -/
theorem mod_ne_of_lt {a b n : Nat} (hlt : a < b) (hn : b < a + n) : b % n ≠ a % n := by
  intro h
  have hdvd : n ∣ b - a := (Nat.modEq_iff_dvd' (Nat.le_of_lt hlt)).mp h.symm
  have := Nat.le_of_dvd (by omega) hdvd
  omega

theorem succ_mod_of_lt {a n : Nat} (h : a % n + 1 < n) : (a + 1) % n = a % n + 1 := by
  rw [Nat.add_mod, Nat.mod_eq_of_lt (show 1 < n by omega), Nat.mod_eq_of_lt h]

theorem add_mod_of_lt {a k n : Nat} (h : a % n + k < n) : (a + k) % n = a % n + k := by
  have hk : k < n := by omega
  rw [Nat.add_mod, Nat.mod_eq_of_lt hk, Nat.mod_eq_of_lt h]

/-- The next position after the cells up to the end of the area is in its first cell. -/
theorem add_sub_mod (a n : Nat) (h : a % n < n) : (a + (n - a % n)) % n = 0 := by
  have hsum : a + (n - a % n) = n * (a / n + 1) := by
    have := Nat.div_add_mod a n
    rw [Nat.mul_add]
    omega
  rw [hsum, Nat.mul_mod_right]

@[simp] theorem put_nil (area : List α) (start : Nat) : put area start [] = area := rfl

@[simp] theorem length_put (area : List α) (start : Nat) (xs : List α) :
    (put area start xs).length = area.length := by
  induction xs generalizing area start with
  | nil => rfl
  | cons x xs ih => rw [put, ih, List.length_set]

theorem put_append (area : List α) (start : Nat) (xs ys : List α) :
    put area start (xs ++ ys) = put (put area start xs) (start + xs.length) ys := by
  induction xs generalizing area start with
  | nil => rfl
  | cons x xs ih =>
    rw [List.cons_append, put, put, ih, List.length_cons]
    congr 1
    omega

/-- A write leaves the cells behind it alone that it does not reach around. -/
theorem getElem?_put_of_lt {area xs : List α} {p start : Nat} (hp : p < start)
    (hle : start + xs.length ≤ p + area.length) :
    (put area start xs)[p % area.length]? = area[p % area.length]? := by
  induction xs generalizing area start with
  | nil => rfl
  | cons x xs ih =>
    rw [List.length_cons] at hle
    have hne : start % area.length ≠ p % area.length := mod_ne_of_lt hp (by omega)
    have hrest := @ih (area.set (start % area.length) x) (start + 1) (by omega)
      (by rw [List.length_set]; omega)
    rw [List.length_set] at hrest
    rw [put, hrest, List.getElem?_set_ne hne]

/-! ## Runs -/

section Runs

variable {area xs ys : List α} {start p : Nat}

theorem holds_nil : Holds area start [] := by
  intro k hk
  exact absurd hk (Nat.not_lt_zero k)

theorem holds_cons {x : α} :
    Holds area start (x :: xs) ↔
      area[start % area.length]? = some x ∧ Holds area (start + 1) xs := by
  constructor
  · intro h
    refine ⟨h 0 (by simp), fun k hk => ?_⟩
    have := h (k + 1) (by simpa using hk)
    rw [show start + 1 + k = start + (k + 1) by omega, this, List.getElem?_cons_succ]
  · rintro ⟨hx, h⟩ k hk
    cases k with
    | zero => exact hx
    | succ k =>
      have := h k (by simpa using hk)
      rw [show start + (k + 1) = start + 1 + k by omega, this, List.getElem?_cons_succ]

theorem holds_append :
    Holds area start (xs ++ ys) ↔ Holds area start xs ∧ Holds area (start + xs.length) ys := by
  induction xs generalizing start with
  | nil => simp [holds_nil]
  | cons x xs ih =>
    rw [List.cons_append, holds_cons, holds_cons, ih, List.length_cons,
      show start + 1 + xs.length = start + (xs.length + 1) by omega, and_assoc]

/-- A part of a run. -/
theorem Holds.part (h : Holds area start xs) (i n : Nat) :
    Holds area (start + i) ((xs.drop i).take n) := by
  intro k hk
  rw [List.length_take, List.length_drop] at hk
  rw [List.getElem?_take, if_pos (by omega), List.getElem?_drop, Nat.add_assoc]
  exact h (i + k) (by omega)

/-- The runs of one length at one position are one run. -/
theorem Holds.unique (hx : Holds area start xs) (hy : Holds area start ys)
    (hlen : xs.length = ys.length) : xs = ys := by
  refine List.ext_getElem? fun k => ?_
  by_cases hk : k < xs.length
  · rw [← hx k hk, ← hy k (by omega)]
  · rw [List.getElem?_eq_none (by omega), List.getElem?_eq_none (by omega)]

/-- **A write is there.** -/
theorem holds_put (h : xs.length ≤ area.length) : Holds (put area start xs) start xs := by
  induction xs generalizing area start with
  | nil => exact holds_nil
  | cons x xs ih =>
    rw [List.length_cons] at h
    have hlen : (area.set (start % area.length) x).length = area.length := List.length_set
    have hkeep := @getElem?_put_of_lt _ (area.set (start % area.length) x) xs _ _
      (Nat.lt_succ_self start) (by rw [hlen]; omega)
    rw [holds_cons, put, length_put]
    refine ⟨?_, ih (by rw [hlen]; omega)⟩
    rw [hkeep, hlen]
    exact List.getElem?_set_self (Nat.mod_lt _ (by omega))

/-- **A write leaves the runs behind it.** -/
theorem Holds.put (h : Holds area p ys) (hp : p + ys.length ≤ start)
    (hle : start + xs.length ≤ p + area.length) : Holds (put area start xs) p ys := by
  intro k hk
  rw [length_put, getElem?_put_of_lt (by omega) (by omega)]
  exact h k hk

/-! ## Copying in and out -/

/-- The area with `xs` copied over the cells from `pos` on. -/
def overwrite (area : List α) (pos : Nat) (xs : List α) : List α :=
  area.take pos ++ xs ++ area.drop (pos + xs.length)

/-- A run that does not wrap is written by one copy. -/
theorem put_eq_overwrite (h : start % area.length + xs.length ≤ area.length) :
    put area start xs = overwrite area (start % area.length) xs := by
  induction xs generalizing area start with
  | nil => simp [overwrite]
  | cons x xs ih =>
    rw [List.length_cons] at h
    have hlt : start % area.length < area.length := by omega
    rw [put]
    cases xs with
    | nil =>
      rw [put_nil, overwrite, List.set_eq_take_append_cons_drop, if_pos hlt]
      simp
    | cons y xs =>
      rw [List.length_cons] at h
      have hnext : (start + 1) % area.length = start % area.length + 1 :=
        succ_mod_of_lt (by omega)
      rw [ih (by rw [List.length_set, hnext, List.length_cons]; omega), List.length_set, hnext,
        overwrite, overwrite, List.take_succ_eq_append_getElem (by rw [List.length_set]; exact hlt),
        List.take_set_of_le (Nat.le_refl _), List.getElem_set_self,
        List.drop_set_of_lt (by omega), List.length_cons, List.length_cons]
      simp [Nat.add_assoc, Nat.add_comm 1]

/-- A run that wraps is written by two copies, up to the end and from the start. -/
theorem put_eq_wrapped (h : area.length ≤ start % area.length + xs.length)
    (hle : xs.length ≤ area.length) (hpos : 0 < area.length) :
    put area start xs =
      overwrite (overwrite area (start % area.length)
        (xs.take (area.length - start % area.length)))
        0 (xs.drop (area.length - start % area.length)) := by
  have hlt : start % area.length < area.length := Nat.mod_lt _ hpos
  have hfirst : (xs.take (area.length - start % area.length)).length =
      area.length - start % area.length := by
    rw [List.length_take]; omega
  have hzero := add_sub_mod start area.length hlt
  have hone := @put_eq_overwrite _ area (xs.take (area.length - start % area.length)) start
    (by rw [hfirst]; omega)
  have htwo := @put_eq_overwrite _
    (overwrite area (start % area.length) (xs.take (area.length - start % area.length)))
    (xs.drop (area.length - start % area.length))
    (start + (area.length - start % area.length))
  rw [← hone, length_put, hzero, List.length_drop] at htwo
  conv_lhs => rw [← List.take_append_drop (area.length - start % area.length) xs]
  rw [put_append, hfirst, htwo (by omega), hone]

/-- A run that does not wrap is one slice. -/
theorem Holds.take_drop (h : Holds area start xs)
    (hle : start % area.length + xs.length ≤ area.length) :
    (area.drop (start % area.length)).take xs.length = xs := by
  refine List.ext_getElem? fun k => ?_
  rw [List.getElem?_take]
  by_cases hk : k < xs.length
  · rw [if_pos hk, List.getElem?_drop, ← h k hk, add_mod_of_lt (by omega)]
  · rw [if_neg hk, List.getElem?_eq_none (by omega)]

/-- A run that wraps is the end of the area and then its start. -/
theorem Holds.drop_take (h : Holds area start xs)
    (hlt : area.length ≤ start % area.length + xs.length) (hle : xs.length ≤ area.length)
    (hpos : 0 < area.length) :
    area.drop (start % area.length) ++
      area.take (xs.length - (area.length - start % area.length)) = xs := by
  have hmod : start % area.length < area.length := Nat.mod_lt _ hpos
  have hfirst : (xs.take (area.length - start % area.length)).length =
      area.length - start % area.length := by
    rw [List.length_take]; omega
  rw [← List.take_append_drop (area.length - start % area.length) xs, holds_append, hfirst] at h
  have hzero := add_sub_mod start area.length hmod
  have hone := h.1.take_drop (by rw [hfirst]; omega)
  have htwo := h.2.take_drop (by rw [hzero, List.length_drop]; omega)
  rw [hfirst, List.take_of_length_le (by rw [List.length_drop])] at hone
  rw [hzero, List.drop_zero, List.length_drop] at htwo
  rw [hone, htwo, List.take_append_drop]

end Runs

end OneCollect.Theory.Circular
