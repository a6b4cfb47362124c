import Mathlib.Data.List.Range
import Mathlib.Tactic.Ring
import OneCollect.Theory.Checked

/-! Tables of records at a stride. `walk` reads the records behind a position, one stride after
another; the position is a machine word. -/

namespace OneCollect.Theory.Stride

variable {α σ : Type} {checks : OverflowChecks} {read : Nat → Exec α} {stride pos : Nat}

/-- The position of the next record, and the record. -/
def next (checks : OverflowChecks) (read : Nat → Exec α) (stride pos : Nat) : Exec (Nat × α) := do
  let pos ← checks.addU64 pos stride
  let record ← read pos
  .ok (pos, record)

def walk (checks : OverflowChecks) (read : Nat → Exec α) (stride : Nat) :
    (count pos : Nat) → Exec (List α)
  | 0, _ => .ok []
  | count + 1, pos => do
    let (pos, record) ← next checks read stride pos
    let records ← walk checks read stride count pos
    .ok (record :: records)

theorem walk_succ (count : Nat) :
    walk checks read stride (count + 1) pos = (do
      let (pos, record) ← next checks read stride pos
      let records ← walk checks read stride count pos
      .ok (record :: records)) := rfl

theorem length_walk {count : Nat} {records : List α}
    (h : walk checks read stride count pos = .ok records) : records.length = count := by
  induction count generalizing pos records with
  | zero => cases h; rfl
  | succ count ih =>
    obtain ⟨⟨pos', record⟩, -, h⟩ := bind_eq_ok.mp h
    obtain ⟨rest, hrest, h⟩ := bind_eq_ok.mp h
    cases h
    rw [List.length_cons, ih hrest]

/-! ## A walk without a panic -/

/-- The positions of `count` records behind one are words, as far as the records can be read. -/
def Fits (checks : OverflowChecks) (read : Nat → Exec α) (stride : Nat) : (count pos : Nat) → Prop
  | 0, _ => True
  | count + 1, pos =>
    checks.Within 64 (pos + stride) fun pos =>
      ∀ record, read pos = .ok record → Fits checks read stride count pos

section NoPanic

variable (hread : ∀ pos, NoPanic (read pos))
include hread

theorem safely_next {P : Nat × α → Prop} :
    Safely (next checks read stride pos) P ↔
      checks.Within 64 (pos + stride) fun pos => ∀ record, read pos = .ok record → P (pos, record) := by
  unfold next
  simp only [safely_bind, OverflowChecks.safely_addU64, safely_of_noPanic (hread _), safely_ok]

theorem noPanic_walk (count : Nat) :
    NoPanic (walk checks read stride count pos) ↔ Fits checks read stride count pos := by
  induction count generalizing pos with
  | zero => exact iff_of_true (noPanic_ok []) trivial
  | succ count ih =>
    rw [← safely_true, walk_succ, safely_bind, safely_next hread]
    refine OverflowChecks.within_congr fun pos => forall_congr' fun record => imp_congr_right fun _ => ?_
    rw [← ih, ← safely_true, safely_bind]
    exact safely_congr fun records => safely_ok

end NoPanic

/-! ## A table that is known -/

section Known

variable {record : Nat → α}

/-- The next position of a known table, and what is read there. -/
theorem next_of_known (hlt : pos + stride < 2 ^ 64) {r : α} (hread : read (pos + stride) = .ok r) :
    next checks read stride pos = .ok (pos + stride, r) := by
  rw [next, checks.addU64_of_lt hlt, ok_bind, hread]
  rfl

/-- The records `1 … count` behind the record at `pos`. -/
theorem walk_of_known {count : Nat} (hlt : ∀ i < count, pos + (i + 1) * stride < 2 ^ 64)
    (hread : ∀ i < count, read (pos + (i + 1) * stride) = .ok (record (i + 1))) :
    walk checks read stride count pos =
      .ok ((List.range count).map fun i => record (i + 1)) := by
  induction count generalizing pos record with
  | zero => rfl
  | succ count ih =>
    have hmove (i : Nat) : pos + stride + (i + 1) * stride = pos + (i + 1 + 1) * stride := by ring
    have hfirst : next checks read stride pos = .ok (pos + stride, record 1) := by
      refine next_of_known ?_ ?_
      · simpa using hlt 0 (Nat.succ_pos _)
      · simpa using hread 0 (Nat.succ_pos _)
    have hrest : walk checks read stride count (pos + stride) =
        .ok ((List.range count).map fun i => record (i + 1 + 1)) := by
      refine @ih _ (fun i => record (i + 1)) (fun i hi => ?_) fun i hi => ?_
      · rw [hmove]
        exact hlt (i + 1) (Nat.succ_lt_succ hi)
      · rw [hmove]
        exact hread (i + 1) (Nat.succ_lt_succ hi)
    rw [walk_succ, hfirst, ok_bind]
    dsimp only
    rw [hrest, ok_bind, List.range_succ_eq_map, List.map_cons, List.map_map]
    rfl

/-- One record more than is known. -/
theorem walk_past_known {count : Nat} (hlt : ∀ i < count, pos + (i + 1) * stride < 2 ^ 64)
    (hread : ∀ i < count, read (pos + (i + 1) * stride) = .ok (record (i + 1))) :
    walk checks read stride (count + 1) pos = (do
      let (_, last) ← next checks read stride (pos + count * stride)
      .ok (((List.range count).map fun i => record (i + 1)) ++ [last])) := by
  induction count generalizing pos record with
  | zero =>
    rw [walk_succ, Nat.zero_mul, Nat.add_zero]
    rfl
  | succ count ih =>
    have hmove (i : Nat) : pos + stride + i * stride = pos + (i + 1) * stride := by ring
    have hfirst : next checks read stride pos = .ok (pos + stride, record 1) := by
      refine next_of_known ?_ ?_
      · simpa using hlt 0 (Nat.succ_pos _)
      · simpa using hread 0 (Nat.succ_pos _)
    have hrest := @ih (pos + stride) (fun i => record (i + 1))
      (fun i hi => by rw [hmove]; exact hlt (i + 1) (Nat.succ_lt_succ hi))
      (fun i hi => by rw [hmove]; exact hread (i + 1) (Nat.succ_lt_succ hi))
    rw [walk_succ, hfirst, ok_bind]
    dsimp only
    rw [hrest, hmove, List.range_succ_eq_map, List.map_cons, List.map_map]
    cases next checks read stride (pos + (count + 1) * stride) with
    | error fault => rfl
    | ok last => rfl

end Known

/-! ## A loop over the records

The loop moves on at the start of each turn but the first. -/

def loop (checks : OverflowChecks) (read : Nat → Exec α) (stride : Nat)
    (body : Nat → α → σ → σ) : (count i pos : Nat) → (record : α) → (state : σ) → Exec σ
  | 0, _, _, _, state => .ok state
  | count + 1, i, pos, record, state => do
    let (pos, record) ←
      if i > 0 then next checks read stride pos else .ok (pos, record)
    loop checks read stride body count (i + 1) pos record (body i record state)

variable {body : Nat → α → σ → σ}

/-- The body over records numbered from `i` on. -/
def foldFrom (body : Nat → α → σ → σ) : (i : Nat) → List α → σ → σ
  | _, [], state => state
  | i, record :: records, state => foldFrom body (i + 1) records (body i record state)

theorem loop_succ (count i : Nat) (record : α) (state : σ) :
    loop checks read stride body count (i + 1) pos record state =
      (walk checks read stride count pos).map fun records =>
        foldFrom body (i + 1) records state := by
  induction count generalizing i pos record state with
  | zero => rfl
  | succ count ih =>
    rw [loop, if_pos (Nat.succ_pos i), walk_succ]
    cases next checks read stride pos with
    | error fault => rfl
    | ok moved =>
      rw [ok_bind, ok_bind]
      dsimp only
      rw [ih]
      cases walk checks read stride count moved.1 with
      | error fault => rfl
      | ok records => rfl

/-- **The loop folds over the table.** With the first record read before it. -/
theorem loop_zero (count : Nat) (record : α) (state : σ) :
    loop checks read stride body (count + 1) 0 pos record state =
      (walk checks read stride count pos).map fun records =>
        foldFrom body 0 (record :: records) state := by
  rw [loop, if_neg (Nat.lt_irrefl 0), ok_bind]
  dsimp only
  rw [loop_succ]
  rfl

end OneCollect.Theory.Stride
