import OneCollect.Theory.CallFrame
import OneCollect.Theory.Pointwise

/-! The rows of an entry that starts at another location. Where its programs name no address they
are the same rows, as much further on (`table_shift`). `sameRows_iff` says when rows that are moved
are found by the same addresses, all moved alike. -/

namespace OneCollect.Theory.CallFrame

/-! ## Programs at another location -/

section Shift

variable {factors : Factors} {init : Nat → Rule} {st next : State} {instr : Instr}
  {instrs : List Instr} {table : List Located}

def State.shift (d : Int) (st : State) : State := { st with loc := st.loc + d }

def Located.shift (d : Int) (located : Located) : Located := { located with loc := located.loc + d }

/-- No instruction names an address. -/
def NoAddress (instrs : List Instr) : Prop := ∀ instr ∈ instrs, ∀ address, instr ≠ .setLoc address

theorem step_shift (h : ∀ address, instr ≠ .setLoc address) (d : Int)
    (hstep : step factors init st instr = some next) :
    step factors init (st.shift d) instr = some (next.shift d) := by
  cases instr
  case setLoc address => exact absurd rfl (h address)
  case advance delta =>
    cases hstep
    rw [step, State.shift, State.shift, Int.add_right_comm]
  case restoreState =>
    rw [step] at hstep ⊢
    rw [State.shift]
    split at hstep
    · next hstack =>
      cases hstep
      simp only [hstack]
      rfl
    · cases hstep
  case defCfaExpression => cases hstep
  case invalid => cases hstep
  all_goals
    cases hstep
    rfl

theorem run_shift (h : NoAddress instrs) (d : Int) (hrun : run factors init st instrs = some next) :
    run factors init (st.shift d) instrs = some (next.shift d) := by
  induction instrs generalizing st with
  | nil =>
    cases hrun
    rfl
  | cons instr instrs ih =>
    obtain ⟨hhead, htail⟩ := List.forall_mem_cons.mp h
    obtain ⟨mid, hstep, hrun⟩ := Option.bind_eq_some_iff.mp hrun
    rw [run, step_shift hhead d hstep]
    exact ih htail hrun

theorem rows_shift (h : NoAddress instrs) (d : Int)
    (hrows : rows factors init st instrs = some table) :
    rows factors init (st.shift d) instrs = some (table.map (Located.shift d)) := by
  induction instrs generalizing st table with
  | nil =>
    cases hrows
    rfl
  | cons instr instrs ih =>
    obtain ⟨hhead, htail⟩ := List.forall_mem_cons.mp h
    obtain ⟨next, hstep, hrows⟩ := Option.bind_eq_some_iff.mp hrows
    obtain ⟨rest, hrest, hrows⟩ := Option.bind_eq_some_iff.mp hrows
    have hshifted := ih htail hrest
    rw [rows, step_shift hhead d hstep]
    simp only [Option.bind_eq_bind, Option.bind_some, hshifted]
    cases hmoves : instr.moves with
    | true =>
      rw [hmoves, if_pos rfl] at hrows
      cases hrows
      rfl
    | false =>
      rw [hmoves, if_neg Bool.false_ne_true] at hrows
      cases hrows
      rfl

/-- An entry that starts elsewhere has the same rows there. -/
theorem table_shift {entry : Entry} (hcie : NoAddress entry.cie) (hfde : NoAddress entry.fde)
    (htable : entry.table = some table) (start : Int) :
    ({ entry with start } : Entry).table =
      some (table.map (Located.shift (start - entry.start))) := by
  obtain ⟨st, hinitial, hrows⟩ := Option.bind_eq_some_iff.mp htable
  obtain ⟨first, hrun, hst⟩ := Option.bind_eq_some_iff.mp hinitial
  cases hst
  have hrun' := run_shift hcie (start - entry.start) hrun
  have hrows' := rows_shift hfde (start - entry.start) hrows
  have hstart : entry.start + (start - entry.start) = start := by omega
  simp only [State.shift, hstart] at hrun' hrows'
  rw [Entry.table, Entry.initial]
  simp only [hrun', Option.bind_eq_bind, Option.bind_some]
  exact hrows'

theorem forward_of_noAddress (factors : Factors) {instrs : List Instr} (h : NoAddress instrs)
    (loc : Int) : Forward factors loc instrs := by
  induction instrs generalizing loc with
  | nil => trivial
  | cons instr instrs ih =>
    obtain ⟨hhead, htail⟩ := List.forall_mem_cons.mp h
    refine ⟨?_, ih htail _⟩
    cases instr
    case setLoc address => exact absurd rfl (hhead address)
    all_goals trivial

/-- No row starts in front of the program. -/
theorem rows_le (hforward : Forward factors st.loc instrs)
    (h : rows factors init st instrs = some table) : ∀ located ∈ table, st.loc ≤ located.loc := by
  induction instrs generalizing st table with
  | nil =>
    cases h
    simp
  | cons instr instrs ih =>
    obtain ⟨next, hstep, h⟩ := Option.bind_eq_some_iff.mp h
    obtain ⟨rest, hrest, h⟩ := Option.bind_eq_some_iff.mp h
    obtain ⟨hahead, hforward⟩ := hforward
    have hloc := step_loc hstep
    rw [← hloc] at hforward
    have hbehind : ∀ located ∈ rest, st.loc ≤ located.loc := fun located hmem =>
      (hloc ▸ le_target hahead).trans (ih hforward hrest located hmem)
    cases hmoves : instr.moves with
    | true =>
      rw [hmoves, if_pos rfl] at h
      cases h
      exact List.forall_mem_cons.mpr ⟨le_refl _, hbehind⟩
    | false =>
      rw [hmoves, if_neg Bool.false_ne_true] at h
      cases h
      exact hbehind

/-- The table of an entry starts where the entry does. -/
theorem table_starts {entry : Entry} (hfde : NoAddress entry.fde)
    (htable : entry.table = some table) :
    (∃ row rest, table = ⟨entry.start, row⟩ :: rest) ∧
      ∀ located ∈ table, entry.start ≤ located.loc := by
  obtain ⟨st, hinitial, hrows⟩ := Option.bind_eq_some_iff.mp htable
  obtain ⟨first, -, hst⟩ := Option.bind_eq_some_iff.mp hinitial
  cases hst
  exact ⟨rows_head hrows, rows_le (forward_of_noAddress _ hfde _) hrows⟩

end Shift

/-! ## Moved rows -/

/-- The rows of a table that start at or below an address, of which the last is in force. -/
def rowsBelow (address : Nat) (table : List Located) : List Located :=
  table.takeWhile fun located => toU64 located.loc ≤ address

theorem inForce_eq (address : Nat) (table : List Located) :
    inForce address table = (rowsBelow address table).getLast?.map (·.row) := rfl

section Moved

variable {table : List Located} {start stop excess : Nat} {d : Int}

/-- In front of the first element without a property all have it. -/
theorem exists_first_not {α : Type} {p : α → Prop} {xs : List α} (h : ¬ ∀ x ∈ xs, p x) :
    ∃ before x after, xs = before ++ x :: after ∧ (∀ y ∈ before, p y) ∧ ¬ p x := by
  induction xs with
  | nil => exact absurd (fun x hx => absurd hx List.not_mem_nil) h
  | cons x xs ih =>
    by_cases hx : p x
    · obtain ⟨before, y, after, rfl, hbefore, hy⟩ := ih fun hxs =>
        h (List.forall_mem_cons.mpr ⟨hx, hxs⟩)
      exact ⟨x :: before, y, after, rfl, List.forall_mem_cons.mpr ⟨hx, hbefore⟩, hy⟩
    · exact ⟨[], x, xs, rfl, fun y hy => absurd hy List.not_mem_nil, hx⟩

/-- Rows that are moved less far than the addresses all start together: the first that starts
elsewhere is found one address too early. -/
theorem start_of_sameRows
    (hall : ∀ located ∈ table, (start : Int) ≤ located.loc ∧ located.loc ≤ stop)
    (hstop : stop < 2 ^ 62) (hexcess : excess < 2 ^ 62) (hd : d < excess) (hstart : 0 ≤ start + d)
    (hsame : ∀ v, start ≤ v → v < stop →
      (table.takeWhile fun located => decide (toU64 (located.loc + d) ≤ v + excess)).length =
        (rowsBelow v table).length) : ∀ located ∈ table, located.loc = start := by
  by_contra hnone
  obtain ⟨before, other, after, hsplit, hbefore, hother⟩ := exists_first_not hnone
  have hmem : other ∈ table := by
    rw [hsplit]
    exact List.mem_append_right before List.mem_cons_self
  obtain ⟨hge, hle⟩ := hall other hmem
  -- one address in front of it: those before it are found, it is not, and moved it is
  have hfound : ∀ located ∈ before, toU64 located.loc ≤ (other.loc - 1).toNat := by
    intro located hlocated
    rw [hbefore located hlocated]
    unfold toU64
    omega
  have hbehind : ¬ toU64 other.loc ≤ (other.loc - 1).toNat := by
    unfold toU64
    omega
  have hmoved : ∀ located ∈ before, toU64 (located.loc + d) ≤ (other.loc - 1).toNat + excess := by
    intro located hlocated
    rw [hbefore located hlocated]
    unfold toU64
    omega
  have hearly : toU64 (other.loc + d) ≤ (other.loc - 1).toNat + excess := by
    unfold toU64
    omega
  have hv := hsame (other.loc - 1).toNat (by omega) (by omega)
  rw [rowsBelow, hsplit, List.takeWhile_append_of_pos (by simpa using hmoved),
    List.takeWhile_cons_of_pos (by simpa using hearly),
    List.takeWhile_append_of_pos (by simpa using hfound),
    List.takeWhile_cons_of_neg (by simpa using hbehind)] at hv
  simp at hv

/-- Rows that all move alike are found by as many addresses as before, or all start together. -/
theorem sameRows_iff (hhead : ∃ row rest, table = ⟨start, row⟩ :: rest)
    (hall : ∀ located ∈ table, (start : Int) ≤ located.loc ∧ located.loc ≤ stop)
    (hrange : start < stop) (hstop : stop < 2 ^ 62) (hd : -2 ^ 62 < d ∧ d < 2 ^ 62)
    (hexcess : excess < 2 ^ 62) :
    (∀ v, start ≤ v → v < stop →
      (table.takeWhile fun located => decide (toU64 (located.loc + d) ≤ v + excess)).length =
        (rowsBelow v table).length) ↔
      d = excess ∨ (d < excess ∧ 0 ≤ start + d ∧ ∀ located ∈ table, located.loc = start) := by
  constructor
  · intro hsame
    obtain ⟨row, rest, htable⟩ := hhead
    have hfirst := hsame start (Nat.le_refl _) hrange
    have hbelow : toU64 (start : Int) ≤ start := by
      unfold toU64
      omega
    have hmoved : toU64 (start + d) ≤ start + excess := by
      by_contra hmoved
      rw [htable, List.takeWhile_cons_of_neg (by simpa using hmoved), rowsBelow,
        List.takeWhile_cons_of_pos (by simpa using hbelow)] at hfirst
      cases hfirst
    have hnonneg : 0 ≤ start + d ∧ d ≤ excess := by
      unfold toU64 at hmoved
      omega
    by_cases heq : d = excess
    · exact Or.inl heq
    · have hlt : d < excess := by omega
      exact Or.inr ⟨hlt, hnonneg.1, start_of_sameRows hall hstop hexcess hlt hnonneg.1 hsame⟩
  · intro hmoved v hle hlt
    have hpairs : List.Forall₂ (fun a b => a = b ∧ a ∈ table) table table :=
      List.forall₂_same.mpr fun located hmem => ⟨rfl, hmem⟩
    refine (forall₂_takeWhile ?_ hpairs).length_eq
    rintro located _ ⟨rfl, hmem⟩
    obtain ⟨hge, hle'⟩ := hall located hmem
    have hiff : toU64 (located.loc + d) ≤ v + excess ↔ toU64 located.loc ≤ v := by
      obtain rfl | ⟨hlt', hnonneg, honly⟩ := hmoved
      · unfold toU64
        omega
      · rw [honly located hmem]
        unfold toU64
        omega
    exact decide_eq_decide.mpr hiff

end Moved

end OneCollect.Theory.CallFrame
