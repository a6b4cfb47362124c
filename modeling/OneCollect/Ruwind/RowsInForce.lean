import OneCollect.Ruwind.FrameHeaders
import OneCollect.Theory.MovedRows

/-! The rows that `load_rules` leaves, against those of the entry as the format has it: the code
puts them where it takes the entry to start. `usesRow_iff` says when `unwind_to_cfa` uses the row in
force at an address. -/

namespace OneCollect.Ruwind
open Theory CallFrame

/-! ## The rows that are replayed -/

/-- A row of the code has the location and the CFA of a row of the format. -/
def FrameState.Shows (frame : FrameState) (located : Located) : Prop :=
  frame.rva = toU64 located.loc ∧ frame.cfaReg = located.row.cfa.reg ∧
    frame.cfaOff = located.row.cfa.off

theorem framesOf_rows {factors : Factors} {init : Nat → Rule} {st : State} {instrs : List Instr}
    {regStates : List RegState} {built : List FrameState}
    (h : framesOf factors init st regStates instrs = some built) :
    ∃ table, rows factors init st instrs = some table ∧
      List.Forall₂ FrameState.Shows built table := by
  induction instrs generalizing st regStates built with
  | nil =>
    cases h
    exact ⟨_, rfl, .cons ⟨rfl, rfl, rfl⟩ .nil⟩
  | cons instr instrs ih =>
    obtain ⟨next, hstep, h⟩ := Option.bind_eq_some_iff.mp h
    rw [rows, hstep]
    simp only [Option.bind_eq_bind, Option.bind_some]
    cases hmoves : instr.moves with
    | true =>
      rw [hmoves, if_pos rfl] at h
      obtain ⟨rest, hrest, rfl⟩ := Option.map_eq_some_iff.mp h
      obtain ⟨table, htable, hshows⟩ := ih hrest
      exact ⟨_, by rw [htable]; rfl, .cons ⟨rfl, rfl, rfl⟩ hshows⟩
    | false =>
      rw [hmoves, if_neg Bool.false_ne_true] at h
      obtain ⟨table, htable, hshows⟩ := ih h
      exact ⟨table, by rw [htable]; rfl, hshows⟩

/-- The rows of the code that start at or below an address. -/
def FrameOffset.rowsAt (self : FrameOffset) (rva : Nat) : List FrameState :=
  self.frameStates.takeWhile fun state => state.rva ≤ rva

theorem replayRegs_cfa {maxReg : Nat} {regStates : List RegState} {acc out : UnwindCFA × List Int}
    (h : regStates.foldlM (FrameOffset.replayReg maxReg) acc = .ok out) :
    out.1.reg = acc.1.reg ∧ out.1.off = acc.1.off := by
  have hsame : FrameOffset.withCfa ⟨acc.1.reg, acc.1.off⟩ acc = acc := rfl
  have hfold := FrameOffset.replayRegs_withCfa maxReg ⟨acc.1.reg, acc.1.off⟩ regStates acc
  rw [hsame, h, ok_bind] at hfold
  have hout := Except.ok.inj hfold
  rw [hout]
  exact ⟨rfl, rfl⟩

/-- The CFA of a replay is that of its last row. -/
theorem replay_cfa {maxReg rva : Nat} {states : List FrameState} {acc out : UnwindCFA × List Int}
    (h : FrameOffset.replay maxReg rva states acc = .ok out) :
    (out.1.reg, out.1.off) =
      (((states.takeWhile fun state => state.rva ≤ rva).getLast?).map fun state =>
        (state.cfaReg, state.cfaOff)).getD (acc.1.reg, acc.1.off) := by
  induction states generalizing acc with
  | nil =>
    cases h
    rfl
  | cons state states ih =>
    unfold FrameOffset.replay at h
    by_cases hstop : state.rva > rva
    · rw [if_pos hstop] at h
      cases h
      rw [List.takeWhile_cons_of_neg (by simpa using hstop)]
      rfl
    · rw [if_neg hstop] at h
      obtain ⟨mid, hregs, h⟩ := bind_eq_ok.mp h
      obtain ⟨hreg, hoff⟩ := replayRegs_cfa hregs
      rw [ih h, List.takeWhile_cons_of_pos (by simpa using hstop), List.getLast?_cons, hreg, hoff]
      cases (states.takeWhile fun state => decide (state.rva ≤ rva)).getLast? <;> rfl

/-- **The row in force is used.** As many rows are replayed as there are at or below the address,
and the CFA is that of the last of them. -/
def UsesRow (loaded : FrameOffset) (rva : Nat) (entry : Entry) (address : Nat) : Prop :=
  ∃ table row, entry.table = some table ∧ inForce address table = some row ∧
    (loaded.rowsAt rva).length = (rowsBelow address table).length ∧
    ∀ regOffsets : List Int, regOffsets.length ≤ 64 →
      ∃ out, loaded.unwindToCfa regOffsets rva = .ok out ∧
        out.1.reg = row.cfa.reg ∧ out.1.off = row.cfa.off

theorem takeWhile_eq_take {α : Type} (p : α → Bool) (xs : List α) :
    xs.takeWhile p = xs.take (xs.takeWhile p).length :=
  List.prefix_iff_eq_take.mp (List.takeWhile_prefix p)

theorem FrameOffset.rowsAt_eq_take (self : FrameOffset) (rva : Nat) :
    self.rowsAt rva = self.frameStates.take (self.rowsAt rva).length := takeWhile_eq_take _ _

theorem rowsBelow_eq_take (address : Nat) (table : List Located) :
    rowsBelow address table = table.take (rowsBelow address table).length := takeWhile_eq_take _ _

/-- A row of the code against a row of the format that starts `d` before it. -/
def ShowsAt (d : Int) (frame : FrameState) (located : Located) : Prop :=
  frame.rva = toU64 (located.loc + d) ∧ frame.cfaReg = located.row.cfa.reg ∧
    frame.cfaOff = located.row.cfa.off

section Used

variable {self loaded : FrameOffset} {reader : File} {enc : UInt8} {entry : Entry}

/-- What is loaded are the rows of the entry, at the locations of the code. -/
theorem loadRules_shows (hfresh : self.frameStates = [])
    (hload : self.loadRules reader = .ok loaded) (hentry : self.entry reader = .ok (enc, entry))
    (hfits : FitsEntry entry) (hcie : NoAddress entry.cie) (hfde : NoAddress entry.fde)
    (start : Int) :
    ∃ table, ({ entry with start } : Entry).table = some table ∧
      List.Forall₂ (ShowsAt (entry.start - start)) loaded.frameStates table := by
  obtain ⟨st, built, hinitial, hbuilt, hframes⟩ := FrameOffset.loadRules_frames hload hentry hfits
    (forward_of_noAddress _ hfde _) (Or.inr hfde)
  obtain ⟨table, htable, hshows⟩ := framesOf_rows hbuilt
  have hown : entry.table = some table := by
    rw [Entry.table, hinitial]
    exact htable
  refine ⟨_, table_shift hcie hfde hown start, ?_⟩
  rw [hframes, hfresh, List.nil_append, List.forall₂_map_right_iff]
  refine hshows.imp fun frame located hshow => ⟨?_, hshow.2⟩
  have hloc : located.loc = located.loc + (start - entry.start) + (entry.start - start) := by omega
  rw [hshow.1, hloc]
  rfl

theorem usesRow_iff {table : List Located} {start : Int} {rva address : Nat} {d : Int}
    (htable : ({ entry with start } : Entry).table = some table)
    (hshows : List.Forall₂ (ShowsAt d) loaded.frameStates table)
    (hbelow : rowsBelow address table ≠ []) :
    UsesRow loaded rva { entry with start } address ↔
      (table.takeWhile fun located => toU64 (located.loc + d) ≤ rva).length =
        (rowsBelow address table).length := by
  have hrows := forall₂_takeWhile (p := fun state => decide (state.rva ≤ rva))
    (q := fun located => decide (toU64 (located.loc + d) ≤ rva))
    (fun frame located hshow => by rw [hshow.1]) hshows
  have hlength : (loaded.rowsAt rva).length = _ := hrows.length_eq
  rw [← hlength]
  constructor
  · rintro ⟨table', row, htable', -, hsame, -⟩
    cases htable.symm.trans htable'
    exact hsame
  · intro hsame
    obtain ⟨last, hlast⟩ := List.getLast?_isSome.mpr hbelow |> Option.isSome_iff_exists.mp
    refine ⟨table, last.row, htable, by rw [inForce_eq, hlast]; rfl, hsame, ?_⟩
    intro regOffsets hlen
    have hends := loaded.unwindToCfa_ends (fun _ : True => hlen) rva
    obtain ⟨out, hunwind, -⟩ | ⟨-, hpanics⟩ := hends
    swap
    · exact absurd trivial hpanics
    have hpaired : List.Forall₂ (ShowsAt d) (loaded.rowsAt rva) (rowsBelow address table) := by
      rw [loaded.rowsAt_eq_take, rowsBelow_eq_take, hsame]
      exact List.forall₂_take _ hshows
    rw [List.getLast?_eq_getElem?] at hlast
    obtain ⟨frame, hframe, -, hreg, hoff⟩ := forall₂_getElem? hpaired hlast
    rw [← hpaired.length_eq, ← List.getLast?_eq_getElem?] at hframe
    have hcfa := replay_cfa hunwind
    rw [← FrameOffset.rowsAt, hframe] at hcfa
    obtain ⟨houtReg, houtOff⟩ := Prod.mk.inj hcfa
    exact ⟨out, hunwind, houtReg.trans hreg, houtOff.trans hoff⟩

end Used

end OneCollect.Ruwind
