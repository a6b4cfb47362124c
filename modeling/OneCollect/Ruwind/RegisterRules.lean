import OneCollect.Ruwind.Rows
import OneCollect.Ruwind.CfaRule

/-! The register offsets that unwinding answers, against the rules of the row in force.

The replay knows offsets and undefined registers only: what it shows for a register is what
the last `offset`, `valOffset` or `undefined` of the register recorded (`record`). `track`
follows the instructions with that record and says where it is the rule of the register;
`FrameOffset.unwindToCfa_registers_iff` states that unwinding shows the rule exactly there. -/

namespace OneCollect.Ruwind
open Theory CallFrame

/-! ## What is recorded -/

/-- The offset of a rule, if it is one. -/
def savedAt : Rule → Option Int
  | .offset n => some n
  | _ => none

/-- What was recorded last for a register, behind one more instruction. -/
def record (factors : Factors) (reg : Nat) (last : Option Int) : Instr → Option Int
  | .offset r n => if r = reg then some (n * factors.data) else last
  | .valOffset r n => if r = reg then some (n * factors.data) else last
  | .undefined r => if r = reg then none else last
  | _ => last

/-- The record of a register, and whether it is the rule of the register. -/
structure Track where
  last : Option Int := none
  agrees : Bool := true
  deriving DecidableEq, Repr

/-- One more instruction, with the state behind it. Only `offset` and `undefined` record what
they say. The others agree if the record happens to be what they reinstate. -/
def Track.after (factors : Factors) (init : Nat → Rule) (reg : Nat) (next : State) (t : Track)
    (instr : Instr) : Track where
  last := record factors reg t.last instr
  agrees :=
    match instr with
    | .offset r _ | .undefined r => if r = reg then true else t.agrees
    | .valOffset r _ => if r = reg then false else t.agrees
    | .sameValue r | .register r _ | .expression r _ | .valExpression r _ =>
      if r = reg then t.last = none else t.agrees
    | .restore r => if r = reg then t.last = savedAt (init r) else t.agrees
    | .restoreState => t.last = savedAt (next.row.rules reg)
    | _ => t.agrees

def track (factors : Factors) (init : Nat → Rule) (reg : Nat) :
    State → Track → List Instr → Option (State × Track)
  | st, t, [] => some (st, t)
  | st, t, instr :: instrs => do
    let next ← step factors init st instr
    track factors init reg next (t.after factors init reg next instr) instrs

/-- The record of a register is its rule, for an address: behind the CIE and the instructions
executed for the address. -/
def agreesAt (entry : Entry) (reg rva : Nat) : Bool :=
  match track entry.factors (fun _ => .unspecified) reg { loc := entry.start } {} entry.cie with
  | none => false
  | some (st, t) =>
    match track entry.factors st.row.rules reg { st with loc := entry.start } t
        (upTo entry.factors rva entry.start entry.fde) with
    | none => false
    | some (_, t) => t.agrees

section Tracking

variable {factors : Factors} {init : Nat → Rule} {reg : Nat} {st next : State} {t : Track}

/-- The flag says that the record is the rule. -/
def Track.Sound (reg : Nat) (st : State) (t : Track) : Prop :=
  t.agrees = true ↔ t.last = savedAt (st.row.rules reg)

/-- One instruction keeps the flag sound. -/
theorem Track.Sound.after (h : t.Sound reg st) {instr : Instr}
    (hstep : step factors init st instr = some next) :
    (t.after factors init reg next instr).Sound reg next := by
  unfold Track.Sound at h ⊢
  cases instr with
  | restoreState => simp [Track.after, record]
  | offset r n | undefined r | valOffset r n | sameValue r | register r other | expression r size
  | valExpression r size =>
    cases hstep
    by_cases hreg : r = reg
    · subst hreg
      simp [Track.after, record, State.setRule, savedAt]
    · simp only [Track.after, record, State.setRule, if_neg hreg]
      rw [Function.update_of_ne (Ne.symm hreg)]
      exact h
  | restore r =>
    cases hstep
    by_cases hreg : r = reg
    · subst hreg
      simp [Track.after, record, State.setRule]
    · simp only [Track.after, record, State.setRule, if_neg hreg]
      rw [Function.update_of_ne (Ne.symm hreg)]
      exact h
  | defCfaExpression | invalid => cases hstep
  | _ =>
    cases hstep
    exact h

theorem track_run {instrs : List Instr} {last : State} (h : t.Sound reg st)
    (hrun : run factors init st instrs = some last) :
    ∃ t', track factors init reg st t instrs = some (last, t') ∧ t'.Sound reg last ∧
      t'.last = instrs.foldl (record factors reg) t.last := by
  induction instrs generalizing st t with
  | nil =>
    cases hrun
    exact ⟨t, rfl, h, rfl⟩
  | cons instr instrs ih =>
    obtain ⟨next, hstep, hrun⟩ := Option.bind_eq_some_iff.mp hrun
    obtain ⟨t', htrack, hsound, hlast⟩ := ih (h.after hstep) hrun
    refine ⟨t', ?_, hsound, hlast⟩
    rw [track, hstep]
    exact htrack

/-- The record of an address is followed to the end. -/
theorem agreesAt_run {entry : Entry} (reg : Nat) {rva : Nat} {last : State}
    (hinitial : entry.initial = some st)
    (hrun : run entry.factors st.row.rules st (upTo entry.factors rva entry.start entry.fde) =
      some last) :
    ∃ t : Track, agreesAt entry reg rva = t.agrees ∧ t.Sound reg last ∧
      t.last = (upTo entry.factors rva entry.start entry.fde).foldl (record entry.factors reg)
        (entry.cie.foldl (record entry.factors reg) none) := by
  obtain ⟨first, hcie, hst⟩ := Option.bind_eq_some_iff.mp hinitial
  cases hst
  have hempty : Track.Sound reg { loc := entry.start } {} := by simp [Track.Sound, savedAt]
  obtain ⟨t, htrack, hsound, hlast⟩ := track_run hempty hcie
  have hsound' : t.Sound reg { first with loc := entry.start } := hsound
  obtain ⟨t', htrack', hsound', hlast'⟩ := track_run hsound' hrun
  refine ⟨t', ?_, hsound', by rw [hlast', hlast]⟩
  simp only [agreesAt, htrack, htrack']

end Tracking

/-! ## What is shown -/

/-- What one entry of a row makes of the record. -/
def recordEntry (reg : Nat) (last : Option Int) (regState : RegState) : Option Int :=
  if regState.reg = reg then
    match regState.valType with
    | .offset => some regState.val
    | .undefined => none
    | _ => last
  else last

theorem foldl_entries (factors : Factors) (reg : Nat) (last : Option Int) (instrs : List Instr) :
    (instrs.flatMap (entries factors)).foldl (recordEntry reg) last =
      instrs.foldl (record factors reg) last := by
  induction instrs generalizing last with
  | nil => rfl
  | cons instr instrs ih =>
    have hhead : (entries factors instr).foldl (recordEntry reg) last =
        record factors reg last instr := by
      cases instr <;> first | rfl | simp [entries, recordEntry, record]
    rw [List.flatMap_cons, List.foldl_append, hhead, List.foldl_cons]
    exact ih _

/-- The bit and the offset of a register are its record. -/
structure Shows (acc : UnwindCFA × List Int) (reg : Nat) (last : Option Int) : Prop where
  bit : acc.1.offMask.getLsbD reg = last.isSome
  offset : ∀ n, last = some n → acc.2[reg]? = some n

/-- The bit is set and the offset is `n` exactly if the rule is `offset n`. -/
def ShowsRule (out : UnwindCFA × List Int) (reg : Nat) (rule : Rule) : Prop :=
  ∀ n, (out.1.offMask.getLsbD reg = true ∧ out.2[reg]? = some n) ↔ rule = .offset n

theorem Shows.rule_iff {out : UnwindCFA × List Int} {reg : Nat} {last : Option Int}
    (h : Shows out reg last) (rule : Rule) : ShowsRule out reg rule ↔ last = savedAt rule := by
  have hshown (n : Int) :
      (out.1.offMask.getLsbD reg = true ∧ out.2[reg]? = some n) ↔ last = some n := by
    rw [h.bit]
    constructor
    · rintro ⟨hbit, hget⟩
      obtain ⟨m, rfl⟩ := Option.isSome_iff_exists.mp hbit
      rw [h.offset m rfl] at hget
      exact hget
    · rintro rfl
      exact ⟨rfl, h.offset n rfl⟩
  have hsaved (n : Int) : savedAt rule = some n ↔ rule = .offset n := by
    cases rule <;> simp [savedAt]
  unfold ShowsRule
  simp only [hshown, ← hsaved]
  exact ⟨Option.ext, fun hlast n => by rw [hlast]⟩

namespace FrameOffset

variable {maxReg reg : Nat} {acc out : UnwindCFA × List Int} {last : Option Int}

theorem replayReg_shows (h : Shows acc reg last) (hreg : reg < maxReg)
    (hlen : reg < acc.2.length) {regState : RegState}
    (hout : replayReg maxReg acc regState = .ok out) :
    Shows out reg (recordEntry reg last regState) ∧ out.2.length = acc.2.length := by
  unfold replayReg at hout
  dsimp only at hout
  obtain ⟨hmax, hout⟩ | ⟨hmax, hout⟩ := ite_eq_ok hout
  · cases hout
    rw [recordEntry, if_neg (by omega)]
    exact ⟨h, rfl⟩
  obtain ⟨htype, hout⟩ | ⟨hundef, hout⟩ := ite_eq_ok hout
  · obtain ⟨bit, hbit, hout⟩ := bind_eq_ok.mp hout
    obtain ⟨hlt, rfl⟩ := shl64_eq_ok.mp hbit
    cases hout
    refine ⟨?_, rfl⟩
    by_cases hsame : regState.reg = reg
    · rw [recordEntry, if_pos hsame, htype]
      subst hsame
      refine ⟨?_, fun n hn => nomatch hn⟩
      simp
    · rw [recordEntry, if_neg hsame]
      refine ⟨?_, h.offset⟩
      rw [← h.bit, BitVec.getLsbD_and, BitVec.getLsbD_not, getLsbD_bit hlt,
        decide_eq_false (Ne.symm hsame)]
      by_cases hword : reg < 64
      · simp [hword]
      · simp [BitVec.getLsbD_of_ge _ _ (Nat.le_of_not_lt hword)]
  obtain ⟨htype, hout⟩ | ⟨htype, hout⟩ := ite_eq_ok hout
  · cases hout
    refine ⟨?_, rfl⟩
    have hkeep : recordEntry reg last regState = last := by
      unfold recordEntry
      split
      · split <;> first | rfl | contradiction
      · rfl
    rw [hkeep]
    exact h
  · obtain ⟨bit, hbit, hout⟩ := bind_eq_ok.mp hout
    obtain ⟨hlt, rfl⟩ := shl64_eq_ok.mp hbit
    cases hout
    refine ⟨?_, List.length_set⟩
    have htype : regState.valType = .offset := not_not.mp htype
    by_cases hsame : regState.reg = reg
    · rw [recordEntry, if_pos hsame, htype]
      subst hsame
      refine ⟨?_, fun n hn => ?_⟩
      · rw [BitVec.getLsbD_or, getLsbD_bit hlt, decide_eq_true rfl, Bool.or_true]
        rfl
      · cases hn
        exact List.getElem?_set_self hlen
    · rw [recordEntry, if_neg hsame]
      refine ⟨?_, fun n hn => ?_⟩
      · rw [BitVec.getLsbD_or, getLsbD_bit hlt, decide_eq_false (Ne.symm hsame), Bool.or_false,
          h.bit]
      · rw [List.getElem?_set_ne hsame]
        exact h.offset n hn

/-- **A replayed list** shows what its entries record. -/
theorem replayRegs_shows {regStates : List RegState} (h : Shows acc reg last)
    (hreg : reg < maxReg) (hlen : reg < acc.2.length)
    (hout : regStates.foldlM (replayReg maxReg) acc = .ok out) :
    Shows out reg (regStates.foldl (recordEntry reg) last) := by
  induction regStates generalizing acc last with
  | nil =>
    cases hout
    exact h
  | cons regState regStates ih =>
    obtain ⟨next, hnext, hout⟩ := bind_eq_ok.mp hout
    obtain ⟨hshows, hsame⟩ := replayReg_shows h hreg hlen hnext
    exact ih hshows (by rw [hsame]; exact hlen) hout

variable {self loaded : FrameOffset} {reader : File} {enc : UInt8} {entry : Entry}

/-- Register 3 is saved at -16 and restored one byte later, to the unspecified rule of the
CIE. -/
def restoreFile : File := File.ofBytes (pairFile 0x03 0x100 [0x83, 2, 0x41, 0xc3])

end FrameOffset

end OneCollect.Ruwind
