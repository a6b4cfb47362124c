import OneCollect.Ruwind.Walk
import OneCollect.Ruwind.Instructions

/-! The rows of an entry, as the format defines them and as the code builds them.

`FrameOffset.entry` decodes the bytes of an FDE and its CIE. `loadRules_frames` gives the rows
that `loadRules` builds for it: `framesOf`, one for each row of the format, with the CFA of
the row and the entries of the instructions since the row before. `replay_frames` replays them
for an address: the result is the CFA of the row in force, with the entries of the instructions
executed for the address (`upTo`) applied one after another. -/

namespace OneCollect.Ruwind
open Theory CallFrame

/-! ## Entries -/

/-- The code and data alignment factors, behind the augmentation string of a CIE. -/
def factorsAt (cieSlice : Bytes) : Option Factors :=
  match readString cieSlice 9 with
  | .ok (_, cursor) => do
    let (code, cursor) ← ulebAt cieSlice cursor
    let (data, _) ← slebAt cieSlice cursor
    some ⟨code, data⟩
  | .error _ => none

namespace FrameOffset

/-- The encoding of addresses and the entry that the bytes describe. Every address is read as
the initial location is, with the position of the FDE as its base. -/
def entry (self : FrameOffset) (reader : File) : Exec (UInt8 × Entry) := do
  let (fdeSlice, cieSlice) ← readEntries reader self.fde
  let header ← self.readHeader fdeSlice cieSlice
  let instrs (slice : Bytes) (cursor : Nat) : List Instr :=
    program (pointer header.options.enc (toI64 self.fde) slice) slice slice.length cursor
  match factorsAt cieSlice with
  | some factors =>
    .ok (header.options.enc,
      { start := header.pcStart
        factors
        cie := instrs cieSlice header.cieCursor
        fde := instrs fdeSlice header.fdeCursor })
  | none => panicked

end FrameOffset

/-- The augmentation data changes the encoding of addresses only. -/
theorem augLoop_options {entry aug : Bytes} {cursor cursor' : Nat} {options options' : FrameOptions}
    (h : augLoop entry aug cursor options = .ok (cursor', options')) :
    ∃ enc, options' = { options with enc } := by
  induction aug generalizing cursor options with
  | nil =>
    cases h
    exact ⟨options'.enc, rfl⟩
  | cons a aug ih =>
    unfold augLoop at h
    obtain ⟨-, h⟩ | ⟨-, h⟩ := ite_eq_ok h
    · obtain ⟨_, -, h⟩ := bind_eq_ok.mp h
      exact ih h
    obtain ⟨-, h⟩ | ⟨-, h⟩ := ite_eq_ok h
    · obtain ⟨_, -, h⟩ := bind_eq_ok.mp h
      obtain ⟨_, -, h⟩ := bind_eq_ok.mp h
      exact ih h
    obtain ⟨-, h⟩ | ⟨-, h⟩ := ite_eq_ok h
    · obtain ⟨_, -, h⟩ := bind_eq_ok.mp h
      obtain ⟨enc, hoptions⟩ := ih h
      exact ⟨enc, hoptions⟩
    · exact ih h

/-- The options of a CIE have its factors. -/
theorem parseCie_factors {cieSlice : Bytes} {cursor retReg : Nat} {options : FrameOptions}
    (h : FrameOffset.parseCie cieSlice {} = .ok (cursor, options, retReg)) :
    ∃ factors, factorsAt cieSlice = some factors ∧ options.cfaStack = [] ∧
      (Fits62 factors.code → Fits62 factors.data →
        options.codeAlign = factors.code ∧ options.dataAlign = factors.data) := by
  unfold FrameOffset.parseCie at h
  obtain ⟨-, h⟩ | ⟨-, h⟩ := ite_eq_ok h
  · cases h
  obtain ⟨cieId, -, h⟩ := bind_eq_ok.mp h
  obtain ⟨-, h⟩ | ⟨-, h⟩ := ite_eq_ok h
  · cases h
  obtain ⟨version, hversion, h⟩ := readByte_bind h
  obtain ⟨-, h⟩ | ⟨-, h⟩ := ite_eq_ok h
  · cases h
  obtain ⟨⟨augLen, cursor₁⟩, hstring, h⟩ := bind_eq_ok.mp h
  obtain ⟨aug, -, h⟩ := bind_eq_ok.mp h
  obtain ⟨code, cursor₂, hcode, h⟩ := readUleb_bind h
  obtain ⟨data, cursor₃, hdata, h⟩ := readSleb_bind h
  obtain ⟨ret, cursor₄, -, h⟩ := readUleb_bind h
  obtain ⟨-, h⟩ | ⟨hrange, h⟩ := ite_eq_ok h
  · cases h
  obtain ⟨first, -, h⟩ := bind_eq_ok.mp h
  have hoptions : ∃ enc hasAugData, options =
      { enc, hasAugData, codeAlign := signed 16 (wrap code % 2 ^ 16).toNat
        dataAlign := wrap data } := by
    obtain ⟨-, h⟩ | ⟨-, h⟩ := ite_eq_ok h
    · obtain ⟨augSize, cursor₅, -, h⟩ := readUleb_bind h
      obtain ⟨⟨cursor₆, options'⟩, haug, h⟩ := bind_eq_ok.mp h
      cases h
      obtain ⟨enc, rfl⟩ := augLoop_options haug
      exact ⟨_, _, rfl⟩
    · cases h
      exact ⟨_, _, rfl⟩
  obtain ⟨enc, hasAugData, rfl⟩ := hoptions
  refine ⟨⟨code, data⟩, ?_, rfl, fun hcodeFits hdataFits => ?_⟩
  · have hcursor : readString cieSlice 9 = .ok (augLen, cursor₁) := hstring
    simp [factorsAt, hcursor, hcode, hdata]
  · have hwrap : wrap (code : Int) = code := wrap_of_fits hcodeFits
    rw [hwrap] at hrange ⊢
    refine ⟨?_, wrap_of_fits hdataFits⟩
    have hsmall : ((code : Int) % 2 ^ 16).toNat = code := by omega
    dsimp only
    rw [hsmall, signed, if_pos (by omega)]

/-- The LEB128 operands of an entry have at most 62 bits. -/
structure FitsEntry (entry : Entry) : Prop where
  code : Fits62 entry.factors.code
  data : Fits62 entry.factors.data
  cie : ∀ instr ∈ entry.cie, instr.Fits
  fde : ∀ instr ∈ entry.fde, instr.Fits

/-- No address of a program is relative. -/
def NoRelative (enc : UInt8) (instrs : List Instr) : Prop :=
  Absolute enc ∨ ∀ instr ∈ instrs, ∀ address, instr ≠ .setLoc address

theorem NoRelative.cons {enc : UInt8} {instr : Instr} {instrs : List Instr}
    (h : NoRelative enc (instr :: instrs)) :
    (Absolute enc ∨ ∀ address, instr ≠ .setLoc address) ∧ NoRelative enc instrs := by
  obtain habs | hnone := h
  · exact ⟨Or.inl habs, Or.inl habs⟩
  · obtain ⟨hhead, htail⟩ := List.forall_mem_cons.mp hnone
    exact ⟨Or.inr hhead, Or.inr htail⟩

/-! ## The rows of the code -/

/-- The row of the code for a row under construction. -/
def frameOf (st : State) (regStates : List RegState) : FrameState :=
  { rva := toU64 st.loc, cfaReg := st.row.cfa.reg, cfaOff := st.row.cfa.off, regStates }

/-- The rows that the instructions build, with entries already in the first. -/
def framesOf (factors : Factors) (init : Nat → Rule) (st : State) (regStates : List RegState) :
    List Instr → Option (List FrameState)
  | [] => some [frameOf st regStates]
  | instr :: instrs => do
    let next ← step factors init st instr
    if instr.moves then
      (framesOf factors init next [] instrs).map (frameOf st regStates :: ·)
    else framesOf factors init next (regStates ++ entries factors instr) instrs

section Frames

variable {enc : UInt8} {base : Int} {factors : Factors} {init : Nat → Rule} {slice : Bytes}
  {s : RuleState} {st : State}

theorem frame_eq {frame : FrameState} (hrva : frame.rva = toU64 st.loc)
    (hreg : frame.cfaReg = st.row.cfa.reg) (hoff : frame.cfaOff = st.row.cfa.off) :
    frame = frameOf st frame.regStates := by
  unfold frameOf
  rw [← hrva, ← hreg, ← hoff]

/-- **The CIE's rules** leave the state of its program, with the entries of its instructions. -/
theorem cieRules_run (base : Int) (turns : Nat) (hs : Holds enc factors s st)
    (hfits : ∀ instr ∈ program (pointer enc base slice) slice turns s.cursor, instr.Fits)
    {s' : RuleState} (h : FrameOffset.cieRules slice turns s = .ok s') :
    ∃ st', run factors init st (program (pointer enc base slice) slice turns s.cursor) = some st' ∧
      Holds enc factors s' st' ∧ s'.frame.rva = s.frame.rva ∧
      s'.frame.regStates = s.frame.regStates ++
        (program (pointer enc base slice) slice turns s.cursor).flatMap (entries factors) := by
  induction turns generalizing s st with
  | zero =>
    cases h
    exact ⟨st, rfl, hs, rfl, (List.append_nil _).symm⟩
  | succ turns ih =>
    unfold FrameOffset.cieRules at h
    by_cases hlt : s.cursor < slice.length
    · rw [if_pos hlt] at h
      obtain ⟨out, hread, h⟩ := bind_eq_ok.mp h
      obtain ⟨instr, next, hdecode, hstep⟩ := readRule_step init base hs hread
      rw [program_cons _ _ hlt hdecode] at hfits ⊢
      obtain ⟨hhead, htail⟩ := List.forall_mem_cons.mp hfits
      obtain ⟨heffect, -, mid, hmid, hholds⟩ := hstep hhead
      rw [← heffect.cursor] at htail ⊢
      obtain ⟨last, hrun, hlast, hrva, hregs⟩ := ih hholds htail h
      refine ⟨last, ?_, hlast, hrva.trans heffect.rva, ?_⟩
      · rw [run, hmid]
        exact hrun
      · rw [hregs, heffect.regStates, List.flatMap_cons, List.append_assoc]
    · rw [if_neg hlt] at h
      cases h
      rw [program_end _ _ hlt]
      exact ⟨st, rfl, hs, rfl, (List.append_nil _).symm⟩

/-- **The FDE's rules** build the rows of its program. -/
theorem fdeRules_frames (base : Int) (turns : Nat) (hs : Holds enc factors s st)
    (hpc : s.pc = st.loc) (hrva : s.frame.rva = toU64 st.loc)
    (hfits : ∀ instr ∈ program (pointer enc base slice) slice turns s.cursor, instr.Fits)
    (hforward : Forward factors st.loc (program (pointer enc base slice) slice turns s.cursor))
    (hbase : NoRelative enc (program (pointer enc base slice) slice turns s.cursor))
    {acc frames : List FrameState} (h : FrameOffset.fdeRules slice turns acc s = .ok frames) :
    ∃ built, framesOf factors init st s.frame.regStates
        (program (pointer enc base slice) slice turns s.cursor) = some built ∧
      frames = acc ++ built := by
  have hframe := frame_eq hrva hs.reg hs.off
  induction turns generalizing s st acc with
  | zero =>
    cases h
    exact ⟨_, rfl, by rw [← hframe]⟩
  | succ turns ih =>
    unfold FrameOffset.fdeRules at h
    by_cases hlt : s.cursor < slice.length
    · rw [if_pos hlt] at h
      obtain ⟨⟨closed, s'⟩, hread, h⟩ := bind_eq_ok.mp h
      obtain ⟨instr, next, hdecode, hstep⟩ := readRule_step init base hs hread
      rw [program_cons _ _ hlt hdecode] at hfits hforward hbase ⊢
      obtain ⟨hhead, htail⟩ := List.forall_mem_cons.mp hfits
      obtain ⟨heffect, hmove, mid, hmid, hholds⟩ := hstep hhead
      obtain ⟨hahead, hforward⟩ := hforward
      obtain ⟨hbase, hbases⟩ := hbase.cons
      have hpc' : s'.pc = mid.loc := by
        rw [hmove hbase, hpc, step_loc hmid, max_eq_right (le_target hahead)]
      rw [← step_loc hmid] at hforward
      have hcursor : s'.cursor = next := heffect.cursor
      have hclosed : closed = instr.moves := heffect.closed
      have hregs := heffect.regStates
      have hsame := heffect.rva
      dsimp only at hholds hregs hsame h
      rw [← hcursor] at htail hforward hbases ⊢
      subst hclosed
      cases hmoves : instr.moves with
      | true =>
        rw [hmoves, if_pos rfl] at h
        rw [entries_of_moves factors hmoves, List.append_nil] at hregs
        obtain ⟨hrow, -⟩ := step_row_of_moves hmoves hmid
        have hrow' : s'.frame = frameOf st s.frame.regStates := by
          rw [← hregs]
          exact frame_eq (hsame.trans hrva) (by rw [← hrow]; exact hholds.reg)
            (by rw [← hrow]; exact hholds.off)
        have hnext : Holds enc factors { s' with frame :=
            { rva := toU64 s'.pc, cfaReg := s'.frame.cfaReg, cfaOff := s'.frame.cfaOff } } mid :=
          ⟨hholds.reg, hholds.off, hholds.saved, hholds.enc, hholds.codeAlign, hholds.dataAlign⟩
        have hrvaNext : toU64 s'.pc = toU64 mid.loc := by rw [hpc']
        obtain ⟨built, hbuilt, rfl⟩ := ih hnext hpc' hrvaNext htail hforward hbases h
          (frame_eq hrvaNext hnext.reg hnext.off)
        refine ⟨frameOf st s.frame.regStates :: built, ?_, ?_⟩
        · rw [framesOf, hmid]
          simp only [Option.bind_eq_bind, Option.bind_some, hmoves, if_true]
          rw [hbuilt]
          rfl
        · rw [hrow', List.append_assoc]
          rfl
      | false =>
        rw [hmoves, if_neg Bool.false_ne_true] at h
        have hloc := step_loc hmid
        rw [target_of_not_moves hmoves] at hloc
        have hrva' : s'.frame.rva = toU64 mid.loc := by rw [hsame, hrva, hloc]
        obtain ⟨built, hbuilt, rfl⟩ := ih hholds hpc' hrva' htail hforward hbases h
          (frame_eq hrva' hholds.reg hholds.off)
        refine ⟨built, ?_, rfl⟩
        rw [framesOf, hmid]
        simp only [Option.bind_eq_bind, Option.bind_some, hmoves, Bool.false_eq_true, if_false]
        rw [← hregs]
        exact hbuilt
    · rw [if_neg hlt] at h
      cases h
      rw [program_end _ _ hlt]
      exact ⟨_, rfl, by rw [← hframe]⟩

/-- Where there are rows of the code, the program has a table. -/
theorem rows_of_framesOf {instrs : List Instr} {regStates : List RegState}
    {built : List FrameState} (h : framesOf factors init st regStates instrs = some built) :
    ∃ table, rows factors init st instrs = some table := by
  induction instrs generalizing st regStates built with
  | nil => exact ⟨_, rfl⟩
  | cons instr instrs ih =>
    obtain ⟨next, hstep, h⟩ := Option.bind_eq_some_iff.mp h
    have hrest : ∃ rest, rows factors init next instrs = some rest := by
      split at h
      · obtain ⟨rest, hrest, -⟩ := Option.map_eq_some_iff.mp h
        exact ih hrest
      · exact ih h
    obtain ⟨rest, hrest⟩ := hrest
    unfold rows
    simp only [hstep, hrest, Option.bind_eq_bind, Option.bind_some]
    split <;> exact ⟨_, rfl⟩

/-- The first row starts at the location of the state. -/
theorem framesOf_head {instrs : List Instr} {regStates : List RegState}
    {built : List FrameState} (h : framesOf factors init st regStates instrs = some built) :
    ∃ first rest, built = first :: rest ∧ first.rva = toU64 st.loc := by
  induction instrs generalizing st regStates built with
  | nil =>
    cases h
    exact ⟨_, _, rfl, rfl⟩
  | cons instr instrs ih =>
    obtain ⟨next, hstep, h⟩ := Option.bind_eq_some_iff.mp h
    cases hmoves : instr.moves with
    | true =>
      rw [hmoves, if_pos rfl] at h
      obtain ⟨rest, -, rfl⟩ := Option.map_eq_some_iff.mp h
      exact ⟨_, _, rfl, rfl⟩
    | false =>
      rw [hmoves, if_neg Bool.false_ne_true] at h
      obtain ⟨first, rest, rfl, hrva⟩ := ih h
      have hloc := step_loc hstep
      rw [target_of_not_moves hmoves] at hloc
      exact ⟨first, rest, rfl, by rw [hrva, hloc]⟩

end Frames

namespace FrameOffset

variable {self loaded : FrameOffset} {reader : File}

theorem parseCie_of_readHeader {fdeSlice cieSlice : Bytes} {header : Header}
    (h : self.readHeader fdeSlice cieSlice = .ok header) :
    parseCie cieSlice {} = .ok (header.cieCursor, header.options, header.retReg) := by
  obtain ⟨⟨cieCursor, options, retReg⟩, hcie, h⟩ := bind_eq_ok.mp h
  obtain ⟨⟨pcStart, cursor⟩, -, h⟩ := bind_eq_ok.mp h
  obtain ⟨⟨pcSize, cursor'⟩, -, h⟩ := bind_eq_ok.mp h
  obtain ⟨-, h⟩ | ⟨-, h⟩ := ite_eq_ok h
  · obtain ⟨size, next, -, h⟩ := readUleb_bind h
    obtain ⟨fdeCursor, -, h⟩ := bind_eq_ok.mp h
    cases h
    exact hcie
  · cases h
    exact hcie

/-- **Loading** builds the rows of the entry. -/
theorem loadRules_frames (hload : self.loadRules reader = .ok loaded) {enc : UInt8}
    {entry : Entry} (hentry : self.entry reader = .ok (enc, entry)) (hfits : FitsEntry entry)
    (hforward : Forward entry.factors entry.start entry.fde) (hbase : NoRelative enc entry.fde) :
    ∃ st built, entry.initial = some st ∧
      framesOf entry.factors st.row.rules st (entry.cie.flatMap (entries entry.factors))
        entry.fde = some built ∧
      loaded.frameStates = self.frameStates ++ built := by
  obtain ⟨fdeSlice, cieSlice, header, frameStates, hentries, hheader, hrows, rfl⟩ :=
    loadRules_eq_ok.mp hload
  unfold FrameOffset.entry at hentry
  simp only [hentries, hheader, ok_bind] at hentry
  obtain ⟨factors, hfactors, hstack, haligned⟩ :=
    parseCie_factors (parseCie_of_readHeader hheader)
  rw [hfactors] at hentry
  cases hentry
  obtain ⟨hcodeAlign, hdataAlign⟩ := haligned hfits.code hfits.data
  obtain ⟨s, hcieRules, hfdeRules⟩ := bind_eq_ok.mp hrows
  have hstart : Holds header.options.enc factors
      { pc := header.pcStart
        frame := { rva := toU64 header.pcStart, cfaReg := 0, cfaOff := 0 }
        cursor := header.cieCursor
        options := header.options } { loc := header.pcStart } :=
    ⟨rfl, rfl, hstack, rfl, hcodeAlign, hdataAlign⟩
  obtain ⟨st, hrun, hholds, hrva, hregs⟩ := @cieRules_run header.options.enc factors
    (fun _ => .unspecified) cieSlice _ _ (toI64 self.fde) cieSlice.length hstart hfits.cie s
    hcieRules
  have hholds' : Holds header.options.enc factors
      { s with pc := header.pcStart, cursor := header.fdeCursor }
      { st with loc := header.pcStart } :=
    ⟨hholds.reg, hholds.off, hholds.saved, hholds.enc, hholds.codeAlign, hholds.dataAlign⟩
  obtain ⟨built, hbuilt, hframes⟩ := @fdeRules_frames header.options.enc factors st.row.rules fdeSlice _ _
    (toI64 self.fde) fdeSlice.length hholds' rfl hrva hfits.fde hforward hbase _ _ hfdeRules
  rw [hregs] at hbuilt
  refine ⟨{ st with loc := header.pcStart }, built, ?_, hbuilt, hframes⟩
  simp only [Entry.initial, hrun, Option.bind_eq_bind, Option.bind_some]

end FrameOffset

/-! ## Replaying the rows -/

namespace FrameOffset

/-- The accumulated row with another CFA. -/
def withCfa (cfa : Cfa) (acc : UnwindCFA × List Int) : UnwindCFA × List Int :=
  ({ acc.1 with reg := cfa.reg, off := cfa.off }, acc.2)

theorem replayReg_withCfa (maxReg : Nat) (cfa : Cfa) (acc : UnwindCFA × List Int)
    (regState : RegState) :
    replayReg maxReg (withCfa cfa acc) regState =
      (replayReg maxReg acc regState >>= fun out => .ok (withCfa cfa out)) := by
  unfold replayReg
  dsimp only [withCfa]
  split
  · rfl
  · split
    · cases shl64 1 regState.reg <;> rfl
    · split
      · rfl
      · cases shl64 1 regState.reg <;> rfl

theorem replayRegs_withCfa (maxReg : Nat) (cfa : Cfa) (regStates : List RegState)
    (acc : UnwindCFA × List Int) :
    regStates.foldlM (replayReg maxReg) (withCfa cfa acc) =
      (regStates.foldlM (replayReg maxReg) acc >>= fun out => .ok (withCfa cfa out)) := by
  induction regStates generalizing acc with
  | nil => rfl
  | cons regState regStates ih =>
    rw [List.foldlM_cons, List.foldlM_cons, replayReg_withCfa]
    cases replayReg maxReg acc regState with
    | error fault => rfl
    | ok out => exact ih out

variable {factors : Factors} {init : Nat → Rule} {maxReg rva : Nat}

theorem replay_of_lt {states : List FrameState}
    (h : ∀ state ∈ states.head?, rva < state.rva) (acc : UnwindCFA × List Int) :
    replay maxReg rva states acc = .ok acc := by
  cases states with
  | nil => rfl
  | cons state states => rw [replay, if_pos (h state rfl)]

theorem replay_frameOf {st : State} (hle : toU64 st.loc ≤ rva) (regStates : List RegState)
    (rest : List FrameState) (acc : UnwindCFA × List Int) :
    replay maxReg rva (frameOf st regStates :: rest) acc =
      (regStates.foldlM (replayReg maxReg) acc >>= fun out =>
        replay maxReg rva rest (withCfa st.row.cfa out)) := by
  have hstart : ¬ (frameOf st regStates).rva > rva := Nat.not_lt.mpr hle
  rw [replay, if_neg hstart]
  show (regStates.foldlM (replayReg maxReg) (withCfa st.row.cfa acc) >>= _) = _
  rw [replayRegs_withCfa, bind_assoc]
  rfl

/-- **The replay** applies the entries of the instructions executed for the address, and ends
with the CFA of the state behind them. -/
theorem replay_frames {instrs : List Instr} {st last : State} {regStates : List RegState}
    {built : List FrameState} (h : framesOf factors init st regStates instrs = some built)
    (hle : toU64 st.loc ≤ rva)
    (hrun : run factors init st (upTo factors rva st.loc instrs) = some last)
    (acc : UnwindCFA × List Int) :
    replay maxReg rva built acc =
      ((regStates ++ (upTo factors rva st.loc instrs).flatMap (entries factors)).foldlM
        (replayReg maxReg) acc >>= fun out => .ok (withCfa last.row.cfa out)) := by
  induction instrs generalizing st regStates built acc with
  | nil =>
    cases h
    cases hrun
    rw [replay_frameOf hle, upTo, List.flatMap_nil, List.append_nil]
    rfl
  | cons instr instrs ih =>
    obtain ⟨next, hstep, h⟩ := Option.bind_eq_some_iff.mp h
    have hloc := step_loc hstep
    unfold upTo at hrun ⊢
    rw [← hloc] at hrun ⊢
    cases hmoves : instr.moves with
    | true =>
      rw [hmoves, if_pos rfl] at h
      rw [hmoves] at hrun
      obtain ⟨rest, hrest, rfl⟩ := Option.map_eq_some_iff.mp h
      rw [replay_frameOf hle]
      by_cases hlt : rva < toU64 next.loc
      · rw [if_pos ⟨rfl, hlt⟩] at hrun ⊢
        cases hrun
        obtain ⟨first, others, rfl, hrva⟩ := framesOf_head hrest
        have hstop : ∀ state ∈ (first :: others).head?, rva < state.rva := by
          rintro state ⟨⟩
          rwa [hrva]
        simp only [replay_of_lt hstop, List.flatMap_nil, List.append_nil]
      · rw [if_neg fun hstop => hlt hstop.2] at hrun ⊢
        rw [run, hstep] at hrun
        have hreplay := ih hrest (Nat.le_of_not_lt hlt) hrun
        simp only [hreplay, List.nil_append, replayRegs_withCfa, List.flatMap_cons,
          entries_of_moves factors hmoves, List.foldlM_append, bind_assoc, ok_bind]
        rfl
    | false =>
      rw [hmoves, if_neg Bool.false_ne_true] at h
      rw [hmoves, if_neg fun hstop => Bool.false_ne_true hstop.1] at hrun
      rw [run, hstep] at hrun
      rw [target_of_not_moves hmoves] at hloc
      rw [if_neg fun hstop => Bool.false_ne_true hstop.1, List.flatMap_cons,
        ← List.append_assoc]
      exact ih h (by rw [hloc]; exact hle) hrun acc

/-! ### The row of an address -/

variable {self loaded : FrameOffset} {reader : File} {enc : UInt8} {entry : Entry}

theorem initial_loc {st : State} (h : entry.initial = some st) : st.loc = entry.start := by
  obtain ⟨first, -, h⟩ := Option.bind_eq_some_iff.mp h
  cases h
  rfl

/-- **Unwinding** from a loaded entry: nothing below its start, else the CFA of the row in force
and the entries of the CIE and of the instructions executed for the address. -/
theorem unwindToCfa_entry (hfresh : self.frameStates = [])
    (hload : self.loadRules reader = .ok loaded) (hentry : self.entry reader = .ok (enc, entry))
    (hfits : FitsEntry entry) (hforward : Forward entry.factors entry.start entry.fde)
    (hbase : NoRelative enc entry.fde) (regOffsets : List Int) (rva : Nat) :
    ∃ st table, entry.initial = some st ∧ entry.table = some table ∧
      (rva < toU64 entry.start → inForce rva table = none ∧
        loaded.unwindToCfa regOffsets rva = .ok ({}, regOffsets)) ∧
      (toU64 entry.start ≤ rva → ∃ last,
        run entry.factors st.row.rules st (upTo entry.factors rva entry.start entry.fde) =
          some last ∧
        inForce rva table = some last.row ∧
        loaded.unwindToCfa regOffsets rva =
          ((entry.cie.flatMap (entries entry.factors) ++
            (upTo entry.factors rva entry.start entry.fde).flatMap
              (entries entry.factors)).foldlM (replayReg (regOffsets.length % 256))
            ({}, regOffsets) >>= fun out => .ok (withCfa last.row.cfa out))) := by
  obtain ⟨st, built, hinitial, hbuilt, hframes⟩ :=
    loadRules_frames hload hentry hfits hforward hbase
  obtain ⟨table, htable⟩ := rows_of_framesOf hbuilt
  rw [hfresh, List.nil_append] at hframes
  have hloc := initial_loc hinitial
  refine ⟨st, table, hinitial, by rw [Entry.table, hinitial]; exact htable, fun hlt => ?_,
    fun hle => ?_⟩
  · obtain ⟨first, rest, hfirst, hrva⟩ := framesOf_head hbuilt
    refine ⟨inForce_of_lt htable (by rwa [hloc]), ?_⟩
    rw [unwindToCfa, hframes, hfirst]
    refine replay_of_lt ?_ _
    rintro state ⟨⟩
    rwa [hrva, hloc]
  · have hle' : toU64 st.loc ≤ rva := by
      rw [hloc]
      exact hle
    obtain ⟨last, hrun, hforce⟩ := inForce_rows htable hle'
    refine ⟨last, by rwa [← hloc], hforce, ?_⟩
    rw [unwindToCfa, hframes, replay_frames hbuilt hle' hrun, hloc]

end FrameOffset

end OneCollect.Ruwind
