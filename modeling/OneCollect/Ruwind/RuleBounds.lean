import OneCollect.Ruwind.Operands
import Mathlib.Logic.Relation

/-! What the instructions of `dwarf.rs` ask of their bytes, so that reading them does not panic.

An instruction fits (`RuleFits`) when its operands are in its slice and what is computed from them
is a word. A program fits (`RunFits`) when each instruction does in the state before it, and then
its loop, which takes at most as many turns as there are bytes, reads it to its end. -/

namespace OneCollect.Ruwind
open Theory CallFrame

/-! ## Instructions -/

section Instructions

variable (slice : Bytes) (s : RuleState)

/-- A factored offset, multiplied. -/
def FactorFits (n : Int) : Prop := InI64 (n * s.options.dataAlign)

/-- A factored distance, multiplied and added to the location. -/
def StepFits (delta : Nat) : Prop :=
  InI64 (delta * s.options.codeAlign) ∧ InI64 (s.pc + delta * s.options.codeAlign)

/-- The position behind a block. -/
def BlockFits (size : Int) (cursor : Nat) : Prop := cursor + toU64 size < 2 ^ 64

/-- The operands of the instructions with the top bits 0. -/
def ExtendedFits (opcode cursor : Nat) : Prop :=
  match opcode with
  | 0x01 => Reads (valueOperand s.options.enc s.pc slice cursor) fun _ _ => True
  | 0x02 => Reads (byteAt slice cursor) fun delta _ => StepFits s delta.toNat
  | 0x03 => Reads (wordAt slice 2 cursor) fun delta _ => StepFits s delta
  | 0x04 => Reads (wordAt slice 4 cursor) fun delta _ => StepFits s delta
  | 0x05 | 0x14 => Reads (ulebOperand slice cursor) fun _ next =>
    Reads (ulebOperand slice next) fun n _ => FactorFits s n
  | 0x06 | 0x07 | 0x08 | 0x0d | 0x0e | 0x2e =>
    Reads (ulebOperand slice cursor) fun _ _ => True
  | 0x09 | 0x0c => Reads (ulebOperand slice cursor) fun _ next =>
    Reads (ulebOperand slice next) fun _ _ => True
  | 0x0f => Reads (ulebOperand slice cursor) BlockFits
  | 0x10 | 0x16 => Reads (ulebOperand slice cursor) fun _ next =>
    Reads (ulebOperand slice next) BlockFits
  | 0x11 | 0x12 | 0x15 => Reads (ulebOperand slice cursor) fun _ next =>
    Reads (slebOperand slice next) fun n _ => FactorFits s n
  | 0x13 => Reads (slebOperand slice cursor) fun n _ => FactorFits s n
  | _ => True

/-- **An instruction fits.** Its opcode and its operands are in the slice, its numbers are of a
size that can be read, and what is computed from them fits a word. -/
def RuleFits : Prop :=
  Reads (byteAt slice s.cursor) fun ins next =>
    match ins.toNat / 64 with
    | 0 => ExtendedFits slice s (ins.toNat % 64) next
    | 1 => StepFits s (ins.toNat % 64)
    | 2 => Reads (ulebOperand slice next) fun n _ => FactorFits s n
    | _ => True

end Instructions

/-- `x` does not panic exactly when `fits`, and ends at or behind the position. -/
structure Asks (x : Exec (Bool × RuleState)) (cursor : Nat) (fits : Prop) : Prop where
  noPanic : NoPanic x ↔ fits
  cursor_le : ∀ {out}, x = .ok out → cursor ≤ out.2.cursor

section Asks

variable {slice : Bytes} {s : RuleState} {cursor : Nat} {x y : Exec (Bool × RuleState)}

/-- First a number, then the rest. -/
theorem Asks.reads {α : Type} {o : Option (α × Nat)} {f : α × Nat → Exec (Bool × RuleState)}
    {rest : α → Nat → Prop}
    (h : ∀ n next, o = some (n, next) → Asks (f (n, next)) cursor (rest n next)) :
    Asks (orPanic o >>= f) cursor (Reads o rest) where
  noPanic := by
    rw [← safely_true, safely_bind, safely_reads]
    constructor
    · rintro ⟨n, next, ho, hf⟩
      exact ⟨n, next, ho, (h n next ho).noPanic.mp (safely_true.mp hf)⟩
    · rintro ⟨n, next, ho, hrest⟩
      exact ⟨n, next, ho, safely_true.mpr ((h n next ho).noPanic.mpr hrest)⟩
  cursor_le := by
    intro out hout
    cases o with
    | none => cases hout
    | some read => exact (h read.1 read.2 rfl).cursor_le hout

theorem Asks.mono {first : Nat} {fits : Prop} (h : Asks x cursor fits) (hle : first ≤ cursor) :
    Asks x first fits :=
  ⟨h.noPanic, fun hout => le_trans hle (h.cursor_le hout)⟩

theorem asks_byte {f : UInt8 × Nat → Exec (Bool × RuleState)} {rest : UInt8 → Nat → Prop}
    (h : ∀ byte next, Asks (f (byte, next)) next (rest byte next)) :
    Asks (readByte slice cursor >>= f) (cursor + 1) (Reads (byteAt slice cursor) rest) := by
  rw [readByte_eq]
  refine Asks.reads fun byte next hread => ?_
  rw [← byteAt_next hread]
  exact h byte next

theorem asks_word {width : Nat} {f : Nat × Nat → Exec (Bool × RuleState)}
    {rest : Nat → Nat → Prop} (h : ∀ n next, Asks (f (n, next)) next (rest n next)) :
    Asks (readWord width slice cursor >>= f) cursor (Reads (wordAt slice width cursor) rest) := by
  rw [readWord_eq]
  exact Asks.reads fun n next hread => (h n next).mono (wordAt_le hread)

theorem asks_uleb {f : Int × Nat → Exec (Bool × RuleState)} {rest : Int → Nat → Prop}
    (h : ∀ n next, Asks (f (n, next)) next (rest n next)) :
    Asks (readUleb slice cursor >>= f) cursor (Reads (ulebOperand slice cursor) rest) := by
  rw [readUleb_eq]
  exact Asks.reads fun n next hread => (h n next).mono (ulebOperand_le hread)

theorem asks_sleb {f : Int × Nat → Exec (Bool × RuleState)} {rest : Int → Nat → Prop}
    (h : ∀ n next, Asks (f (n, next)) next (rest n next)) :
    Asks (readSleb slice cursor >>= f) cursor (Reads (slebOperand slice cursor) rest) := by
  rw [readSleb_eq]
  exact Asks.reads fun n next hread => (h n next).mono (slebOperand_le hread)

theorem asks_value {enc : UInt8} {base : Int} {f : Int × Nat → Exec (Bool × RuleState)}
    {rest : Int → Nat → Prop} (h : ∀ n next, Asks (f (n, next)) next (rest n next)) :
    Asks (readValue enc base slice cursor >>= f) cursor
      (Reads (valueOperand enc base slice cursor) rest) := by
  rw [readValue_eq]
  exact Asks.reads fun n next hread => (h n next).mono (valueOperand_le hread)

/-- A sum or a product that has to fit. -/
theorem asks_checkI64 {value : Int} {f : Int → Exec (Bool × RuleState)}
    (h : Asks (f value) cursor True) : Asks (checkI64 value >>= f) cursor (InI64 value) where
  noPanic := by
    rw [← safely_true, safely_bind, safely_checkI64, safely_true, h.noPanic, and_true]
  cursor_le := by
    intro out hout
    obtain ⟨checked, hchecked, hout⟩ := bind_eq_ok.mp hout
    obtain ⟨-, heq⟩ := checkI64_eq_ok.mp hchecked
    rw [heq] at hout
    exact h.cursor_le hout

theorem asks_block {size : Int} {f : Nat → Exec (Bool × RuleState)}
    (h : ∀ next, cursor ≤ next → Asks (f next) cursor True) :
    Asks (addU64 cursor (toU64 size) >>= f) cursor (BlockFits size cursor) where
  noPanic := by
    rw [← safely_true, safely_bind, safely_addU64, safely_true,
      (h _ (Nat.le_add_right _ _)).noPanic, and_true]
    rfl
  cursor_le := by
    intro out hout
    obtain ⟨next, hnext, hout⟩ := bind_eq_ok.mp hout
    obtain ⟨-, rfl⟩ := addU64_eq_ok.mp hnext
    exact (h _ (Nat.le_add_right _ _)).cursor_le hout

theorem asks_fail (text : String) : Asks (fail text) cursor True :=
  ⟨iff_of_true (noPanic_fail text) trivial, fun hout => absurd hout (fail_ne_ok text _)⟩

theorem asks_ok {out : Bool × RuleState} (h : cursor ≤ out.2.cursor) : Asks (.ok out) cursor True := by
  refine ⟨iff_of_true (noPanic_ok out) trivial, fun hout => ?_⟩
  cases hout
  exact h

/-- A change of the frame, which may be refused, at the end of an instruction. -/
theorem asks_frame {frame : Exec FrameState} {next : Nat} (hframe : NoPanic frame)
    (h : cursor ≤ next) : Asks (frame >>= fun frame => .ok (s.withFrame frame next)) cursor True := by
  refine ⟨iff_of_true ?_ trivial, fun hout => ?_⟩
  · exact noPanic_bind.mpr ⟨hframe, fun frame _ => noPanic_ok _⟩
  · obtain ⟨frame, -, hout⟩ := bind_eq_ok.mp hout
    cases hout
    exact h

theorem noPanic_setCfaReg (frame : FrameState) (reg : Int) : NoPanic (frame.setCfaReg reg) :=
  noPanic_ite.mpr ⟨fun _ => noPanic_fail _, fun _ => noPanic_ok _⟩

theorem noPanic_setCfaOffset (frame : FrameState) (off : Int) : NoPanic (frame.setCfaOffset off) :=
  noPanic_ite.mpr ⟨fun _ => noPanic_fail _, fun _ => noPanic_ok _⟩

theorem noPanic_addRegValue (frame : FrameState) (reg val : Int) (valType : ValueType) :
    NoPanic (frame.addRegValue reg val valType) :=
  noPanic_ite.mpr ⟨fun _ => noPanic_fail _, fun _ => noPanic_ok _⟩

theorem noPanic_setCfa (frame : FrameState) (reg off : Int) :
    NoPanic (frame.setCfaReg reg >>= fun frame => frame.setCfaOffset off) :=
  noPanic_bind.mpr ⟨noPanic_setCfaReg frame reg, fun frame _ => noPanic_setCfaOffset frame off⟩

theorem asks_advance (delta : Nat) : Asks (s.advance delta cursor) cursor (StepFits s delta) := by
  refine ⟨?_, fun hout => ?_⟩
  · rw [← safely_true, RuleState.advance, safely_bind, safely_checkI64, safely_bind,
      safely_checkI64, safely_ok, and_true]
    rfl
  · obtain ⟨step, -, hout⟩ := bind_eq_ok.mp hout
    obtain ⟨newPc, -, hout⟩ := bind_eq_ok.mp hout
    cases hout
    exact le_refl cursor

theorem asks_addOffset (reg n : Int) :
    Asks (s.addOffset reg n cursor) cursor (FactorFits s n) :=
  asks_checkI64 (asks_frame (noPanic_addRegValue _ _ _ _) (le_refl _))

theorem asks_addExpression :
    Asks (s.addExpression slice cursor) cursor
      (Reads (ulebOperand slice cursor) fun _ next => Reads (ulebOperand slice next) BlockFits) :=
  asks_uleb fun _ _ => asks_uleb fun _ _ => asks_block fun _ hle =>
    asks_frame (noPanic_addRegValue _ _ _ _) hle

/-- An opcode without operands. -/
theorem extendedFits_plain {opcode : Nat}
    (h : ∀ n ∈ [0x01, 0x02, 0x03, 0x04, 0x05, 0x06, 0x07, 0x08, 0x09, 0x0c, 0x0d, 0x0e, 0x0f,
      0x10, 0x11, 0x12, 0x13, 0x14, 0x15, 0x16, 0x2e], opcode ≠ n) :
    ExtendedFits slice s opcode cursor = True := by
  unfold ExtendedFits
  split
  all_goals first | rfl | exact absurd rfl (h _ (by decide))

theorem asks_readExtended (e : UInt8) :
    Asks (readExtended slice e s cursor) cursor (ExtendedFits slice s e.toNat cursor) := by
  unfold readExtended
  by_cases hnop : e = DW_CFA_NOP
  · rw [if_pos hnop, hnop]
    exact asks_ok (le_refl cursor)
  rw [if_neg hnop]
  by_cases hsetLoc : e = DW_CFA_SET_LOC
  · rw [if_pos hsetLoc, hsetLoc]
    exact asks_value fun _ _ => asks_ok (le_refl _)
  rw [if_neg hsetLoc]
  by_cases hadvance1 : e = DW_CFA_ADVANCE_LOC1
  · rw [if_pos hadvance1, hadvance1]
    exact (asks_byte fun _ _ => asks_advance _).mono (Nat.le_succ cursor)
  rw [if_neg hadvance1]
  by_cases hadvance2 : e = DW_CFA_ADVANCE_LOC2
  · rw [if_pos hadvance2, hadvance2]
    exact asks_word fun _ _ => asks_advance _
  rw [if_neg hadvance2]
  by_cases hadvance4 : e = DW_CFA_ADVANCE_LOC4
  · rw [if_pos hadvance4, hadvance4]
    exact asks_word fun _ _ => asks_advance _
  rw [if_neg hadvance4]
  by_cases hoffset : e = DW_CFA_OFFSET_EXTENDED
  · rw [if_pos hoffset, hoffset]
    exact asks_uleb fun _ _ => asks_uleb fun _ _ => asks_addOffset _ _
  rw [if_neg hoffset]
  by_cases hrestore : e = DW_CFA_RESTORE_EXTENDED
  · rw [if_pos hrestore, hrestore]
    exact asks_uleb fun _ _ => asks_frame (noPanic_addRegValue _ _ _ _) (le_refl _)
  rw [if_neg hrestore]
  by_cases hundefined : e = DW_CFA_UNDEFINED
  · rw [if_pos hundefined, hundefined]
    exact asks_uleb fun _ _ => asks_frame (noPanic_addRegValue _ _ _ _) (le_refl _)
  rw [if_neg hundefined]
  by_cases hsame : e = DW_CFA_SAME_VALUE
  · rw [if_pos hsame, hsame]
    exact asks_uleb fun _ _ => asks_ok (le_refl _)
  rw [if_neg hsame]
  by_cases hregister : e = DW_CFA_REGISTER
  · rw [if_pos hregister, hregister]
    exact asks_uleb fun _ _ => asks_uleb fun _ _ =>
      asks_frame (noPanic_addRegValue _ _ _ _) (le_refl _)
  rw [if_neg hregister]
  by_cases hremember : e = DW_CFA_REMEMBER_STATE
  · rw [if_pos hremember, hremember]
    exact asks_ok (le_refl cursor)
  rw [if_neg hremember]
  by_cases hpop : e = DW_CFA_RESTORE_STATE
  · rw [if_pos hpop, hpop]
    cases s.options.cfaStack with
    | nil => exact asks_fail _
    | cons cfaState cfaStack => exact asks_ok (le_refl cursor)
  rw [if_neg hpop]
  by_cases hcfa : e = DW_CFA_DEF_CFA
  · rw [if_pos hcfa, hcfa]
    refine asks_uleb fun reg next => asks_uleb fun off next => ?_
    have h := @asks_frame s next _ next (noPanic_setCfa s.frame reg off) (le_refl _)
    rwa [bind_assoc] at h
  rw [if_neg hcfa]
  by_cases hcfaReg : e = DW_CFA_DEF_CFA_REGISTER
  · rw [if_pos hcfaReg, hcfaReg]
    exact asks_uleb fun _ _ => asks_frame (noPanic_setCfaReg _ _) (le_refl _)
  rw [if_neg hcfaReg]
  by_cases hcfaOff : e = DW_CFA_DEF_CFA_OFFSET
  · rw [if_pos hcfaOff, hcfaOff]
    exact asks_uleb fun _ _ => asks_frame (noPanic_setCfaOffset _ _) (le_refl _)
  rw [if_neg hcfaOff]
  by_cases hcfaBlock : e = DW_CFA_DEF_CFA_EXPRESSION
  · rw [if_pos hcfaBlock, hcfaBlock]
    exact asks_uleb fun _ _ => asks_block fun _ _ => asks_fail _
  rw [if_neg hcfaBlock]
  by_cases hblock : e = DW_CFA_EXPRESSION
  · rw [if_pos hblock, hblock]
    exact asks_addExpression
  rw [if_neg hblock]
  by_cases hoffsetSf : e = DW_CFA_OFFSET_EXTENDED_SF
  · rw [if_pos hoffsetSf, hoffsetSf]
    exact asks_uleb fun _ _ => asks_sleb fun _ _ => asks_addOffset _ _
  rw [if_neg hoffsetSf]
  by_cases hcfaSf : e = DW_CFA_DEF_CFA_SF
  · rw [if_pos hcfaSf, hcfaSf]
    refine asks_uleb fun reg next => asks_sleb fun n next => asks_checkI64 ?_
    have h := @asks_frame s next _ next
      (noPanic_setCfa s.frame reg (n * s.options.dataAlign)) (le_refl _)
    rwa [bind_assoc] at h
  rw [if_neg hcfaSf]
  by_cases hcfaOffSf : e = DW_CFA_DEF_CFA_OFFSET_SF
  · rw [if_pos hcfaOffSf, hcfaOffSf]
    exact asks_sleb fun _ _ => asks_checkI64 (asks_frame (noPanic_setCfaOffset _ _) (le_refl _))
  rw [if_neg hcfaOffSf]
  by_cases hval : e = DW_CFA_VAL_OFFSET
  · rw [if_pos hval, hval]
    exact asks_uleb fun _ _ => asks_uleb fun _ _ => asks_addOffset _ _
  rw [if_neg hval]
  by_cases hvalSf : e = DW_CFA_VAL_OFFSET_SF
  · rw [if_pos hvalSf, hvalSf]
    exact asks_uleb fun _ _ => asks_sleb fun _ _ => asks_addOffset _ _
  rw [if_neg hvalSf]
  by_cases hvalBlock : e = DW_CFA_VAL_EXPRESSION
  · rw [if_pos hvalBlock, hvalBlock]
    exact asks_addExpression
  rw [if_neg hvalBlock]
  by_cases hargs : e = DW_CFA_GNU_ARGS_SIZE
  · rw [if_pos hargs, hargs]
    exact asks_uleb fun _ _ => asks_ok (le_refl _)
  rw [if_neg hargs]
  have hne {n : UInt8} (h : e ≠ n) : e.toNat ≠ n.toNat := fun heq => h (UInt8.toNat_inj.mp heq)
  rw [extendedFits_plain]
  · exact asks_fail _
  · simp only [List.forall_mem_cons]
    exact ⟨hne hsetLoc, hne hadvance1, hne hadvance2, hne hadvance4, hne hoffset, hne hrestore,
      hne hundefined, hne hsame, hne hregister, hne hcfa, hne hcfaReg, hne hcfaOff, hne hcfaBlock,
      hne hblock, hne hoffsetSf, hne hcfaSf, hne hcfaOffSf, hne hval, hne hvalSf, hne hvalBlock,
      hne hargs, fun n hn => absurd hn List.not_mem_nil⟩

/-- **An instruction** does not panic exactly when it fits, and it moves the cursor. -/
theorem asks_readRule : Asks (readRule slice s) (s.cursor + 1) (RuleFits slice s) := by
  unfold readRule RuleFits
  rw [readByte_eq]
  refine Asks.reads fun ins next hread => ?_
  rw [← byteAt_next hread]
  obtain ⟨hextended, hadvance, hoffset, hrestore⟩ := primary_eq ins
  rw [← toNat_and_63]
  by_cases h : ins &&& 0xC0 = DW_CFA_EXTENDED
  · simp only [if_pos h, hextended.mp h]
    exact asks_readExtended _
  by_cases h' : ins &&& 0xC0 = DW_CFA_ADVANCE_LOC
  · simp only [if_neg h, if_pos h', hadvance.mp h']
    exact asks_advance _
  by_cases h'' : ins &&& 0xC0 = DW_CFA_OFFSET
  · simp only [if_neg h, if_neg h', if_pos h'', hoffset.mp h'']
    exact asks_uleb fun _ _ => asks_addOffset _ _
  have hlast : ins.toNat / 64 = 3 := by
    have := mt hextended.mpr h
    have := mt hadvance.mpr h'
    have := mt hoffset.mpr h''
    have := ins.toNat_lt
    omega
  simp only [if_neg h, if_neg h', if_neg h'', if_pos (hrestore.mpr hlast), hlast]
  exact asks_frame (noPanic_addRegValue _ _ _ _) (le_refl _)

end Asks

namespace FrameOffset

/-! ## Programs -/

/-- The state in which the next row of an FDE is begun. -/
def nextRow : Bool × RuleState → RuleState
  | (true, s) =>
    { s with frame := { rva := toU64 s.pc, cfaReg := s.frame.cfaReg, cfaOff := s.frame.cfaOff } }
  | (false, s) => s

section Programs

variable (slice : Bytes) (next : Bool × RuleState → RuleState)

/-- One instruction of a program, with what becomes of the state behind it. -/
def Turn (s s' : RuleState) : Prop :=
  s.cursor < slice.length ∧ ∃ out, readRule slice s = .ok out ∧ s' = next out

/-- **A program fits.** From its first state on, each instruction fits in the state before it, and
the state behind the last is as `rest` asks. -/
def RunFits (s : RuleState) (rest : RuleState → Prop) : Prop :=
  ∀ s', Relation.ReflTransGen (Turn slice next) s s' →
    (s'.cursor < slice.length → RuleFits slice s') ∧ (slice.length ≤ s'.cursor → rest s')

variable {slice next} {s : RuleState} {rest : RuleState → Prop}

theorem runFits_end (h : slice.length ≤ s.cursor) : RunFits slice next s rest ↔ rest s := by
  constructor
  · exact fun hfits => (hfits s .refl).2 h
  · intro hrest s' hreach
    cases hreach.cases_head with
    | inl hsame =>
      subst hsame
      exact ⟨fun hlt => absurd h (Nat.not_le.mpr hlt), fun _ => hrest⟩
    | inr hturn =>
      obtain ⟨_, hturn, -⟩ := hturn
      exact absurd h (Nat.not_le.mpr hturn.1)

theorem runFits_step (h : s.cursor < slice.length) :
    RunFits slice next s rest ↔
      RuleFits slice s ∧ ∀ out, readRule slice s = .ok out → RunFits slice next (next out) rest := by
  constructor
  · exact fun hfits => ⟨(hfits s .refl).1 h,
      fun out hout s' hreach => hfits s' (.head ⟨h, out, hout, rfl⟩ hreach)⟩
  · rintro ⟨hrule, hfits⟩ s' hreach
    cases hreach.cases_head with
    | inl hsame =>
      subst hsame
      exact ⟨fun _ => hrule, fun hle => absurd h (Nat.not_lt.mpr hle)⟩
    | inr hturn =>
      obtain ⟨_, ⟨-, out, hout, rfl⟩, hreach⟩ := hturn
      exact hfits out hout s' hreach

/-- The instruction at the cursor, in a run that goes on with it. -/
theorem safely_readRule {P : Bool × RuleState → Prop} :
    Safely (readRule slice s) P ↔ RuleFits slice s ∧ ∀ out, readRule slice s = .ok out → P out :=
  and_congr_left fun _ => asks_readRule.noPanic

variable {turns : Nat}

/-- **The rules of a CIE** are read without a panic exactly when they fit. -/
theorem safely_cieRules (h : slice.length ≤ turns + s.cursor) {P : RuleState → Prop} :
    Safely (cieRules slice turns s) P ↔ RunFits slice Prod.snd s P := by
  induction turns generalizing s with
  | zero =>
    rw [cieRules, safely_ok, runFits_end (by omega)]
  | succ turns ih =>
    rw [cieRules]
    by_cases hlt : s.cursor < slice.length
    · rw [if_pos hlt, safely_bind, safely_readRule, runFits_step hlt]
      refine and_congr_right fun _ => forall_congr' fun out => imp_congr_right fun hout => ih ?_
      have := asks_readRule.cursor_le hout
      omega
    · rw [if_neg hlt, safely_ok, runFits_end (Nat.not_lt.mp hlt)]

/-- **The rules of an FDE** are read without a panic exactly when they fit. -/
theorem noPanic_fdeRules (h : slice.length ≤ turns + s.cursor) {frameStates : List FrameState} :
    NoPanic (fdeRules slice turns frameStates s) ↔ RunFits slice nextRow s fun _ => True := by
  induction turns generalizing s frameStates with
  | zero => exact iff_of_true (noPanic_ok _) ((runFits_end (by omega)).mpr trivial)
  | succ turns ih =>
    rw [fdeRules]
    by_cases hlt : s.cursor < slice.length
    · rw [if_pos hlt, noPanic_bind, asks_readRule.noPanic, runFits_step hlt]
      refine and_congr_right fun _ => forall_congr' fun out => imp_congr_right fun hout => ?_
      have hle := asks_readRule.cursor_le hout
      obtain ⟨closed, s'⟩ := out
      cases closed with
      | true => exact ih (s := nextRow (true, s')) (by simp only [nextRow] at hle ⊢; omega)
      | false => exact ih (s := s') (by simp only at hle; omega)
    · rw [if_neg hlt]
      exact iff_of_true (noPanic_ok _) ((runFits_end (Nat.not_lt.mp hlt)).mpr trivial)

/-- More turns than bytes are not taken. -/
theorem cieRules_more (h : slice.length ≤ turns + s.cursor) (more : Nat) :
    cieRules slice (turns + more) s = cieRules slice turns s := by
  induction turns generalizing s with
  | zero =>
    cases more with
    | zero => rfl
    | succ more => exact if_neg (by omega)
  | succ turns ih =>
    rw [Nat.add_right_comm, cieRules, cieRules]
    by_cases hlt : s.cursor < slice.length
    · rw [if_pos hlt, if_pos hlt]
      cases hread : readRule slice s with
      | error fault => rfl
      | ok out =>
        have := asks_readRule.cursor_le hread
        exact ih (by omega)
    · rw [if_neg hlt, if_neg hlt]

theorem fdeRules_more (h : slice.length ≤ turns + s.cursor) (more : Nat)
    (frameStates : List FrameState) :
    fdeRules slice (turns + more) frameStates s = fdeRules slice turns frameStates s := by
  induction turns generalizing s frameStates with
  | zero =>
    cases more with
    | zero => rfl
    | succ more => exact if_neg (by omega)
  | succ turns ih =>
    rw [Nat.add_right_comm, fdeRules, fdeRules]
    by_cases hlt : s.cursor < slice.length
    · rw [if_pos hlt, if_pos hlt]
      cases hread : readRule slice s with
      | error fault => rfl
      | ok out =>
        have hle := asks_readRule.cursor_le hread
        obtain ⟨closed, s'⟩ := out
        cases closed with
        | true => exact ih (s := nextRow (true, s')) (by simp only [nextRow] at hle ⊢; omega) _
        | false => exact ih (s := s') (by simp only at hle; omega) _
    · rw [if_neg hlt, if_neg hlt]

end Programs

end FrameOffset

end OneCollect.Ruwind
