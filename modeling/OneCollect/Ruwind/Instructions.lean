import OneCollect.Ruwind.Dwarf
import OneCollect.Theory.CallFrame

/-! The instructions that `readRule` reads are those of `Theory.CallFrame`.

`readRule_decode` splits it in two: the bytes decode to an instruction, and with operands of
at most 62 bits the state changes by the instruction (`apply`). `apply_step` compares that
change with the row of the format: the CFA is its CFA, the saved CFAs are those of its saved
rows, and the register rules are entries of a list (`entries`). -/

namespace OneCollect.Ruwind
open Theory CallFrame

/-! ## Reading numbers -/

theorem toNat_and_127 (byte : UInt8) : (byte &&& 127).toNat = byte.toNat % 128 := by
  rw [UInt8.toNat_and]
  exact Nat.and_two_pow_sub_one_eq_mod byte.toNat 7

theorem and_128_eq_zero_iff (byte : UInt8) : byte &&& 128 = 0 ↔ byte.toNat < 128 := by
  have hall : ∀ b : Fin 256, UInt8.ofFin b &&& 128 = 0 ↔ b.val < 128 := by decide +kernel
  exact hall byte.toFin

theorem and_64_ne_zero_iff (byte : UInt8) (h : byte.toNat < 128) :
    byte &&& 64 ≠ 0 ↔ 64 ≤ byte.toNat := by
  have hall : ∀ b : Fin 256, b.val < 128 → (UInt8.ofFin b &&& 64 ≠ 0 ↔ 64 ≤ b.val) := by
    decide +kernel
  exact hall byte.toFin h

theorem low7_eq (byte : UInt8) : low7 byte = BitVec.ofNat 64 (byte.toNat % 128) := by
  rw [low7, toNat_and_127]

theorem shl64_eq_ok {x y : BitVec 64} {bit : Nat} :
    shl64 x bit = .ok y ↔ bit < 64 ∧ y = x <<< bit :=
  guarded_eq_ok

/-- Putting a part in front of the parts that follow it. -/
theorem or_parts (value : BitVec 64) {low : Nat} (h : low < 128) (n : Int) (bit : Nat) :
    value ||| (BitVec.ofNat 64 low <<< bit) ||| (BitVec.ofInt 64 n <<< (bit + 7)) =
      value ||| (BitVec.ofInt 64 (low + 128 * n) <<< bit) := by
  rw [BitVec.or_assoc, Nat.add_comm bit 7, BitVec.shiftLeft_add, ← BitVec.shiftLeft_or_distrib,
    word_cons h]

theorem ulebLoop_spec {rest : Bytes} {value word : BitVec 64} {bit pos pos' : Nat}
    (h : ulebLoop rest value bit pos = .ok (word, pos')) :
    ∃ n len, uleb rest = some (n, len) ∧ pos' = pos + len ∧
      word = value ||| (BitVec.ofInt 64 n <<< bit) := by
  induction rest generalizing value bit pos with
  | nil => cases h
  | cons byte rest ih =>
    obtain ⟨part, hpart, h⟩ := bind_eq_ok.mp h
    obtain ⟨-, rfl⟩ := shl64_eq_ok.mp hpart
    rw [low7_eq] at h
    unfold uleb
    by_cases hlast : byte &&& 128 = 0
    · rw [if_pos hlast] at h
      cases h
      have hlt := (and_128_eq_zero_iff byte).mp hlast
      rw [if_pos hlt, Nat.mod_eq_of_lt hlt]
      exact ⟨_, _, rfl, rfl, by rw [BitVec.ofInt_natCast]⟩
    · rw [if_neg hlast] at h
      obtain ⟨n, len, hn, hpos, hword⟩ := ih h
      rw [if_neg (mt (and_128_eq_zero_iff byte).mpr hlast), hn]
      refine ⟨_, _, rfl, by omega, ?_⟩
      rw [hword, or_parts value (Nat.mod_lt _ (by decide)) n bit]
      push_cast
      rfl

theorem slebLoop_spec {rest : Bytes} {value word : BitVec 64} {bit pos pos' : Nat}
    (h : slebLoop rest value bit pos = .ok (word, pos')) :
    ∃ n len, sleb rest = some (n, len) ∧ pos' = pos + len ∧
      word = value ||| (BitVec.ofInt 64 n <<< bit) := by
  induction rest generalizing value bit pos with
  | nil => cases h
  | cons byte rest ih =>
    obtain ⟨part, hpart, h⟩ := bind_eq_ok.mp h
    obtain ⟨-, rfl⟩ := shl64_eq_ok.mp hpart
    rw [low7_eq] at h
    unfold sleb
    by_cases hlast : byte &&& 128 = 0
    · rw [if_pos hlast] at h
      have hlt := (and_128_eq_zero_iff byte).mp hlast
      rw [Nat.mod_eq_of_lt hlt] at h
      by_cases hneg : 64 ≤ byte.toNat
      · rw [if_neg (by omega), if_pos hlt]
        refine ⟨_, _, rfl, ?_⟩
        by_cases hbit : bit + 7 < 64
        · rw [if_pos ⟨hbit, (and_64_ne_zero_iff byte hlt).mpr hneg⟩] at h
          obtain ⟨sign, hsign, h⟩ := bind_eq_ok.mp h
          unfold signExtension at hsign
          split at hsign
          · cases hsign
          · cases hsign
            cases h
            exact ⟨rfl, by rw [BitVec.or_assoc, word_last hlt]⟩
        · rw [if_neg fun hsign => hbit hsign.1] at h
          cases h
          exact ⟨rfl, by rw [word_last_of_le hlt (by omega)]⟩
      · rw [if_neg fun hsign => hneg ((and_64_ne_zero_iff byte hlt).mp hsign.2)] at h
        cases h
        rw [if_pos (by omega), ← BitVec.ofInt_natCast]
        exact ⟨_, _, rfl, rfl, rfl⟩
    · rw [if_neg hlast] at h
      obtain ⟨n, len, hn, hpos, hword⟩ := ih h
      have hge : ¬ byte.toNat < 128 := mt (and_128_eq_zero_iff byte).mpr hlast
      rw [if_neg (by omega), if_neg hge, hn]
      exact ⟨_, _, rfl, by omega, by rw [hword, or_parts value (Nat.mod_lt _ (by decide)) n bit]⟩

/-- The number that a 64-bit word makes of an operand. -/
def wrap (n : Int) : Int := (BitVec.ofInt 64 n).toInt

theorem wrap_of_fits {n : Int} (h : Fits62 n) : wrap n = n :=
  toInt_ofInt_of_inRange (by unfold Fits62 at h; omega) (by unfold Fits62 at h; omega)

section Readers

variable {β : Type} {slice : Bytes} {cursor : Nat} {out : β}

theorem readUleb_bind {k : Int × Nat → Exec β} (h : (readUleb slice cursor >>= k) = .ok out) :
    ∃ n next, ulebAt slice cursor = some (n, next) ∧ k (wrap n, next) = .ok out := by
  obtain ⟨⟨value, next⟩, hread, h⟩ := bind_eq_ok.mp h
  obtain ⟨⟨word, pos⟩, hloop, hread⟩ := bind_eq_ok.mp hread
  cases hread
  obtain ⟨n, len, hn, rfl, hword⟩ := ulebLoop_spec hloop
  have hwrap : word.toInt = wrap n := by
    rw [hword, BitVec.shiftLeft_zero, wrap]
    simp
  exact ⟨n, cursor + len, by rw [ulebAt, hn]; rfl, by rw [← hwrap]; exact h⟩

theorem readSleb_bind {k : Int × Nat → Exec β} (h : (readSleb slice cursor >>= k) = .ok out) :
    ∃ n next, slebAt slice cursor = some (n, next) ∧ k (wrap n, next) = .ok out := by
  obtain ⟨⟨value, next⟩, hread, h⟩ := bind_eq_ok.mp h
  obtain ⟨⟨word, pos⟩, hloop, hread⟩ := bind_eq_ok.mp hread
  cases hread
  obtain ⟨n, len, hn, rfl, hword⟩ := slebLoop_spec hloop
  have hwrap : word.toInt = wrap n := by
    rw [hword, BitVec.shiftLeft_zero, wrap]
    simp
  exact ⟨n, cursor + len, by rw [slebAt, hn]; rfl, by rw [← hwrap]; exact h⟩

theorem readWord_bind {width : Nat} {k : Nat × Nat → Exec β}
    (h : (readWord width slice cursor >>= k) = .ok out) :
    ∃ n next, wordAt slice width cursor = some (n, next) ∧ k (n, next) = .ok out := by
  obtain ⟨⟨value, next⟩, hread, h⟩ := bind_eq_ok.mp h
  obtain ⟨word, hword, hread⟩ := bind_eq_ok.mp hread
  cases hread
  obtain ⟨hle, rfl⟩ := readLe_eq_ok.mp hword
  exact ⟨_, _, by rw [wordAt, if_pos hle], h⟩

theorem readByte_bind {k : UInt8 × Nat → Exec β}
    (h : (readByte slice cursor >>= k) = .ok out) :
    ∃ byte, slice[cursor]? = some byte ∧ k (byte, cursor + 1) = .ok out := by
  obtain ⟨⟨byte, next⟩, hread, h⟩ := bind_eq_ok.mp h
  obtain ⟨byte', hget, hread⟩ := bind_eq_ok.mp hread
  cases hread
  exact ⟨byte, getAt_eq_ok.mp hget, h⟩

/-- One byte is a word. -/
theorem wordAt_one {byte : UInt8} (h : slice[cursor]? = some byte) :
    wordAt slice 1 cursor = some (byte.toNat, cursor + 1) := by
  obtain ⟨hlt, rfl⟩ := List.getElem?_eq_some_iff.mp h
  rw [wordAt, if_pos (by omega), List.drop_eq_getElem_cons hlt, List.take_succ_cons, List.take_zero]
  simp [fromLe]

end Readers

/-! ## Encoded addresses -/

/-- What a relative encoding counts from. -/
def origin (enc : UInt8) (base : Int) (cursor : Nat) : Int :=
  if enc &&& DW_EH_PE_APPL_MASK = DW_EH_PE_PCREL then base + cursor
  else if enc &&& DW_EH_PE_APPL_MASK = DW_EH_PE_DATAREL then base
  else 0

/-- An encoded address in the bytes of an entry whose base is `base`, in full. -/
def pointer (enc : UInt8) (base : Int) (slice : Bytes) (cursor : Nat) : Option (Int × Nat) :=
  match readFormat (enc &&& DW_EH_PE_FORMAT_MASK) slice cursor with
  | .ok (value, next) => some (value + origin enc base cursor, next)
  | .error _ => none

/-- The encoding counts from no base. -/
def Absolute (enc : UInt8) : Prop :=
  enc &&& DW_EH_PE_APPL_MASK ≠ DW_EH_PE_PCREL ∧ enc &&& DW_EH_PE_APPL_MASK ≠ DW_EH_PE_DATAREL

instance : DecidablePred Absolute := fun _ => inferInstanceAs (Decidable (_ ∧ _))

section Pointer

variable {enc : UInt8} {base : Int} {slice : Bytes} {cursor : Nat}

theorem readValue_pointer {value : Int} {next : Nat}
    (h : readValue enc base slice cursor = .ok (value, next)) :
    pointer enc base slice cursor = some (value, next) := by
  obtain ⟨⟨raw, next'⟩, hraw, h⟩ := bind_eq_ok.mp h
  unfold pointer origin
  rw [hraw]
  by_cases hpcrel : enc &&& DW_EH_PE_APPL_MASK = DW_EH_PE_PCREL
  · simp only [if_pos hpcrel] at h ⊢
    obtain ⟨first, hfirst, h⟩ := bind_eq_ok.mp h
    obtain ⟨second, hsecond, h⟩ := bind_eq_ok.mp h
    obtain ⟨-, rfl⟩ := checkI64_eq_ok.mp hfirst
    obtain ⟨-, rfl⟩ := checkI64_eq_ok.mp hsecond
    cases h
    rw [Int.add_assoc]
  · simp only [if_neg hpcrel] at h ⊢
    by_cases hdatarel : enc &&& DW_EH_PE_APPL_MASK = DW_EH_PE_DATAREL
    · simp only [if_pos hdatarel] at h ⊢
      obtain ⟨first, hfirst, h⟩ := bind_eq_ok.mp h
      obtain ⟨-, rfl⟩ := checkI64_eq_ok.mp hfirst
      cases h
      rfl
    · simp only [if_neg hdatarel] at h ⊢
      cases h
      rw [Int.add_zero]

theorem pointer_absolute (h : Absolute enc) (base' : Int) :
    pointer enc base slice = pointer enc base' slice := by
  funext cursor
  simp only [pointer, origin, if_neg h.1, if_neg h.2]

/-- Two bases give two addresses that end at the same position. -/
theorem pointer_base (base' : Int) (cursor : Nat) (address : Int) (next : Nat)
    (h : pointer enc base slice cursor = some (address, next)) :
    ∃ address', pointer enc base' slice cursor = some (address', next) := by
  unfold pointer at h ⊢
  split at h
  · cases h
    exact ⟨_, rfl⟩
  · cases h

end Pointer

/-! ## Effects -/

namespace RuleState

def addRule (s : RuleState) (reg val : Int) (valType : ValueType) (cursor : Nat) :
    Exec (Bool × RuleState) := do
  let frame ← s.frame.addRegValue reg val valType
  .ok (s.withFrame frame cursor)

/-- What `readRule` makes of an instruction. -/
def apply (s : RuleState) (cursor : Nat) : Instr → Exec (Bool × RuleState)
  | .nop => .ok (s.withFrame s.frame cursor)
  | .setLoc address => .ok (s.moveTo address cursor)
  | .advance delta => s.advance delta cursor
  | .offset reg n => s.addOffset reg n cursor
  | .valOffset reg n => s.addOffset reg n cursor
  | .restore reg => s.addRule reg 0 .restore cursor
  | .undefined reg => s.addRule reg 0 .undefined cursor
  | .sameValue _ => .ok (s.withFrame s.frame cursor)
  | .register reg other => s.addRule reg other .reg cursor
  | .expression reg _ => s.addRule reg 0 .expression cursor
  | .valExpression reg _ => s.addRule reg 0 .expression cursor
  | .rememberState =>
    let saved : CFAState := ⟨s.frame.cfaReg, s.frame.cfaOff⟩
    .ok (false, { s with
      cursor, options := { s.options with cfaStack := saved :: s.options.cfaStack } })
  | .restoreState =>
    match s.options.cfaStack with
    | cfaState :: cfaStack =>
      .ok (false, { s with
        cursor
        frame := { s.frame with cfaReg := cfaState.cfaReg, cfaOff := cfaState.cfaOff }
        options := { s.options with cfaStack } })
    | [] => fail "Unbalanced state restore"
  | .defCfa reg off => do
    let frame ← s.frame.setCfaReg reg
    let frame ← frame.setCfaOffset off
    .ok (s.withFrame frame cursor)
  | .defCfaSf reg n => do
    let off ← checkI64 (n * s.options.dataAlign)
    let frame ← s.frame.setCfaReg reg
    let frame ← frame.setCfaOffset off
    .ok (s.withFrame frame cursor)
  | .defCfaRegister reg => do
    let frame ← s.frame.setCfaReg reg
    .ok (s.withFrame frame cursor)
  | .defCfaOffset off => do
    let frame ← s.frame.setCfaOffset off
    .ok (s.withFrame frame cursor)
  | .defCfaOffsetSf n => do
    let off ← checkI64 (n * s.options.dataAlign)
    let frame ← s.frame.setCfaOffset off
    .ok (s.withFrame frame cursor)
  | .defCfaExpression _ => fail "CFA expression not supported"
  | .argsSize _ => .ok (s.withFrame s.frame cursor)
  | .invalid => fail "Unknown DWARF extended opcode"

end RuleState

section Decode

variable {slice : Bytes} {cursor : Nat} {s : RuleState} {out : Bool × RuleState}

theorem regAnd_eq {α : Type} {second : Nat → Option (α × Nat)} (make : Nat → α → Instr)
    {reg next last : Nat} {operand : α} (hreg : ulebAt slice cursor = some (reg, next))
    (hoperand : second next = some (operand, last)) :
    regAnd slice second make cursor = some (make reg operand, last) := by
  simp [regAnd, hreg, hoperand]

theorem one_eq {make : Nat → Instr} {n next : Nat} (h : ulebAt slice cursor = some (n, next)) :
    one slice make cursor = some (make n, next) := by
  simp [one, h]

theorem ite_eq_ok {α : Type} {c : Prop} [Decidable c] {x y : Exec α} {a : α}
    (h : (if c then x else y) = .ok a) : c ∧ x = .ok a ∨ ¬ c ∧ y = .ok a := by
  by_cases hc : c
  · exact Or.inl ⟨hc, by rwa [if_pos hc] at h⟩
  · exact Or.inr ⟨hc, by rwa [if_neg hc] at h⟩

theorem addExpression_decode (make : Nat → Nat → Instr)
    (h : s.addExpression slice cursor = .ok out) :
    ∃ reg size next, regAndBlock slice make cursor = some (make reg size, next) ∧
      (Fits62 reg ∧ Fits62 size → s.addRule reg 0 .expression next = .ok out) := by
  obtain ⟨reg, next, hreg, h⟩ := readUleb_bind h
  obtain ⟨size, next', hsize, h⟩ := readUleb_bind h
  obtain ⟨last, hlast, h⟩ := bind_eq_ok.mp h
  obtain ⟨-, rfl⟩ := addU64_eq_ok.mp hlast
  refine ⟨reg, size, next' + size, ?_, fun ⟨hregFits, hsizeFits⟩ => ?_⟩
  · simp [regAndBlock, hreg, hsize]
  · rw [wrap_of_fits hregFits, wrap_of_fits hsizeFits] at h
    have hnat : toU64 (size : Int) = size := by
      unfold Fits62 at hsizeFits
      rw [toU64_of_nonneg (by omega) (by omega)]
      rfl
    rwa [hnat] at h

theorem readExtended_decode {e : UInt8} (h : readExtended slice e s cursor = .ok out) :
    ∃ instr next,
      decodeExtended (pointer s.options.enc s.pc slice) slice e.toNat cursor = some (instr, next) ∧
      (instr.Fits → s.apply next instr = .ok out) := by
  unfold readExtended at h
  obtain ⟨rfl, h⟩ | ⟨-, h⟩ := ite_eq_ok h
  · exact ⟨.nop, cursor, rfl, fun _ => h⟩
  obtain ⟨rfl, h⟩ | ⟨-, h⟩ := ite_eq_ok h
  · obtain ⟨⟨address, next⟩, hread, h⟩ := bind_eq_ok.mp h
    refine ⟨.setLoc address, next, ?_, fun _ => h⟩
    show (pointer s.options.enc s.pc slice cursor).map _ = _
    rw [readValue_pointer hread]
    rfl
  obtain ⟨rfl, h⟩ | ⟨-, h⟩ := ite_eq_ok h
  · obtain ⟨delta, hdelta, h⟩ := readByte_bind h
    refine ⟨.advance delta.toNat, cursor + 1, ?_, fun _ => h⟩
    show (wordAt slice 1 cursor).map _ = _
    rw [wordAt_one hdelta]
    rfl
  obtain ⟨rfl, h⟩ | ⟨-, h⟩ := ite_eq_ok h
  · obtain ⟨delta, next, hdelta, h⟩ := readWord_bind h
    refine ⟨.advance delta, next, ?_, fun _ => h⟩
    show (wordAt slice 2 cursor).map _ = _
    rw [hdelta]
    rfl
  obtain ⟨rfl, h⟩ | ⟨-, h⟩ := ite_eq_ok h
  · obtain ⟨delta, next, hdelta, h⟩ := readWord_bind h
    refine ⟨.advance delta, next, ?_, fun _ => h⟩
    show (wordAt slice 4 cursor).map _ = _
    rw [hdelta]
    rfl
  obtain ⟨rfl, h⟩ | ⟨-, h⟩ := ite_eq_ok h
  · obtain ⟨reg, next, hreg, h⟩ := readUleb_bind h
    obtain ⟨n, last, hn, h⟩ := readUleb_bind h
    refine ⟨.offset reg n, last,
      regAnd_eq (fun reg (n : Nat) => .offset reg n) hreg hn, fun hfits => ?_⟩
    rwa [wrap_of_fits hfits.1, wrap_of_fits hfits.2] at h
  obtain ⟨rfl, h⟩ | ⟨-, h⟩ := ite_eq_ok h
  · obtain ⟨reg, next, hreg, h⟩ := readUleb_bind h
    refine ⟨.restore reg, next, one_eq hreg, fun hfits => ?_⟩
    rwa [wrap_of_fits hfits] at h
  obtain ⟨rfl, h⟩ | ⟨-, h⟩ := ite_eq_ok h
  · obtain ⟨reg, next, hreg, h⟩ := readUleb_bind h
    refine ⟨.undefined reg, next, one_eq hreg, fun hfits => ?_⟩
    rwa [wrap_of_fits hfits] at h
  obtain ⟨rfl, h⟩ | ⟨-, h⟩ := ite_eq_ok h
  · obtain ⟨reg, next, hreg, h⟩ := readUleb_bind h
    exact ⟨.sameValue reg, next, one_eq hreg, fun _ => h⟩
  obtain ⟨rfl, h⟩ | ⟨-, h⟩ := ite_eq_ok h
  · obtain ⟨reg, next, hreg, h⟩ := readUleb_bind h
    obtain ⟨other, last, hother, h⟩ := readUleb_bind h
    refine ⟨.register reg other, last, regAnd_eq .register hreg hother, fun hfits => ?_⟩
    rwa [wrap_of_fits hfits.1, wrap_of_fits hfits.2] at h
  obtain ⟨rfl, h⟩ | ⟨-, h⟩ := ite_eq_ok h
  · exact ⟨.rememberState, cursor, rfl, fun _ => h⟩
  obtain ⟨rfl, h⟩ | ⟨-, h⟩ := ite_eq_ok h
  · exact ⟨.restoreState, cursor, rfl, fun _ => h⟩
  obtain ⟨rfl, h⟩ | ⟨-, h⟩ := ite_eq_ok h
  · obtain ⟨reg, next, hreg, h⟩ := readUleb_bind h
    obtain ⟨off, last, hoff, h⟩ := readUleb_bind h
    refine ⟨.defCfa reg off, last, regAnd_eq .defCfa hreg hoff, fun hfits => ?_⟩
    rwa [wrap_of_fits hfits.1, wrap_of_fits hfits.2] at h
  obtain ⟨rfl, h⟩ | ⟨-, h⟩ := ite_eq_ok h
  · obtain ⟨reg, next, hreg, h⟩ := readUleb_bind h
    refine ⟨.defCfaRegister reg, next, one_eq hreg, fun hfits => ?_⟩
    rwa [wrap_of_fits hfits] at h
  obtain ⟨rfl, h⟩ | ⟨-, h⟩ := ite_eq_ok h
  · obtain ⟨off, next, hoff, h⟩ := readUleb_bind h
    refine ⟨.defCfaOffset off, next, one_eq hoff, fun hfits => ?_⟩
    rwa [wrap_of_fits hfits] at h
  obtain ⟨rfl, h⟩ | ⟨-, h⟩ := ite_eq_ok h
  · obtain ⟨size, next, -, h⟩ := readUleb_bind h
    obtain ⟨last, -, h⟩ := bind_eq_ok.mp h
    exact absurd h (fail_ne_ok _ _)
  obtain ⟨rfl, h⟩ | ⟨-, h⟩ := ite_eq_ok h
  · obtain ⟨reg, size, next, hdecode, hok⟩ := addExpression_decode .expression h
    exact ⟨.expression reg size, next, hdecode, hok⟩
  obtain ⟨rfl, h⟩ | ⟨-, h⟩ := ite_eq_ok h
  · obtain ⟨reg, next, hreg, h⟩ := readUleb_bind h
    obtain ⟨n, last, hn, h⟩ := readSleb_bind h
    refine ⟨.offset reg n, last, regAnd_eq .offset hreg hn, fun hfits => ?_⟩
    rwa [wrap_of_fits hfits.1, wrap_of_fits hfits.2] at h
  obtain ⟨rfl, h⟩ | ⟨-, h⟩ := ite_eq_ok h
  · obtain ⟨reg, next, hreg, h⟩ := readUleb_bind h
    obtain ⟨n, last, hn, h⟩ := readSleb_bind h
    refine ⟨.defCfaSf reg n, last, regAnd_eq .defCfaSf hreg hn, fun hfits => ?_⟩
    rwa [wrap_of_fits hfits.1, wrap_of_fits hfits.2] at h
  obtain ⟨rfl, h⟩ | ⟨-, h⟩ := ite_eq_ok h
  · obtain ⟨n, next, hn, h⟩ := readSleb_bind h
    refine ⟨.defCfaOffsetSf n, next, ?_, fun hfits => ?_⟩
    · show (slebAt slice cursor).map _ = _
      rw [hn]
      rfl
    · rwa [wrap_of_fits hfits] at h
  obtain ⟨rfl, h⟩ | ⟨-, h⟩ := ite_eq_ok h
  · obtain ⟨reg, next, hreg, h⟩ := readUleb_bind h
    obtain ⟨n, last, hn, h⟩ := readUleb_bind h
    refine ⟨.valOffset reg n, last,
      regAnd_eq (fun reg (n : Nat) => .valOffset reg n) hreg hn, fun hfits => ?_⟩
    rwa [wrap_of_fits hfits.1, wrap_of_fits hfits.2] at h
  obtain ⟨rfl, h⟩ | ⟨-, h⟩ := ite_eq_ok h
  · obtain ⟨reg, next, hreg, h⟩ := readUleb_bind h
    obtain ⟨n, last, hn, h⟩ := readSleb_bind h
    refine ⟨.valOffset reg n, last, regAnd_eq .valOffset hreg hn, fun hfits => ?_⟩
    rwa [wrap_of_fits hfits.1, wrap_of_fits hfits.2] at h
  obtain ⟨rfl, h⟩ | ⟨-, h⟩ := ite_eq_ok h
  · obtain ⟨reg, size, next, hdecode, hok⟩ := addExpression_decode .valExpression h
    exact ⟨.valExpression reg size, next, hdecode, hok⟩
  obtain ⟨rfl, h⟩ | ⟨-, h⟩ := ite_eq_ok h
  · obtain ⟨size, next, hsize, h⟩ := readUleb_bind h
    exact ⟨.argsSize size, next, one_eq hsize, fun _ => h⟩
  exact absurd h (fail_ne_ok _ _)

/-! The two parts of an opcode byte. -/

theorem primary_eq (byte : UInt8) :
    (byte &&& 0xC0 = DW_CFA_EXTENDED ↔ byte.toNat / 64 = 0) ∧
    (byte &&& 0xC0 = DW_CFA_ADVANCE_LOC ↔ byte.toNat / 64 = 1) ∧
    (byte &&& 0xC0 = DW_CFA_OFFSET ↔ byte.toNat / 64 = 2) ∧
    (byte &&& 0xC0 = DW_CFA_RESTORE ↔ byte.toNat / 64 = 3) := by
  have hall : ∀ b : Fin 256,
      (UInt8.ofFin b &&& 0xC0 = DW_CFA_EXTENDED ↔ b.val / 64 = 0) ∧
      (UInt8.ofFin b &&& 0xC0 = DW_CFA_ADVANCE_LOC ↔ b.val / 64 = 1) ∧
      (UInt8.ofFin b &&& 0xC0 = DW_CFA_OFFSET ↔ b.val / 64 = 2) ∧
      (UInt8.ofFin b &&& 0xC0 = DW_CFA_RESTORE ↔ b.val / 64 = 3) := by decide +kernel
  exact hall byte.toFin

theorem toNat_and_63 (byte : UInt8) : (byte &&& 0x3F).toNat = byte.toNat % 64 := by
  rw [UInt8.toNat_and]
  exact Nat.and_two_pow_sub_one_eq_mod byte.toNat 6

/-- **An instruction is read** as the format decodes it, if its operands fit. -/
theorem readRule_decode (h : readRule slice s = .ok out) :
    ∃ instr next,
      decode (pointer s.options.enc s.pc slice) slice s.cursor = some (instr, next) ∧
      (instr.Fits → s.apply next instr = .ok out) := by
  obtain ⟨opcode, hget, h⟩ := readByte_bind h
  obtain ⟨hextended, hadvance, hoffset, hrestore⟩ := primary_eq opcode
  simp only [decode, hget, Option.bind_eq_bind, Option.bind_some]
  obtain ⟨hprimary, h⟩ | ⟨-, h⟩ := ite_eq_ok h
  · rw [hextended.mp hprimary, ← toNat_and_63]
    exact readExtended_decode h
  obtain ⟨hprimary, h⟩ | ⟨-, h⟩ := ite_eq_ok h
  · rw [hadvance.mp hprimary]
    rw [toNat_and_63] at h
    exact ⟨_, _, rfl, fun _ => h⟩
  obtain ⟨hprimary, h⟩ | ⟨-, h⟩ := ite_eq_ok h
  · obtain ⟨n, next, hn, h⟩ := readUleb_bind h
    rw [toNat_and_63] at h
    rw [hoffset.mp hprimary, hn]
    refine ⟨_, _, rfl, fun hfits => ?_⟩
    rwa [wrap_of_fits hfits.2] at h
  obtain ⟨hprimary, h⟩ | ⟨-, h⟩ := ite_eq_ok h
  · rw [toNat_and_63] at h
    rw [hrestore.mp hprimary]
    exact ⟨_, _, rfl, fun _ => h⟩
  exact absurd h (fail_ne_ok _ _)

end Decode

/-! ## Rows -/

/-- The state holds the row under construction: its CFA, and the CFAs of the saved rows. -/
structure Holds (enc : UInt8) (factors : Factors) (s : RuleState) (st : State) : Prop where
  reg : s.frame.cfaReg = st.row.cfa.reg
  off : s.frame.cfaOff = st.row.cfa.off
  saved : s.options.cfaStack = st.stack.map fun row => ⟨row.cfa.reg, row.cfa.off⟩
  enc : s.options.enc = enc
  codeAlign : s.options.codeAlign = factors.code
  dataAlign : s.options.dataAlign = factors.data

/-- The register rules that an instruction adds to the list of the row. -/
def entries (factors : Factors) : Instr → List RegState
  | .offset reg n => [⟨reg, .offset, n * factors.data⟩]
  | .valOffset reg n => [⟨reg, .offset, n * factors.data⟩]
  | .restore reg => [⟨reg, .restore, 0⟩]
  | .undefined reg => [⟨reg, .undefined, 0⟩]
  | .register reg other => [⟨reg, .reg, other⟩]
  | .expression reg _ => [⟨reg, .expression, 0⟩]
  | .valExpression reg _ => [⟨reg, .expression, 0⟩]
  | _ => []

theorem entries_of_moves (factors : Factors) {instr : Instr} (h : instr.moves = true) :
    entries factors instr = [] := by
  cases instr <;> first | rfl | cases h

/-- What an instruction does besides changing the CFA. -/
structure Effect (factors : Factors) (instr : Instr) (next : Nat) (s : RuleState)
    (out : Bool × RuleState) : Prop where
  closed : out.1 = instr.moves
  cursor : out.2.cursor = next
  rva : out.2.frame.rva = s.frame.rva
  regStates : out.2.frame.regStates = s.frame.regStates ++ entries factors instr

section Effects

variable {frame frame' : FrameState} {s : RuleState} {out : Bool × RuleState} {next : Nat}

theorem setCfaReg_eq_ok {reg : Nat} (h : frame.setCfaReg reg = .ok frame') :
    frame' = { frame with cfaReg := reg } := by
  unfold FrameState.setCfaReg at h
  obtain ⟨-, h⟩ | ⟨hreg, h⟩ := ite_eq_ok h
  · cases h
  · cases h
    have : ((reg : Int) % 256).toNat = reg := by omega
    rw [this]

theorem setCfaOffset_eq_ok {off : Int} (h : frame.setCfaOffset off = .ok frame') :
    frame' = { frame with cfaOff := off } := by
  unfold FrameState.setCfaOffset at h
  obtain ⟨-, h⟩ | ⟨-, h⟩ := ite_eq_ok h
  · cases h
  · cases h
    rfl

theorem addRule_eq_ok {reg : Nat} {val : Int} {valType : ValueType}
    (h : s.addRule reg val valType next = .ok out) :
    out = s.withFrame { s.frame with regStates := s.frame.regStates ++ [⟨reg, valType, val⟩] }
      next := by
  obtain ⟨frame, hframe, h⟩ := bind_eq_ok.mp h
  cases h
  unfold FrameState.addRegValue at hframe
  obtain ⟨-, hframe⟩ | ⟨hreg, hframe⟩ := ite_eq_ok hframe
  · cases hframe
  · cases hframe
    have : ((reg : Int) % 256).toNat = reg := by omega
    rw [this]

theorem addOffset_eq_ok {reg : Nat} {n : Int} (h : s.addOffset reg n next = .ok out) :
    out = s.withFrame { s.frame with
      regStates := s.frame.regStates ++ [⟨reg, .offset, n * s.options.dataAlign⟩] } next := by
  obtain ⟨offset, hoffset, h⟩ := bind_eq_ok.mp h
  obtain ⟨-, rfl⟩ := checkI64_eq_ok.mp hoffset
  exact addRule_eq_ok h

theorem moveTo_pc (s : RuleState) (newPc : Int) (cursor : Nat) :
    (s.moveTo newPc cursor).2.pc = max s.pc newPc := by
  unfold RuleState.moveTo
  by_cases hlt : newPc > s.pc
  · rw [if_pos hlt, max_eq_right (by omega)]
  · rw [if_neg hlt, max_eq_left (by omega)]

variable {enc : UInt8} {factors : Factors} {init : Nat → Rule} {st : State} {instr : Instr}

/-- A frame with the same CFA holds the same row. -/
theorem Holds.withFrame (hs : Holds enc factors s st) {rules : Nat → Rule}
    {regStates : List RegState} :
    Holds enc factors (s.withFrame { s.frame with regStates } next).2
      { st with row := { st.row with rules } } :=
  ⟨hs.reg, hs.off, hs.saved, hs.enc, hs.codeAlign, hs.dataAlign⟩

theorem Holds.withCfa (hs : Holds enc factors s st) {reg : Nat} {off : Int} :
    Holds enc factors (s.withFrame { s.frame with cfaReg := reg, cfaOff := off } next).2
      (st.setCfa ⟨reg, off⟩) :=
  ⟨rfl, rfl, hs.saved, hs.enc, hs.codeAlign, hs.dataAlign⟩

/-- Moving the location, wherever to, leaves the row. -/
theorem Holds.moved (hs : Holds enc factors s st) {pc loc : Int} :
    Holds enc factors { s with pc, cursor := next } { st with loc } :=
  ⟨hs.reg, hs.off, hs.saved, hs.enc, hs.codeAlign, hs.dataAlign⟩

/-- **One instruction** takes the state from the row before it to the row behind it. -/
theorem apply_step (hs : Holds enc factors s st) (h : s.apply next instr = .ok out) :
    Effect factors instr next s out ∧ out.2.pc = max s.pc (target factors s.pc instr) ∧
      ∃ st', step factors init st instr = some st' ∧ Holds enc factors out.2 st' := by
  have hstays : s.pc = max s.pc s.pc := (max_self _).symm
  have hlist : s.frame.regStates = s.frame.regStates ++ [] := (List.append_nil _).symm
  cases instr with
  | nop | sameValue | argsSize =>
    cases h
    exact ⟨⟨rfl, rfl, rfl, hlist⟩, hstays, _, rfl, hs.withFrame⟩
  | setLoc address =>
    cases h
    exact ⟨⟨rfl, rfl, rfl, hlist⟩, moveTo_pc s _ _, _, rfl, hs.moved⟩
  | advance delta =>
    obtain ⟨delta', hdelta, h⟩ := bind_eq_ok.mp h
    obtain ⟨newPc, hnewPc, h⟩ := bind_eq_ok.mp h
    obtain ⟨-, rfl⟩ := checkI64_eq_ok.mp hdelta
    obtain ⟨-, rfl⟩ := checkI64_eq_ok.mp hnewPc
    cases h
    refine ⟨⟨rfl, rfl, rfl, hlist⟩, ?_, _, rfl, hs.moved⟩
    rw [moveTo_pc, hs.codeAlign]
    rfl
  | offset reg n | valOffset reg n =>
    cases addOffset_eq_ok h
    rw [hs.dataAlign]
    exact ⟨⟨rfl, rfl, rfl, rfl⟩, hstays, _, rfl, hs.withFrame⟩
  | restore reg | undefined reg | register reg other | expression reg size
  | valExpression reg size =>
    cases addRule_eq_ok h
    exact ⟨⟨rfl, rfl, rfl, rfl⟩, hstays, _, rfl, hs.withFrame⟩
  | rememberState =>
    cases h
    refine ⟨⟨rfl, rfl, rfl, hlist⟩, hstays, _, rfl, ?_⟩
    exact ⟨hs.reg, hs.off, by rw [hs.saved, hs.reg, hs.off]; rfl, hs.enc, hs.codeAlign,
      hs.dataAlign⟩
  | restoreState =>
    have hsaved := hs.saved
    cases hstack : st.stack with
    | nil =>
      rw [hstack] at hsaved
      simp [RuleState.apply, hsaved] at h
    | cons row stack =>
      rw [hstack] at hsaved
      simp only [RuleState.apply, hsaved, List.map_cons] at h
      cases h
      refine ⟨⟨rfl, rfl, rfl, hlist⟩, hstays, { st with row, stack }, ?_, ?_⟩
      · simp only [step, hstack]
      · exact ⟨rfl, rfl, rfl, hs.enc, hs.codeAlign, hs.dataAlign⟩
  | defCfa reg off =>
    obtain ⟨frame, hreg, h⟩ := bind_eq_ok.mp h
    obtain ⟨frame', hoff, h⟩ := bind_eq_ok.mp h
    cases setCfaReg_eq_ok hreg
    cases setCfaOffset_eq_ok hoff
    cases h
    exact ⟨⟨rfl, rfl, rfl, hlist⟩, hstays, _, rfl, hs.withCfa⟩
  | defCfaSf reg n =>
    obtain ⟨off, hn, h⟩ := bind_eq_ok.mp h
    obtain ⟨frame, hreg, h⟩ := bind_eq_ok.mp h
    obtain ⟨frame', hoff, h⟩ := bind_eq_ok.mp h
    obtain ⟨-, rfl⟩ := checkI64_eq_ok.mp hn
    cases setCfaReg_eq_ok hreg
    cases setCfaOffset_eq_ok hoff
    cases h
    rw [hs.dataAlign]
    exact ⟨⟨rfl, rfl, rfl, hlist⟩, hstays, _, rfl, hs.withCfa⟩
  | defCfaRegister reg =>
    obtain ⟨frame, hreg, h⟩ := bind_eq_ok.mp h
    cases setCfaReg_eq_ok hreg
    cases h
    refine ⟨⟨rfl, rfl, rfl, hlist⟩, hstays, _, rfl, ?_⟩
    exact ⟨rfl, hs.off, hs.saved, hs.enc, hs.codeAlign, hs.dataAlign⟩
  | defCfaOffset off =>
    obtain ⟨frame, hoff, h⟩ := bind_eq_ok.mp h
    cases setCfaOffset_eq_ok hoff
    cases h
    refine ⟨⟨rfl, rfl, rfl, hlist⟩, hstays, _, rfl, ?_⟩
    exact ⟨hs.reg, rfl, hs.saved, hs.enc, hs.codeAlign, hs.dataAlign⟩
  | defCfaOffsetSf n =>
    obtain ⟨off, hn, h⟩ := bind_eq_ok.mp h
    obtain ⟨frame, hoff, h⟩ := bind_eq_ok.mp h
    obtain ⟨-, rfl⟩ := checkI64_eq_ok.mp hn
    cases setCfaOffset_eq_ok hoff
    cases h
    rw [hs.dataAlign]
    refine ⟨⟨rfl, rfl, rfl, hlist⟩, hstays, _, rfl, ?_⟩
    exact ⟨hs.reg, rfl, hs.saved, hs.enc, hs.codeAlign, hs.dataAlign⟩
  | defCfaExpression size => cases h
  | invalid => cases h

variable (init) in
/-- **An instruction of an entry** is read as the format decodes it with the base of the entry.
Only a relative address is read otherwise: it is taken to another location. -/
theorem readRule_step {slice : Bytes} (base : Int) (hs : Holds enc factors s st)
    (h : readRule slice s = .ok out) :
    ∃ instr next, decode (pointer enc base slice) slice s.cursor = some (instr, next) ∧
      (instr.Fits →
        Effect factors instr next s out ∧
        (Absolute enc ∨ (∀ address, instr ≠ .setLoc address) →
          out.2.pc = max s.pc (target factors s.pc instr)) ∧
        ∃ st', step factors init st instr = some st' ∧ Holds enc factors out.2 st') := by
  obtain ⟨instr, next, hdecode, happly⟩ := readRule_decode h
  rw [hs.enc] at hdecode
  obtain hsame | ⟨address, address', rfl, hother⟩ := decode_pointer (pointer_base base) hdecode
  · refine ⟨instr, next, hsame, fun hfits => ?_⟩
    obtain ⟨heffect, hpc, hstep⟩ := apply_step hs (happly hfits)
    exact ⟨heffect, fun _ => hpc, hstep⟩
  · obtain ⟨heffect, hpc, -⟩ := @apply_step s out next enc factors init st _ hs (happly trivial)
    refine ⟨.setLoc address', next, hother, fun _ => ⟨?_, fun hbase => ?_, ?_⟩⟩
    · exact ⟨heffect.closed, heffect.cursor, heffect.rva, heffect.regStates⟩
    · obtain habs | hnot := hbase
      · rw [pointer_absolute habs base] at hdecode
        cases hdecode.symm.trans hother
        exact hpc
      · exact absurd rfl (hnot address')
    · cases happly trivial
      exact ⟨_, rfl, hs.moved⟩

end Effects

end OneCollect.Ruwind
