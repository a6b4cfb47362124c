import OneCollect.Theory.Greatest
import OneCollect.Ruwind.Elf

/-! The frame tables of `dwarf.rs`: the readers of encoded values, the call frame
instructions (`FrameOffset.readRule`), the rows they build (`FrameOffset.loadRules`), the
row of an address (`FrameOffset.unwindToCfa`) and the search table of `.eh_frame_hdr`.

A reader takes the slice and the cursor, and returns its value and the cursor behind it.
The loops over a slice take its length as their number of turns: every turn moves the
cursor. Words are little-endian. -/

namespace OneCollect.Ruwind
open Theory

/-! ## Values -/

/-- `as i16`, `as i32`: the signed value of a word of `bits` bits. -/
def signed (bits n : Nat) : Int := if n < 2 ^ (bits - 1) then n else (n : Int) - 2 ^ bits

def readByte (slice : Bytes) (cursor : Nat) : Exec (UInt8 × Nat) := do
  let byte ← getAt slice cursor
  .ok (byte, cursor + 1)

/-- A word of `width` bytes. -/
def readWord (width : Nat) (slice : Bytes) (cursor : Nat) : Exec (Nat × Nat) := do
  let word ← readLe width slice cursor
  .ok (word, cursor + width)

def readU16 (slice : Bytes) (cursor : Nat) : Exec (Nat × Nat) := readWord 2 slice cursor

def readU32 (slice : Bytes) (cursor : Nat) : Exec (Nat × Nat) := readWord 4 slice cursor

/-- The position of the first zero byte. -/
def stringLoop : (rest : Bytes) → (pos : Nat) → Exec Nat
  | [], _ => panicked
  | byte :: rest, pos => if byte ≠ 0 then stringLoop rest (pos + 1) else .ok pos

/-- The length of the string, and the cursor behind its zero byte. -/
def readString (slice : Bytes) (cursor : Nat) : Exec (Nat × Nat) := do
  let pos ← stringLoop (slice.drop cursor) cursor
  .ok (pos - cursor, pos + 1)

/-- `x << bit` on 64 bits, where a shift by the width or more panics. -/
def shl64 (x : BitVec 64) (bit : Nat) : Exec (BitVec 64) :=
  if bit < 64 then .ok (x <<< bit) else panicked

def low7 (byte : UInt8) : BitVec 64 := BitVec.ofNat 64 (byte &&& 127).toNat

def ulebLoop : (rest : Bytes) → (value : BitVec 64) → (bit pos : Nat) → Exec (BitVec 64 × Nat)
  | [], _, _, _ => panicked
  | byte :: rest, value, bit, pos => do
    let part ← shl64 (low7 byte) bit
    if byte &&& 128 = 0 then .ok (value ||| part, pos + 1)
    else ulebLoop rest (value ||| part) (bit + 7) (pos + 1)

def readUleb (slice : Bytes) (cursor : Nat) : Exec (Int × Nat) := do
  let (value, pos) ← ulebLoop (slice.drop cursor) 0 0 cursor
  .ok (value.toInt, pos)

/-- `-(1_i64 << bit)`. -/
def signExtension (bit : Nat) : Exec (BitVec 64) :=
  if bit = 63 then panicked else .ok (-((1 : BitVec 64) <<< bit))

def slebLoop : (rest : Bytes) → (value : BitVec 64) → (bit pos : Nat) → Exec (BitVec 64 × Nat)
  | [], _, _, _ => panicked
  | byte :: rest, value, bit, pos => do
    let part ← shl64 (low7 byte) bit
    if byte &&& 128 = 0 then
      if bit + 7 < 64 ∧ byte &&& 64 ≠ 0 then
        let sign ← signExtension (bit + 7)
        .ok (value ||| part ||| sign, pos + 1)
      else .ok (value ||| part, pos + 1)
    else slebLoop rest (value ||| part) (bit + 7) (pos + 1)

def readSleb (slice : Bytes) (cursor : Nat) : Exec (Int × Nat) := do
  let (value, pos) ← slebLoop (slice.drop cursor) 0 0 cursor
  .ok (value.toInt, pos)

/-! ### Pointer encodings -/

def DW_EH_PE_OMIT : UInt8 := 0xFF
def DW_EH_PE_ULEB128 : UInt8 := 0x01
def DW_EH_PE_UDATA2 : UInt8 := 0x02
def DW_EH_PE_UDATA4 : UInt8 := 0x03
def DW_EH_PE_UDATA8 : UInt8 := 0x04
def DW_EH_PE_SLEB128 : UInt8 := 0x09
def DW_EH_PE_SDATA2 : UInt8 := 0x0A
def DW_EH_PE_SDATA4 : UInt8 := 0x0B
def DW_EH_PE_SDATA8 : UInt8 := 0x0C
def DW_EH_PE_FORMAT_MASK : UInt8 := 0x0F

def DW_EH_PE_ABSPTR : UInt8 := 0x00
def DW_EH_PE_PCREL : UInt8 := 0x10
def DW_EH_PE_DATAREL : UInt8 := 0x30
def DW_EH_PE_APPL_MASK : UInt8 := 0xF0

/-- The value in its format, before its base is added. -/
def readFormat (format : UInt8) (slice : Bytes) (cursor : Nat) : Exec (Int × Nat) :=
  if format = DW_EH_PE_ULEB128 then readUleb slice cursor
  else if format = DW_EH_PE_UDATA2 then do
    let (value, cursor) ← readU16 slice cursor
    .ok (value, cursor)
  else if format = DW_EH_PE_UDATA4 then do
    let (value, cursor) ← readU32 slice cursor
    .ok (value, cursor)
  else if format = DW_EH_PE_UDATA8 then do
    let (value, cursor) ← readWord 8 slice cursor
    .ok (toI64 value, cursor)
  else if format = DW_EH_PE_SLEB128 then readSleb slice cursor
  else if format = DW_EH_PE_SDATA2 then do
    let (value, cursor) ← readWord 2 slice cursor
    .ok (signed 16 value, cursor)
  else if format = DW_EH_PE_SDATA4 then do
    let (value, cursor) ← readWord 4 slice cursor
    .ok (signed 32 value, cursor)
  else if format = DW_EH_PE_SDATA8 then do
    let (value, cursor) ← readWord 8 slice cursor
    .ok (toI64 value, cursor)
  -- unknown, unsupported
  else .ok (0, cursor)

def readValue (enc : UInt8) (data : Int) (slice : Bytes) (cursor : Nat) : Exec (Int × Nat) := do
  let start := cursor
  let (value, cursor) ← readFormat (enc &&& DW_EH_PE_FORMAT_MASK) slice cursor
  if enc &&& DW_EH_PE_APPL_MASK = DW_EH_PE_PCREL then
    let value ← checkI64 (value + data)
    let value ← checkI64 (value + start)
    .ok (value, cursor)
  else if enc &&& DW_EH_PE_APPL_MASK = DW_EH_PE_DATAREL then
    let value ← checkI64 (value + data)
    .ok (value, cursor)
  else .ok (value, cursor)

/-! ## Frame states -/

/-- The `VALUE_TYPE_` constants. -/
inductive ValueType where
  | offset
  | reg
  | undefined
  | expression
  | restore
  deriving DecidableEq, Repr

structure UnwindCFA where
  reg : Nat := 0
  off : Int := 0
  offMask : BitVec 64 := 0
  deriving DecidableEq, Repr

structure RegState where
  reg : Nat
  valType : ValueType
  val : Int
  deriving DecidableEq, Repr

structure CFAState where
  cfaReg : Nat
  cfaOff : Int
  deriving DecidableEq, Repr

structure FrameState where
  rva : Nat
  cfaReg : Nat
  cfaOff : Int
  regStates : List RegState := []
  deriving DecidableEq, Repr

namespace FrameState

def setCfaReg (self : FrameState) (reg : Int) : Exec FrameState :=
  if reg > 255 then fail "Reg out of range"
  else .ok { self with cfaReg := (reg % 256).toNat }

def setCfaOffset (self : FrameState) (off : Int) : Exec FrameState :=
  if off > 32767 ∨ off < -32768 then fail "Offset out of range"
  else .ok { self with cfaOff := off }

def addRegValue (self : FrameState) (reg val : Int) (valType : ValueType) : Exec FrameState :=
  if reg > 255 ∨ val > 32767 ∨ val < -32768 then fail "Reg/Value out of range"
  else .ok { self with regStates := self.regStates ++ [⟨(reg % 256).toNat, valType, val⟩] }

end FrameState

/-- `cfaStack` has its top first. -/
structure FrameOptions where
  enc : UInt8 := DW_EH_PE_UDATA8 ||| DW_EH_PE_ABSPTR
  codeAlign : Int := 0
  dataAlign : Int := 0
  hasAugData : Bool := false
  cfaStack : List CFAState := []
  deriving DecidableEq, Repr

/-! ## Instructions -/

def DW_CFA_EXTENDED : UInt8 := 0x00
def DW_CFA_ADVANCE_LOC : UInt8 := 0x40
def DW_CFA_OFFSET : UInt8 := 0x80
def DW_CFA_RESTORE : UInt8 := 0xC0

def DW_CFA_NOP : UInt8 := 0x00
def DW_CFA_SET_LOC : UInt8 := 0x01
def DW_CFA_ADVANCE_LOC1 : UInt8 := 0x02
def DW_CFA_ADVANCE_LOC2 : UInt8 := 0x03
def DW_CFA_ADVANCE_LOC4 : UInt8 := 0x04
def DW_CFA_OFFSET_EXTENDED : UInt8 := 0x05
def DW_CFA_RESTORE_EXTENDED : UInt8 := 0x06
def DW_CFA_UNDEFINED : UInt8 := 0x07
def DW_CFA_SAME_VALUE : UInt8 := 0x08
def DW_CFA_REGISTER : UInt8 := 0x09
def DW_CFA_REMEMBER_STATE : UInt8 := 0x0a
def DW_CFA_RESTORE_STATE : UInt8 := 0x0b
def DW_CFA_DEF_CFA : UInt8 := 0x0c
def DW_CFA_DEF_CFA_REGISTER : UInt8 := 0x0d
def DW_CFA_DEF_CFA_OFFSET : UInt8 := 0x0e
def DW_CFA_DEF_CFA_EXPRESSION : UInt8 := 0x0f
def DW_CFA_EXPRESSION : UInt8 := 0x10
def DW_CFA_OFFSET_EXTENDED_SF : UInt8 := 0x11
def DW_CFA_DEF_CFA_SF : UInt8 := 0x12
def DW_CFA_DEF_CFA_OFFSET_SF : UInt8 := 0x13
def DW_CFA_VAL_OFFSET : UInt8 := 0x14
def DW_CFA_VAL_OFFSET_SF : UInt8 := 0x15
def DW_CFA_VAL_EXPRESSION : UInt8 := 0x16
def DW_CFA_GNU_ARGS_SIZE : UInt8 := 0x2e

/-- What `read_rule` works on: the location, the frame under construction, the cursor and
the options with the saved CFA rules. -/
structure RuleState where
  pc : Int
  frame : FrameState
  cursor : Nat
  options : FrameOptions
  deriving DecidableEq, Repr

namespace RuleState

/-- The end of an instruction that moves the location, never back. -/
def moveTo (s : RuleState) (newPc : Int) (cursor : Nat) : Bool × RuleState :=
  (true, { s with pc := if newPc > s.pc then newPc else s.pc, cursor })

def advance (s : RuleState) (delta cursor : Nat) : Exec (Bool × RuleState) := do
  let step ← checkI64 (delta * s.options.codeAlign)
  let newPc ← checkI64 (s.pc + step)
  .ok (s.moveTo newPc cursor)

/-- The end of an instruction that changes the frame only. -/
def withFrame (s : RuleState) (frame : FrameState) (cursor : Nat) : Bool × RuleState :=
  (false, { s with frame, cursor })

/-- A register rule with the given reader for its factored offset. -/
def addOffset (s : RuleState) (reg offset : Int) (cursor : Nat) : Exec (Bool × RuleState) := do
  let offset ← checkI64 (offset * s.options.dataAlign)
  let frame ← s.frame.addRegValue reg offset .offset
  .ok (s.withFrame frame cursor)

/-- A register rule given by a block of bytes, which is skipped. -/
def addExpression (s : RuleState) (slice : Bytes) (cursor : Nat) : Exec (Bool × RuleState) := do
  let (reg, cursor) ← readUleb slice cursor
  let (size, cursor) ← readUleb slice cursor
  let cursor ← addU64 cursor (toU64 size)
  let frame ← s.frame.addRegValue reg 0 .expression
  .ok (s.withFrame frame cursor)

end RuleState

/-- The instructions with the top bits 0. -/
def readExtended (slice : Bytes) (e : UInt8) (s : RuleState) (cursor : Nat) :
    Exec (Bool × RuleState) :=
  if e = DW_CFA_NOP then .ok (s.withFrame s.frame cursor)
  else if e = DW_CFA_SET_LOC then do
    let (address, cursor) ← readValue s.options.enc s.pc slice cursor
    .ok (s.moveTo address cursor)
  else if e = DW_CFA_ADVANCE_LOC1 then do
    let (delta, cursor) ← readByte slice cursor
    s.advance delta.toNat cursor
  else if e = DW_CFA_ADVANCE_LOC2 then do
    let (delta, cursor) ← readU16 slice cursor
    s.advance delta cursor
  else if e = DW_CFA_ADVANCE_LOC4 then do
    let (delta, cursor) ← readU32 slice cursor
    s.advance delta cursor
  else if e = DW_CFA_OFFSET_EXTENDED then do
    let (reg, cursor) ← readUleb slice cursor
    let (offset, cursor) ← readUleb slice cursor
    s.addOffset reg offset cursor
  else if e = DW_CFA_RESTORE_EXTENDED then do
    let (reg, cursor) ← readUleb slice cursor
    let frame ← s.frame.addRegValue reg 0 .restore
    .ok (s.withFrame frame cursor)
  else if e = DW_CFA_UNDEFINED then do
    let (reg, cursor) ← readUleb slice cursor
    let frame ← s.frame.addRegValue reg 0 .undefined
    .ok (s.withFrame frame cursor)
  else if e = DW_CFA_SAME_VALUE then do
    -- not added, the previous value will be used
    let (_reg, cursor) ← readUleb slice cursor
    .ok (s.withFrame s.frame cursor)
  else if e = DW_CFA_REGISTER then do
    let (srcReg, cursor) ← readUleb slice cursor
    let (dstReg, cursor) ← readUleb slice cursor
    let frame ← s.frame.addRegValue srcReg dstReg .reg
    .ok (s.withFrame frame cursor)
  else if e = DW_CFA_REMEMBER_STATE then
    let saved : CFAState := ⟨s.frame.cfaReg, s.frame.cfaOff⟩
    .ok (false, { s with
      cursor, options := { s.options with cfaStack := saved :: s.options.cfaStack } })
  else if e = DW_CFA_RESTORE_STATE then
    match s.options.cfaStack with
    | cfaState :: cfaStack =>
      .ok (false, { s with
        cursor
        frame := { s.frame with cfaReg := cfaState.cfaReg, cfaOff := cfaState.cfaOff }
        options := { s.options with cfaStack } })
    | [] => fail "Unbalanced state restore"
  else if e = DW_CFA_DEF_CFA then do
    let (reg, cursor) ← readUleb slice cursor
    let (off, cursor) ← readUleb slice cursor
    let frame ← s.frame.setCfaReg reg
    let frame ← frame.setCfaOffset off
    .ok (s.withFrame frame cursor)
  else if e = DW_CFA_DEF_CFA_REGISTER then do
    let (reg, cursor) ← readUleb slice cursor
    let frame ← s.frame.setCfaReg reg
    .ok (s.withFrame frame cursor)
  else if e = DW_CFA_DEF_CFA_OFFSET then do
    let (off, cursor) ← readUleb slice cursor
    let frame ← s.frame.setCfaOffset off
    .ok (s.withFrame frame cursor)
  else if e = DW_CFA_DEF_CFA_EXPRESSION then do
    let (size, cursor) ← readUleb slice cursor
    let _cursor ← addU64 cursor (toU64 size)
    fail "CFA expression not supported"
  else if e = DW_CFA_EXPRESSION then s.addExpression slice cursor
  else if e = DW_CFA_OFFSET_EXTENDED_SF then do
    let (reg, cursor) ← readUleb slice cursor
    let (offset, cursor) ← readSleb slice cursor
    s.addOffset reg offset cursor
  else if e = DW_CFA_DEF_CFA_SF then do
    let (reg, cursor) ← readUleb slice cursor
    let (offset, cursor) ← readSleb slice cursor
    let offset ← checkI64 (offset * s.options.dataAlign)
    let frame ← s.frame.setCfaReg reg
    let frame ← frame.setCfaOffset offset
    .ok (s.withFrame frame cursor)
  else if e = DW_CFA_DEF_CFA_OFFSET_SF then do
    let (offset, cursor) ← readSleb slice cursor
    let offset ← checkI64 (offset * s.options.dataAlign)
    let frame ← s.frame.setCfaOffset offset
    .ok (s.withFrame frame cursor)
  else if e = DW_CFA_VAL_OFFSET then do
    let (reg, cursor) ← readUleb slice cursor
    let (offset, cursor) ← readUleb slice cursor
    s.addOffset reg offset cursor
  else if e = DW_CFA_VAL_OFFSET_SF then do
    let (reg, cursor) ← readUleb slice cursor
    let (offset, cursor) ← readSleb slice cursor
    s.addOffset reg offset cursor
  else if e = DW_CFA_VAL_EXPRESSION then s.addExpression slice cursor
  else if e = DW_CFA_GNU_ARGS_SIZE then do
    let (_size, cursor) ← readUleb slice cursor
    .ok (s.withFrame s.frame cursor)
  else fail "Unknown DWARF extended opcode"

/-- One instruction; `true` when it ends the row. -/
def readRule (slice : Bytes) (s : RuleState) : Exec (Bool × RuleState) := do
  let (ins, cursor) ← readByte slice s.cursor
  let p := ins &&& 0xC0
  let e := ins &&& 0x3F
  if p = DW_CFA_EXTENDED then readExtended slice e s cursor
  else if p = DW_CFA_ADVANCE_LOC then s.advance e.toNat cursor
  else if p = DW_CFA_OFFSET then do
    let (offset, cursor) ← readUleb slice cursor
    s.addOffset e.toNat offset cursor
  else if p = DW_CFA_RESTORE then do
    let frame ← s.frame.addRegValue e.toNat 0 .restore
    .ok (s.withFrame frame cursor)
  else fail "Unknown DWARF primary opcode"

/-! ## Frame offsets -/

/-- The `STATE_` constants. -/
inductive ParseState where
  | unparsed
  | invalid
  | valid
  deriving DecidableEq, Repr

structure FrameOffset where
  rva : Nat
  fde : Nat
  pcSize : Nat := 0
  state : ParseState := .unparsed
  retReg : Nat := 0
  frameStates : List FrameState := []
  deriving DecidableEq, Repr

/-- The loop over the letters of the augmentation string. -/
def augLoop (entry : Bytes) : (aug : Bytes) → (cursor : Nat) → FrameOptions →
    Exec (Nat × FrameOptions)
  | [], cursor, options => .ok (cursor, options)
  | a :: aug, cursor, options => do
    let (cursor, options) ←
      if a = 'L'.toUInt8 then do
        let (_, cursor) ← readByte entry cursor
        .ok (cursor, options)
      else if a = 'P'.toUInt8 then do
        let (pEnc, cursor) ← readByte entry cursor
        let (_, cursor) ← readValue pEnc 0 entry cursor
        .ok (cursor, options)
      else if a = 'R'.toUInt8 then do
        let (enc, cursor) ← readByte entry cursor
        .ok (cursor, { options with enc })
      else .ok (cursor, options)
    augLoop entry aug cursor options

namespace FrameOffset

def isUnparsed (self : FrameOffset) : Bool := self.state = .unparsed

def isValid (self : FrameOffset) : Bool := self.state = .valid

def markInvalid (self : FrameOffset) : FrameOffset := { self with state := .invalid }

def markValid (self : FrameOffset) : FrameOffset := { self with state := .valid }

/-- The cursor behind the header, the options and the return register. -/
def parseCie (entry : Bytes) (options : FrameOptions) : Exec (Nat × FrameOptions × Nat) := do
  if entry.length < 8 then fail "CIE too small"
  let cieId ← readLe 4 entry 4
  if cieId ≠ 0 then fail "Invalid CIE"
  let (version, cursor) ← readByte entry 8
  if version ≠ 1 then fail "Invalid Version"
  let (augLen, cursor) ← readString entry cursor
  let aug ← slice entry 9 (9 + augLen)
  let (codeAlign, cursor) ← readUleb entry cursor
  let (dataAlign, cursor) ← readSleb entry cursor
  let (retReg, cursor) ← readUleb entry cursor
  if codeAlign > 32767 ∨ dataAlign > 32767 ∨ dataAlign < -32768 ∨ retReg > 255 then
    fail "alignment/.into() ret reg out of range"
  let options := { options with codeAlign := signed 16 (codeAlign % 2 ^ 16).toNat, dataAlign }
  let first ← getAt aug 0
  if first = 'z'.toUInt8 then
    let (_augLen, cursor) ← readUleb entry cursor
    let (cursor, options) ← augLoop entry aug cursor { options with hasAugData := true }
    .ok (cursor, options, (retReg % 256).toNat)
  else .ok (cursor, options, (retReg % 256).toNat)

/-- The bytes of the entry at a position, its length field included. -/
def readFrameEntry (reader : File) (pos : Nat) : Exec Bytes := do
  reader.seek pos
  let buf ← reader.read pos 256
  if buf.length < 4 then fail "Cannot read length"
  let len := fromLe (buf.take 4)
  if len = 0 then fail "Zero length"
  if len > 2048 then fail "Too large length"
  let len := len + 4
  if buf.length < len then
    let rest ← reader.readExact (pos + buf.length) (len - buf.length)
    .ok (buf ++ rest)
  else .ok (buf.take len)

/-- The instructions of a CIE; its rows are not told apart. -/
def cieRules (cie : Bytes) : (turns : Nat) → RuleState → Exec RuleState
  | 0, s => .ok s
  | turns + 1, s =>
    if s.cursor < cie.length then do
      let (_, s) ← readRule cie s
      cieRules cie turns s
    else .ok s

/-- The instructions of an FDE: a row is closed when its location is left. -/
def fdeRules (fde : Bytes) : (turns : Nat) → List FrameState → RuleState → Exec (List FrameState)
  | 0, frameStates, s => .ok (frameStates ++ [s.frame])
  | turns + 1, frameStates, s =>
    if s.cursor < fde.length then do
      let (closed, s) ← readRule fde s
      if closed then
        let next : FrameState :=
          { rva := toU64 s.pc, cfaReg := s.frame.cfaReg, cfaOff := s.frame.cfaOff }
        fdeRules fde turns (frameStates ++ [s.frame]) { s with frame := next }
      else fdeRules fde turns frameStates s
    else .ok (frameStates ++ [s.frame])

/-- The bytes of the FDE at a position and of the CIE it names. -/
def readEntries (reader : File) (fde : Nat) : Exec (Bytes × Bytes) := do
  let fdeSlice ← readFrameEntry reader fde
  if fdeSlice.length < 8 then fail "FDE too small"
  let cieOffset := fromLe ((fdeSlice.drop 4).take 4)
  if cieOffset = 0 then fail "Invalid CIE offset"
  let pos ← addU64 fde 4
  let ciePos ← subU64 pos cieOffset
  let cieSlice ← readFrameEntry reader ciePos
  .ok (fdeSlice, cieSlice)

/-- Where the rules of an entry start, and what they start from. -/
structure Header where
  pcStart : Int
  pcSize : Nat
  retReg : Nat
  options : FrameOptions
  cieCursor : Nat
  fdeCursor : Nat
  deriving DecidableEq, Repr

def readHeader (self : FrameOffset) (fdeSlice cieSlice : Bytes) : Exec Header := do
  let (cieCursor, options, retReg) ← parseCie cieSlice {}
  let (pcStart, cursor) ← readValue options.enc (toI64 self.fde) fdeSlice 8
  let (pcSize, cursor) ← readValue options.enc (-12) fdeSlice cursor
  let fdeCursor ←
    if options.hasAugData then do
      let (size, cursor) ← readUleb fdeSlice cursor
      addU64 cursor (toU64 size)
    else .ok cursor
  .ok { pcStart, pcSize := toU64 pcSize, retReg, options, cieCursor, fdeCursor }

/-- The rows of an entry, behind the given ones. -/
def readRows (header : Header) (fdeSlice cieSlice : Bytes) (frameStates : List FrameState) :
    Exec (List FrameState) := do
  let start : RuleState :=
    { pc := header.pcStart
      frame := { rva := toU64 header.pcStart, cfaReg := 0, cfaOff := 0 }
      cursor := header.cieCursor
      options := header.options }
  let s ← cieRules cieSlice cieSlice.length start
  fdeRules fdeSlice fdeSlice.length frameStates
    { s with pc := header.pcStart, cursor := header.fdeCursor }

def loadRules (self : FrameOffset) (reader : File) : Exec FrameOffset := do
  let (fdeSlice, cieSlice) ← readEntries reader self.fde
  let header ← self.readHeader fdeSlice cieSlice
  let frameStates ← readRows header fdeSlice cieSlice self.frameStates
  .ok { self with
    pcSize := header.pcSize, retReg := header.retReg, frameStates, state := .valid }

theorem loadRules_eq_ok {self loaded : FrameOffset} {reader : File} :
    self.loadRules reader = .ok loaded ↔
      ∃ fdeSlice cieSlice header frameStates,
        readEntries reader self.fde = .ok (fdeSlice, cieSlice) ∧
        self.readHeader fdeSlice cieSlice = .ok header ∧
        readRows header fdeSlice cieSlice self.frameStates = .ok frameStates ∧
        loaded = { self with
          pcSize := header.pcSize, retReg := header.retReg, frameStates, state := .valid } := by
  unfold loadRules
  simp only [bind_eq_ok]
  constructor
  · rintro ⟨⟨fdeSlice, cieSlice⟩, hentries, header, hheader, frameStates, hrows, hloaded⟩
    cases hloaded
    exact ⟨fdeSlice, cieSlice, header, frameStates, hentries, hheader, hrows, rfl⟩
  · rintro ⟨fdeSlice, cieSlice, header, frameStates, hentries, hheader, hrows, rfl⟩
    exact ⟨⟨fdeSlice, cieSlice⟩, hentries, header, hheader, frameStates, hrows, rfl⟩

/-! ### The row of an address -/

/-- One register rule of a row that applies. -/
def replayReg (maxReg : Nat) (acc : UnwindCFA × List Int) (regState : RegState) :
    Exec (UnwindCFA × List Int) :=
  let (cfaData, regOffsets) := acc
  if regState.reg ≥ maxReg then .ok acc
  -- undefined: no recoverable value in the previous frame
  else if regState.valType = .undefined then do
    let bit ← shl64 1 regState.reg
    .ok ({ cfaData with offMask := cfaData.offMask &&& ~~~bit }, regOffsets)
  else if regState.valType ≠ .offset then .ok acc
  else do
    let bit ← shl64 1 regState.reg
    .ok ({ cfaData with offMask := cfaData.offMask ||| bit },
      regOffsets.set regState.reg regState.val)

/-- The rows up to the first that starts behind the address. -/
def replay (maxReg rva : Nat) : List FrameState → UnwindCFA × List Int →
    Exec (UnwindCFA × List Int)
  | [], acc => .ok acc
  | state :: states, acc =>
    if state.rva > rva then .ok acc
    else do
      let acc ← state.regStates.foldlM (replayReg maxReg)
        ({ acc.1 with reg := state.cfaReg, off := state.cfaOff }, acc.2)
      replay maxReg rva states acc

def unwindToCfa (self : FrameOffset) (regOffsets : List Int) (rva : Nat) :
    Exec (UnwindCFA × List Int) :=
  replay (regOffsets.length % 256) rva self.frameStates ({}, regOffsets)

/-! ### The search table -/

/-- The position of the last entry that starts at or before the address. -/
def find (rva : Nat) (offsets : List FrameOffset) : Option Nat :=
  if offsets = [] then none
  else
    let index := partitionPoint (fun offset => offset.rva ≤ rva) offsets - 1
    match offsets[index]? with
    | some offset => if offset.rva ≤ rva then some index else none
    | none => none

theorem find_lt {rva index : Nat} {offsets : List FrameOffset}
    (h : find rva offsets = some index) : index < offsets.length := by
  unfold find at h
  by_cases hempty : offsets = []
  · rw [if_pos hempty] at h
    cases h
  · rw [if_neg hempty] at h
    cases hget : offsets[partitionPoint (fun offset => decide (offset.rva ≤ rva)) offsets - 1]? with
    | none => simp [hget] at h
    | some offset =>
      simp only [hget] at h
      by_cases hle : offset.rva ≤ rva
      · rw [if_pos hle] at h
        cases h
        exact (List.getElem?_eq_some_iff.mp hget).1
      · rw [if_neg hle] at h
        cases h

/-- The entries of the table; the readers of their values never answer with an error. -/
def locLoop (tableEnc : UInt8) (data : Int) (ehOffset secPtr : Nat) (buf : Bytes) :
    (count : Nat) → (cursor : Nat) → List FrameOffset → Exec (List FrameOffset)
  | 0, _, offsets => .ok offsets
  | count + 1, cursor, offsets => do
    let (rva, cursor) ← readValue tableEnc data buf cursor
    let (fde, cursor) ← readValue tableEnc data buf cursor
    let back ← subU64 (toU64 fde) secPtr
    let fde ← addU64 ehOffset back
    locLoop tableEnc data ehOffset secPtr buf count cursor (offsets ++ [{ rva := toU64 rva, fde }])

/-- `buf.resize(size, 0)`: a buffer has fewer than `2 ^ 63` bytes. -/
def resize (size : Nat) : Exec Unit := if size < 2 ^ 63 then .ok () else panicked

def parseLocTable (reader : File) (metadata : SectionMetadata) (ehOffset : Nat)
    (offsets : List FrameOffset) : Exec (List FrameOffset) := do
  reader.seek metadata.offset
  resize metadata.size
  let buf ← reader.readExact metadata.offset metadata.size
  let version ← getAt buf 0
  -- unknown version, skip
  if version ≠ 1 then .ok offsets
  else
    let sectionEnc ← getAt buf 1
    let countEnc ← getAt buf 2
    let tableEnc ← getAt buf 3
    if sectionEnc = DW_EH_PE_OMIT ∨ countEnc = DW_EH_PE_OMIT ∨ tableEnc = DW_EH_PE_OMIT then
      .ok offsets
    else
      let data := toI64 metadata.offset
      let (secPtr, cursor) ← readValue sectionEnc data buf 4
      let (count, cursor) ← readValue countEnc data buf cursor
      locLoop tableEnc data ehOffset (toU64 secPtr) buf count.toNat cursor offsets

end FrameOffset

/-! ## The header table

Its buffers hold nothing from one call to the next. -/

namespace FrameHeaderTable

/-- The first section of a name; a name that cannot be read is another. -/
def findSection (reader : File) (name : String) : List SectionMetadata →
    Exec (Option SectionMetadata)
  | [] => .ok none
  | sec :: secs =>
    match sec.nameEquals reader name with
    | .ok true => .ok (some sec)
    | .error .panic => panicked
    | _ => findSection reader name secs

/-- The table of a file. An error leaves it empty: entries are added behind the last read. -/
def parse (reader : File) : Exec (List FrameOffset) := do
  let metadata ← getSectionMetadata reader SHT_PROGBITS
  let ehFrame ← findSection reader ".eh_frame" metadata
  let ehOffset := match ehFrame with
    | some sec => sec.offset
    | none => 0
  let ehFrameHdr ← findSection reader ".eh_frame_hdr" metadata
  match ehFrameHdr with
  | some sec => FrameOffset.parseLocTable reader sec ehOffset []
  | none => .ok []

def parseOffset (reader : File) (offset : FrameOffset) : Exec FrameOffset :=
  offset.loadRules reader

end FrameHeaderTable

end OneCollect.Ruwind
