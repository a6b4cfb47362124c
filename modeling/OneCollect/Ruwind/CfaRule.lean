import OneCollect.Ruwind.FrameTable

/-! The CFA that unwinding answers is the CFA of the row in force
(`FrameOffset.unwindToCfa_cfa`), unless the program names a location by a relative address:
`readRule` reads such an address with the location as its base. -/

namespace OneCollect.Ruwind
open Theory CallFrame

/-- For an address the loaded rows answer the CFA of the row in force, and (0, 0) below the
start. Where the locations do not wrap around, that row is the last one at or below the
address. -/
def ShowsCfa (loaded : FrameOffset) (entry : Entry) (regOffsets : List Int) (rva : Nat) : Prop :=
  ∃ table, entry.table = some table ∧
    Ends (regOffsets.length ≤ 64) (loaded.unwindToCfa regOffsets rva) fun out =>
      (rva < toU64 entry.start → out.1.reg = 0 ∧ out.1.off = 0) ∧
      (toU64 entry.start ≤ rva → ∃ row, inForce rva table = some row ∧
        ((∀ located ∈ table, located.loc / 2 ^ 64 = entry.start / 2 ^ 64) →
          lastAt rva table = some row) ∧
        out.1.reg = row.cfa.reg ∧ out.1.off = row.cfa.off)

namespace FrameOffset

variable {self loaded : FrameOffset} {reader : File} {enc : UInt8} {entry : Entry}

/-- A file with a CIE at 0 and an FDE at 24, which starts at the encoded location. The CFA
of the CIE is register 7 with offset 8, and the rules of the FDE start at 41. -/
def pairFile (enc : UInt8) (location : Nat) (rules : Bytes) : Bytes :=
  toLe 4 20 ++ toLe 4 0 ++ [1, 0x7a, 0x52, 0, 1, 0x78, 16, 1, enc, 0x0c, 7, 8, 0x90, 1, 0, 0] ++
  toLe 4 (13 + rules.length) ++ toLe 4 28 ++ toLe 4 location ++ toLe 4 0x400 ++ [0] ++ rules

def pairOffset : FrameOffset := { rva := 0x100, fde := 24 }

def pairEntry (fde : List Instr) : Entry where
  start := 0x100
  factors := ⟨1, -8⟩
  cie := [.defCfa 7 8, .offset 16 1, .nop, .nop]
  fde

/-- What is loaded from the pair, with a second row. -/
def pairLoaded (rva : Nat) : FrameOffset where
  rva := 0x100
  fde := 24
  pcSize := 0x400
  state := .valid
  retReg := 16
  frameStates := [
    { rva := 0x100, cfaReg := 7, cfaOff := 8, regStates := [⟨16, .offset, -8⟩] },
    { rva, cfaReg := 7, cfaOff := 16 }]

theorem fits_pairEntry : FitsEntry (pairEntry [.setLoc 0x180, .defCfaOffset 16]) :=
  ⟨by decide, by decide, by decide, by decide⟩

theorem forward_pairEntry :
    Forward ⟨1, -8⟩ 0x100 (pairEntry [.setLoc 0x180, .defCfaOffset 16]).fde :=
  ⟨(by decide : (0x100 : Int) ≤ 0x180), trivial, trivial⟩

/-- The offset becomes 16 at the absolute location 0x180. -/
def absoluteFile : File := File.ofBytes (pairFile 0x03 0x100 ([1] ++ toLe 4 0x180 ++ [0x0e, 16]))

/-- The same rows with relative locations: the operand at 42 leads from there to 0x180. -/
def relativeFile : File := File.ofBytes (pairFile 0x13 0xe0 ([1] ++ toLe 4 0x156 ++ [0x0e, 16]))

end FrameOffset

end OneCollect.Ruwind
