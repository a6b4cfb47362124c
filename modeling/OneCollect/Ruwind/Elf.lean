import OneCollect.Theory.Bytes

/-! The files the unwinder reads, and the section table of `elf.rs`.

A `File` answers a read at a position with bytes or with the text of an error; a read may
come back short. The two ELF classes have one table walk, over the layout of their headers. -/

namespace OneCollect.Ruwind
open Theory

abbrev Bytes := List UInt8

structure File where
  seekError : Nat → Option String
  readAt : Nat → Nat → Except String Bytes
  length_readAt : ∀ {pos len bytes}, readAt pos len = .ok bytes → bytes.length ≤ len

namespace File

/-- A file whose reads never fail. -/
def ofBytes (content : Bytes) : File where
  seekError := fun _ => none
  readAt := fun pos len => .ok ((content.drop pos).take len)
  length_readAt := by
    intro pos len bytes h
    cases h
    exact List.length_take_le len _

def seek (self : File) (pos : Nat) : Exec Unit :=
  match self.seekError pos with
  | none => .ok ()
  | some text => fail text

def read (self : File) (pos len : Nat) : Exec Bytes :=
  match self.readAt pos len with
  | .ok bytes => .ok bytes
  | .error text => fail text

/-- Reads until the buffer is full; every turn but the last brings a byte. -/
def readLoop (self : File) : (turns pos len : Nat) → Exec Bytes
  | 0, _, _ => .ok []
  | turns + 1, pos, len =>
    if len = 0 then .ok []
    else do
      let bytes ← self.read pos len
      if bytes = [] then fail "failed to fill whole buffer"
      let rest ← self.readLoop turns (pos + bytes.length) (len - bytes.length)
      .ok (bytes ++ rest)

def readExact (self : File) (pos len : Nat) : Exec Bytes := self.readLoop len pos len

end File

/-! ## What a read cannot do -/

theorem noPanic_seek (reader : File) (pos : Nat) : NoPanic (reader.seek pos) := by
  unfold File.seek
  cases reader.seekError pos with
  | none => exact noPanic_ok ()
  | some text => exact noPanic_fail text

theorem safely_seek {reader : File} {pos : Nat} {P : Unit → Prop} :
    Safely (reader.seek pos) P ↔ (reader.seek pos = .ok () → P ()) :=
  (safely_of_noPanic (noPanic_seek reader pos)).trans ⟨fun h => h (), fun h _ => h⟩

theorem noPanic_read (reader : File) (pos len : Nat) : NoPanic (reader.read pos len) := by
  unfold File.read
  cases reader.readAt pos len with
  | ok bytes => exact noPanic_ok bytes
  | error text => exact noPanic_fail text

theorem noPanic_readLoop (reader : File) (turns pos len : Nat) :
    NoPanic (reader.readLoop turns pos len) := by
  induction turns generalizing pos len with
  | zero => exact noPanic_ok []
  | succ turns ih =>
    refine noPanic_ite.mpr ⟨fun _ => noPanic_ok [], fun _ => ?_⟩
    refine noPanic_bind.mpr ⟨noPanic_read reader pos len, fun bytes _ => noPanic_refuse fun _ => ?_⟩
    exact noPanic_bind.mpr ⟨ih _ _, fun rest _ => noPanic_ok _⟩

theorem noPanic_readExact (reader : File) (pos len : Nat) : NoPanic (reader.readExact pos len) :=
  noPanic_readLoop reader len pos len

theorem length_readLoop {reader : File} {bytes : Bytes} {turns pos len : Nat} (hle : len ≤ turns)
    (h : reader.readLoop turns pos len = .ok bytes) : bytes.length = len := by
  induction turns generalizing pos len bytes with
  | zero =>
    cases h
    exact (Nat.le_zero.mp hle).symm
  | succ turns ih =>
    unfold File.readLoop at h
    by_cases hzero : len = 0
    · rw [if_pos hzero] at h
      cases h
      exact hzero.symm
    · rw [if_neg hzero] at h
      obtain ⟨first, hread, h⟩ := bind_eq_ok.mp h
      have hfirst : first.length ≤ len := by
        unfold File.read at hread
        cases hat : reader.readAt pos len with
        | error text => simp [hat] at hread
        | ok read =>
          rw [hat] at hread
          cases hread
          exact reader.length_readAt hat
      by_cases hempty : first = []
      · rw [if_pos hempty] at h
        cases h
      · rw [if_neg hempty] at h
        have hpos : 0 < first.length := List.length_pos_iff.mpr hempty
        obtain ⟨rest, hrest, h⟩ := bind_eq_ok.mp h
        cases h
        rw [List.length_append, ih (by omega) hrest]
        omega

/-! ## Section headers -/

def SHT_PROGBITS : Nat := 1
def EI_CLASS : Nat := 4
def ELFCLASS32 : UInt8 := 1
def ELFCLASS64 : UInt8 := 2

structure SectionMetadata where
  secType : Nat
  address : Nat
  offset : Nat
  size : Nat
  entrySize : Nat
  nameOffset : Nat
  link : Nat
  class_ : UInt8
  deriving DecidableEq, Repr

namespace SectionMetadata

def nameEquals (self : SectionMetadata) (reader : File) (name : String) : Exec Bool := do
  let name := name.toUTF8.data.toList
  reader.seek self.nameOffset
  let buf ← reader.readExact self.nameOffset (name.length + 1)
  .ok (buf.getLast? = some 0 ∧ buf.dropLast = name)

end SectionMetadata

/-- Sizes of the headers of a class and positions of the fields in them; a field is its
position and its width. -/
structure ElfLayout where
  headerSize : Nat
  e_shoff : Nat × Nat
  e_shentsize : Nat × Nat
  e_shnum : Nat × Nat
  e_shstrndx : Nat × Nat
  sectionSize : Nat
  sh_name : Nat × Nat
  sh_type : Nat × Nat
  sh_addr : Nat × Nat
  sh_offset : Nat × Nat
  sh_size : Nat × Nat
  sh_link : Nat × Nat
  sh_entsize : Nat × Nat

/-- `ElfHeader32` (behind the identification) and `ElfSectionHeader32`. -/
def elf32 : ElfLayout where
  headerSize := 36
  e_shoff := (16, 4)
  e_shentsize := (30, 2)
  e_shnum := (32, 2)
  e_shstrndx := (34, 2)
  sectionSize := 40
  sh_name := (0, 4)
  sh_type := (4, 4)
  sh_addr := (12, 4)
  sh_offset := (16, 4)
  sh_size := (20, 4)
  sh_link := (24, 4)
  sh_entsize := (36, 4)

/-- `ElfHeader64` (behind the identification) and `ElfSectionHeader64`. -/
def elf64 : ElfLayout where
  headerSize := 48
  e_shoff := (24, 8)
  e_shentsize := (42, 2)
  e_shnum := (44, 2)
  e_shstrndx := (46, 2)
  sectionSize := 64
  sh_name := (0, 4)
  sh_type := (4, 4)
  sh_addr := (16, 8)
  sh_offset := (24, 8)
  sh_size := (32, 8)
  sh_link := (40, 4)
  sh_entsize := (56, 8)

/-- A field of a header that has been read. -/
def field (header : Bytes) (position : Nat × Nat) : Nat :=
  fromLe ((header.drop position.1).take position.2)

def getSectionHeader (layout : ElfLayout) (reader : File) (secOffset : Nat) : Exec Bytes := do
  reader.seek secOffset
  reader.readExact secOffset layout.sectionSize

theorem noPanic_getSectionHeader {layout : ElfLayout} {reader : File} (secOffset : Nat) :
    NoPanic (getSectionHeader layout reader secOffset) :=
  noPanic_bind.mpr ⟨noPanic_seek reader secOffset,
    fun _ _ => noPanic_readExact reader secOffset layout.sectionSize⟩

/-- The walk over `count` headers from the `i`-th on, of which `sec` at `secOffset` has been
read last: the wanted sections and the offset of the names, if their header is among them. -/
def sections (layout : ElfLayout) (class_ : UInt8) (reader : File) (header : Bytes)
    (secType : Option Nat) : (count i secOffset : Nat) → (sec : Bytes) → (strOffset : Nat) →
    List SectionMetadata → Exec (Nat × List SectionMetadata)
  | 0, _, _, _, strOffset, metadata => .ok (strOffset, metadata)
  | count + 1, i, secOffset, sec, strOffset, metadata => do
    let (secOffset, sec) ←
      if i > 0 then do
        let secOffset ← addU64 secOffset (field header layout.e_shentsize)
        let sec ← getSectionHeader layout reader secOffset
        .ok (secOffset, sec)
      else
        .ok (secOffset, sec)
    let strOffset :=
      if i = field header layout.e_shstrndx then field sec layout.sh_offset else strOffset
    let wanted : Bool :=
      match secType with
      | some secType => field sec layout.sh_type = secType
      | none => true
    let metadata :=
      if wanted then metadata ++
        [{ class_, secType := field sec layout.sh_type, address := field sec layout.sh_addr
           offset := field sec layout.sh_offset, size := field sec layout.sh_size
           entrySize := field sec layout.sh_entsize, nameOffset := field sec layout.sh_name
           link := field sec layout.sh_link }]
      else metadata
    sections layout class_ reader header secType count (i + 1) secOffset sec strOffset metadata

def addNameOffset (strOffset : Nat) (m : SectionMetadata) : Exec SectionMetadata := do
  let nameOffset ← addU64 m.nameOffset strOffset
  .ok { m with nameOffset }

/-- The sections of a file whose identification has been read. -/
def getSectionMetadataOf (layout : ElfLayout) (class_ : UInt8) (reader : File)
    (secType : Option Nat) : Exec (List SectionMetadata) := do
  let header ← reader.readExact 16 layout.headerSize
  let secOffset := field header layout.e_shoff
  let sec ← getSectionHeader layout reader secOffset
  let (secCount, secOffset, sec) ←
    if field header layout.e_shnum = 0 then do
      let secCount := field sec layout.sh_size % 2 ^ 32
      let secOffset ← addU64 secOffset (field header layout.e_shentsize)
      let sec ← getSectionHeader layout reader secOffset
      .ok (secCount, secOffset, sec)
    else
      .ok (field header layout.e_shnum, secOffset, sec)
  let (strOffset, metadata) ←
    sections layout class_ reader header secType secCount 0 secOffset sec 0 []
  metadata.mapM (addNameOffset strOffset)

def getSectionMetadata32 (reader : File) (secType : Option Nat) : Exec (List SectionMetadata) :=
  getSectionMetadataOf elf32 ELFCLASS32 reader secType

def getSectionMetadata64 (reader : File) (secType : Option Nat) : Exec (List SectionMetadata) :=
  getSectionMetadataOf elf64 ELFCLASS64 reader secType

/-- `enum_section_metadata` without an identification read before. -/
def enumSectionMetadata (reader : File) (secType : Option Nat) : Exec (List SectionMetadata) := do
  reader.seek 0
  let ident ← reader.readExact 0 16
  let class_ ← getAt ident EI_CLASS
  if class_ = ELFCLASS32 then getSectionMetadata32 reader secType
  else if class_ = ELFCLASS64 then getSectionMetadata64 reader secType
  else .ok []

def getSectionMetadata (reader : File) (secType : Nat) : Exec (List SectionMetadata) :=
  enumSectionMetadata reader (some secType)

end OneCollect.Ruwind
