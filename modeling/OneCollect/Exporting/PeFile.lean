import OneCollect.Exporting.ModuleMetadata
import OneCollect.Exporting.VersionBlocks
import OneCollect.Ruwind.Elf

/-! What is read of a PE file (`pe_file.rs`): the header, where the text lies, the debug directory
and the version of a module. `peInfo_noPanic_iff` says what `get_pe_info` asks of the bytes of a
file, so that it does not panic: its sections do not wrap around, nor do the numbers of entries of
its resources, and the blocks of its version fit. -/

namespace OneCollect.Exporting.PeFile
open Theory Ruwind

/-! ## Headers

Each with its size and its fields, a field with its position and its width. -/

namespace PEHeader

def size : Nat := 28
def machine : Nat × Nat := (4, 2)
def secCount : Nat × Nat := (6, 2)
def dateTime : Nat × Nat := (8, 4)
def optHeaderSize : Nat × Nat := (20, 2)
def magic : Nat × Nat := (24, 2)

end PEHeader

namespace PEDataDirectory

def size : Nat := 8
def virtAddr : Nat × Nat := (0, 4)
def dataSize : Nat × Nat := (4, 4)

end PEDataDirectory

namespace PEDebugDirectory

def size : Nat := 28
def majorVer : Nat × Nat := (8, 2)
def minorVer : Nat × Nat := (10, 2)
def debugType : Nat × Nat := (12, 4)
def rawOffset : Nat × Nat := (24, 4)

end PEDebugDirectory

namespace PEResDirectory

def size : Nat := 16
def namedCount : Nat × Nat := (12, 2)
def idCount : Nat × Nat := (14, 2)

end PEResDirectory

namespace PEResEntry

def size : Nat := 8
def nameIdOffset : Nat × Nat := (0, 4)
def dirDataOffset : Nat × Nat := (4, 4)

def isNamed (entry : List UInt8) : Bool := field entry nameIdOffset &&& 0x80000000 ≠ 0

def nameIdValue (entry : List UInt8) : Nat := field entry nameIdOffset &&& 0x7FFFFFFF

def isDir (entry : List UInt8) : Bool := field entry dirDataOffset &&& 0x80000000 ≠ 0

def dirDataValue (entry : List UInt8) : Nat := field entry dirDataOffset &&& 0x7FFFFFFF

end PEResEntry

namespace PEResData

def size : Nat := 16
def dataOffset : Nat × Nat := (0, 4)
def dataSize : Nat × Nat := (4, 4)

end PEResData

namespace PESection

def size : Nat := 40
def virtAddr : Nat × Nat := (12, 4)
def rawSize : Nat × Nat := (16, 4)
def rawOffset : Nat × Nat := (20, 4)

end PESection

/-- `.text`, filled up with zeros. -/
def textSectionName : List UInt8 := [46, 116, 101, 120, 116, 0, 0, 0]

/-! ## Sections and directories -/

section Reads

variable (checks : OverflowChecks) (reader : File)

def getPeHeader : Exec (Nat × List UInt8) := do
  reader.seek 0x3C
  let offset ← reader.readExact 0x3C 4
  let peOffset := fromLe offset
  reader.seek peOffset
  let peHeader ← reader.readExact peOffset PEHeader.size
  .ok (peOffset, peHeader)

def sectionsOffset (peHeader : List UInt8) (peOffset : Nat) : Nat :=
  peOffset + 24 + field peHeader PEHeader.optHeaderSize

/-- The loop over the sections, up to the text. -/
def textLoop : (count pos : Nat) → Exec (Option (Nat × Nat))
  | 0, _ => .ok none
  | count + 1, pos => do
    let section_ ← reader.readExact pos PESection.size
    if section_.take 8 = textSectionName then
      .ok (some (field section_ PESection.virtAddr, field section_ PESection.rawOffset))
    else textLoop count (pos + PESection.size)

def getTextAddresses (peHeader : List UInt8) (peOffset : Nat) : Exec (Option (Nat × Nat)) := do
  reader.seek (sectionsOffset peHeader peOffset)
  textLoop reader (field peHeader PEHeader.secCount) (sectionsOffset peHeader peOffset)

/-- The loop over the sections, up to one that has an address. -/
def vaLoop (va : Nat) : (count pos : Nat) → Exec (Option Nat)
  | 0, _ => .ok none
  | count + 1, pos => do
    let section_ ← reader.readExact pos PESection.size
    let vaStart := field section_ PESection.virtAddr
    let vaEnd ← checks.word 32 (vaStart + field section_ PESection.rawSize)
    if vaStart ≤ va ∧ va < vaEnd then do
      let offset ← checks.word 32 (va - vaStart + field section_ PESection.rawOffset)
      .ok (some offset)
    else vaLoop va count (pos + PESection.size)

def vaToOffset (peHeader : List UInt8) (peOffset va : Nat) : Exec (Option Nat) := do
  reader.seek (sectionsOffset peHeader peOffset)
  vaLoop checks reader va (field peHeader PEHeader.secCount) (sectionsOffset peHeader peOffset)

/-- Where the entry of a directory is, for the two kinds of optional headers. -/
def directoryOffset (peHeader : List UInt8) (peOffset index : Nat) : Exec Nat :=
  if field peHeader PEHeader.magic = 0x10b then .ok (peOffset + 24 + 96 + index * 8)
  else if field peHeader PEHeader.magic = 0x20b then .ok (peOffset + 24 + 112 + index * 8)
  else fail ("Unexpected magic value " ++ toString (field peHeader PEHeader.magic))

/-- The offset and the size of a directory; the offset is 0 where it is in no section. -/
def getDirectoryData (peHeader : List UInt8) (peOffset index : Nat) : Exec (Nat × Nat) := do
  let dataOffset ← directoryOffset peHeader peOffset index
  reader.seek dataOffset
  let dataDir ← reader.readExact dataOffset PEDataDirectory.size
  if field dataDir PEDataDirectory.virtAddr = 0 then .ok (0, 0)
  else do
    let found ← vaToOffset checks reader peHeader peOffset (field dataDir PEDataDirectory.virtAddr)
    .ok (found.getD 0, field dataDir PEDataDirectory.dataSize)

/-! ## The debug directory -/

/-- `get_string`. -/
def getString (name : List UInt8) : Exec String :=
  match decodeUtf8 (name.takeWhile (· ≠ 0)) with
  | some text => .ok text
  | none => fail "invalid utf-8 sequence"

def extractFilename (path : String) : String :=
  String.ofList (path.toList.reverse.takeWhile fun c => c ≠ '\\' ∧ c ≠ '/').reverse

/-- What an entry of the debug directory says. -/
inductive DebugInfo where
  | symbols (sig : List UInt8) (age : Nat) (path : String)
  | perfmap (sig : List UInt8) (version : Nat) (name : String)

def DebugInfo.store (state : PEModuleMetadata × InternedStrings) :
    DebugInfo → PEModuleMetadata × InternedStrings
  | symbols sig age path =>
    let (symbolNameId, strings) := state.2.toId (extractFilename path)
    ({ state.1 with
        symbolAge := age, symbolSig := sig ++ state.1.symbolSig.drop sig.length, symbolNameId },
      strings)
  | perfmap sig version name =>
    let (perfmapNameId, strings) := state.2.toId name
    ({ state.1 with perfmapSig := sig, perfmapVersion := version, perfmapNameId }, strings)

/-- A CodeView entry, of the kinds `NB10` and `RSDS`. -/
def readCodeView (offset : Nat) : Exec (Option DebugInfo) := do
  reader.seek offset
  let cvType ← reader.readExact offset 4
  if fromLe cvType = 0x3031424e then do
    let cv ← reader.readExact (offset + 4) 140
    let path ← getString (cv.drop 12)
    .ok (some (.symbols ((cv.drop 4).take 4) (field cv (8, 4)) path))
  else if fromLe cvType = 0x53445352 then do
    let cv ← reader.readExact (offset + 4) 148
    let path ← getString (cv.drop 20)
    .ok (some (.symbols (cv.take 16) (field cv (16, 4)) path))
  else .ok none

def PERFMAP_MAGIC : Nat := 0x4D523252

def readPerfMap (offset : Nat) : Exec (Option DebugInfo) := do
  reader.seek offset
  let cv ← reader.readExact offset 152
  if field cv (0, 4) = PERFMAP_MAGIC then do
    let name ← getString (cv.drop 24)
    .ok (some (.perfmap ((cv.drop 4).take 16) (field cv (20, 4)) name))
  else .ok none

def readDebugEntry (offset : Nat) : Exec (Option DebugInfo) := do
  reader.seek offset
  let debugDir ← reader.readExact offset PEDebugDirectory.size
  if field debugDir PEDebugDirectory.debugType = 2 then
    readCodeView reader (field debugDir PEDebugDirectory.rawOffset)
  else if field debugDir PEDebugDirectory.debugType = 21 ∧
      field debugDir PEDebugDirectory.majorVer = 1 ∧
      field debugDir PEDebugDirectory.minorVer = 0 then
    readPerfMap reader (field debugDir PEDebugDirectory.rawOffset)
  else .ok none

/-- The loop over the debug directory. -/
def debugInfos (dbgOffset : Nat) : (count i : Nat) → Exec (List (Option DebugInfo))
  | 0, _ => .ok []
  | count + 1, i => do
    let info ← readDebugEntry reader (dbgOffset + i * PEDebugDirectory.size)
    let infos ← debugInfos dbgOffset count (i + 1)
    .ok (info :: infos)

/-- The debug directory, if there is one. -/
def readDebugs (dbgOffset dbgSize : Nat) : Exec (List (Option DebugInfo)) :=
  if dbgOffset ≠ 0 then do
    reader.seek dbgOffset
    debugInfos reader dbgOffset (dbgSize / PEDebugDirectory.size) 0
  else .ok []

/-! ## The version resource -/

/-- The loop over the entries of a resource directory; an id of 0 is that of any. -/
def entryLoop (wantedId : Nat) : (count pos : Nat) → Exec (Option (List UInt8))
  | 0, _ => .ok none
  | count + 1, pos => do
    let entry ← reader.readExact pos PEResEntry.size
    if !PEResEntry.isNamed entry ∧
        (PEResEntry.nameIdValue entry &&& 0xFFFF = wantedId ∨ wantedId = 0) then .ok (some entry)
    else entryLoop wantedId count (pos + PEResEntry.size)

def findResEntry (offset wantedId : Nat) : Exec (Option (List UInt8)) := do
  reader.seek offset
  let resDir ← reader.readExact offset PEResDirectory.size
  let count ← checks.word 16
    (field resDir PEResDirectory.namedCount + field resDir PEResDirectory.idCount)
  entryLoop reader wantedId count (offset + PEResDirectory.size)

/-- The directory of an id below another. -/
def findResDirectory (offset wantedId : Nat) : Exec (Option Nat) := do
  let entry ← findResEntry checks reader offset wantedId
  .ok ((entry.filter PEResEntry.isDir).map PEResEntry.dirDataValue)

/-- The blocks behind an entry, up to 4096 bytes of them. -/
def readBlock (peHeader : List UInt8) (peOffset offset : Nat) : Exec (Option (List UInt8)) := do
  reader.seek offset
  let data ← reader.readExact offset PEResData.size
  match ← vaToOffset checks reader peHeader peOffset (field data PEResData.dataOffset) with
  | none => .ok none
  | some dataOffset => do
    reader.seek dataOffset
    let block ← reader.readExact dataOffset (min (field data PEResData.dataSize) 4096)
    .ok (some block)

/-- The way through the directory tree: 16 / 1 / 0. -/
def findBlock (peHeader : List UInt8) (peOffset resOffset : Nat) : Exec (Option (List UInt8)) := do
  match ← findResDirectory checks reader resOffset 16 with
  | none => .ok none
  | some offset =>
    match ← findResDirectory checks reader (resOffset + offset) 1 with
    | none => .ok none
    | some offset =>
      match ← findResEntry checks reader (resOffset + offset) 0 with
      | none => .ok none
      | some entry =>
        readBlock checks reader peHeader peOffset (resOffset + PEResEntry.dirDataValue entry)

/-- What the blocks say, if there are any. -/
def findVersion (odd : Bool) (peHeader : List UInt8) (peOffset resOffset : Nat) :
    Exec VersionInfo := do
  match ← findBlock checks reader peHeader peOffset resOffset with
  | none => .ok {}
  | some block => readBlocks checks odd {} block

def readVersion (odd : Bool) (peHeader : List UInt8) (peOffset resOffset : Nat) :
    Exec VersionInfo :=
  if resOffset ≠ 0 then findVersion checks reader odd peHeader peOffset resOffset else .ok {}

/-- The version of the product in front of that of the file; there must be a description. -/
def VersionInfo.name (info : VersionInfo) : Option String := do
  let fileDesc ← info.fileDesc
  let version ← info.product.or info.fileVer
  some (version ++ ", " ++ fileDesc)

def storeVersion (state : PEModuleMetadata × InternedStrings) (info : VersionInfo) :
    PEModuleMetadata × InternedStrings :=
  match info.name with
  | none => state
  | some name =>
    let (versionNameId, strings) := state.2.toId name
    ({ state.1 with versionNameId }, strings)

/-! ## All of a file -/

/-- What is stored of the header; the names and signatures of an earlier file go. -/
def storeHeader (peHeader : List UInt8) (module : PEModuleMetadata) : PEModuleMetadata :=
  { module with
    machine := field peHeader PEHeader.machine
    dateTime := field peHeader PEHeader.dateTime
    symbolNameId := 0
    symbolAge := 0
    symbolSig := List.replicate 16 0
    versionNameId := 0 }

def storeText (text : Option (Nat × Nat)) (module : PEModuleMetadata) : Exec PEModuleMetadata :=
  match text with
  | none => .ok module
  | some (virtualAddress, fileOffset) => do
    let textLoadedLayoutOffset ← checks.subU64 virtualAddress fileOffset
    .ok { module with textLoadedLayoutOffset }

/-- `get_pe_info`; `odd` says where the array for the blocks lies. What is stored in front of an
error is left out. -/
def getPeInfo (odd : Bool) (module : PEModuleMetadata) (strings : InternedStrings) :
    Exec (PEModuleMetadata × InternedStrings) := do
  let (peOffset, peHeader) ← getPeHeader reader
  let text ← getTextAddresses reader peHeader peOffset
  let module ← storeText checks text (storeHeader peHeader module)
  let (dbgOffset, dbgSize) ← getDirectoryData checks reader peHeader peOffset 6
  let infos ← readDebugs reader dbgOffset dbgSize
  let state := infos.reduceOption.foldl DebugInfo.store (module, strings)
  let (resOffset, _) ← getDirectoryData checks reader peHeader peOffset 2
  let info ← readVersion checks reader odd peHeader peOffset resOffset
  .ok (storeVersion state info)

end Reads

/-! ## What is asked of a file -/

section Fits

variable (checks : OverflowChecks) (reader : File) (odd : Bool) (peHeader : List UInt8)
  (peOffset : Nat)

/-- The end of every section is a word, up to one that has the address; there its offset is one
too. -/
def SectionsFit (va : Nat) : (count pos : Nat) → Prop
  | 0, _ => True
  | count + 1, pos => ∀ section_, reader.readExact pos PESection.size = .ok section_ →
    let vaStart := field section_ PESection.virtAddr
    let vaEnd := vaStart + field section_ PESection.rawSize
    vaEnd < 2 ^ 32 ∧
      if vaStart ≤ va ∧ va < vaEnd then va - vaStart + field section_ PESection.rawOffset < 2 ^ 32
      else SectionsFit va count (pos + PESection.size)

/-- The sections fit, for an address that is looked for. -/
def AddressFits (va : Nat) : Prop :=
  checks = .on → reader.seek (sectionsOffset peHeader peOffset) = .ok () →
    SectionsFit reader va (field peHeader PEHeader.secCount) (sectionsOffset peHeader peOffset)

/-- The address of a directory fits, if the file has one. -/
def DirectoryFits (index : Nat) : Prop :=
  ∀ dataOffset, directoryOffset peHeader peOffset index = .ok dataOffset →
    reader.seek dataOffset = .ok () →
      ∀ dataDir, reader.readExact dataOffset PEDataDirectory.size = .ok dataDir →
        field dataDir PEDataDirectory.virtAddr ≠ 0 →
          AddressFits checks reader peHeader peOffset (field dataDir PEDataDirectory.virtAddr)

/-- The text does not lie behind its address. -/
def TextFits (text : Option (Nat × Nat)) : Prop :=
  ∀ virtualAddress fileOffset, text = some (virtualAddress, fileOffset) → checks = .on →
    fileOffset ≤ virtualAddress

/-- The number of entries of a resource directory is a word. -/
def EntriesFit (offset : Nat) : Prop :=
  checks = .on → reader.seek offset = .ok () →
    ∀ resDir, reader.readExact offset PEResDirectory.size = .ok resDir →
      field resDir PEResDirectory.namedCount + field resDir PEResDirectory.idCount < 2 ^ 16

/-- The address of the blocks fits. -/
def DataFits (offset : Nat) : Prop :=
  reader.seek offset = .ok () → ∀ data, reader.readExact offset PEResData.size = .ok data →
    AddressFits checks reader peHeader peOffset (field data PEResData.dataOffset)

/-- **The resources fit**, down the directory tree to the blocks of the version. -/
def ResourcesFit (resOffset : Nat) : Prop :=
  EntriesFit checks reader resOffset ∧
  ∀ types, findResDirectory checks reader resOffset 16 = .ok (some types) →
    EntriesFit checks reader (resOffset + types) ∧
    ∀ names, findResDirectory checks reader (resOffset + types) 1 = .ok (some names) →
      EntriesFit checks reader (resOffset + names) ∧
      ∀ entry, findResEntry checks reader (resOffset + names) 0 = .ok (some entry) →
        let offset := resOffset + PEResEntry.dirDataValue entry
        DataFits checks reader peHeader peOffset offset ∧
        ∀ block, readBlock checks reader peHeader peOffset offset = .ok (some block) →
          BlocksFit checks odd {} block

/-- **A file fits.** Its text does, then its debug directory and, behind what can be read of that,
its resources. -/
def PeFits : Prop :=
  ∀ peOffset peHeader, getPeHeader reader = .ok (peOffset, peHeader) →
  ∀ text, getTextAddresses reader peHeader peOffset = .ok text →
    TextFits checks text ∧ DirectoryFits checks reader peHeader peOffset 6 ∧
    ∀ dbgOffset dbgSize, getDirectoryData checks reader peHeader peOffset 6 =
      .ok (dbgOffset, dbgSize) → ∀ infos, readDebugs reader dbgOffset dbgSize = .ok infos →
        DirectoryFits checks reader peHeader peOffset 2 ∧
        ∀ resOffset resSize, getDirectoryData checks reader peHeader peOffset 2 =
          .ok (resOffset, resSize) → resOffset ≠ 0 →
            ResourcesFit checks reader odd peHeader peOffset resOffset

end Fits

section NoPanic

variable {checks : OverflowChecks} {reader : File} {odd : Bool} {peHeader : List UInt8}
  {peOffset : Nat}

/-! ## Reads that always end -/

theorem noPanic_getPeHeader : NoPanic (getPeHeader reader) := by
  rw [← safely_true]
  unfold getPeHeader
  simp only [safely_bind, safely_seek, safely_of_noPanic (noPanic_readExact reader _ _), safely_ok,
    implies_true]

theorem noPanic_textLoop (count pos : Nat) : NoPanic (textLoop reader count pos) := by
  induction count generalizing pos with
  | zero => exact noPanic_ok none
  | succ count ih =>
    refine noPanic_bind.mpr ⟨noPanic_readExact reader _ _, fun section_ _ => ?_⟩
    exact noPanic_ite.mpr ⟨fun _ => noPanic_ok _, fun _ => ih _⟩

theorem noPanic_getTextAddresses : NoPanic (getTextAddresses reader peHeader peOffset) :=
  noPanic_bind.mpr ⟨noPanic_seek reader _, fun _ _ => noPanic_textLoop _ _⟩

theorem noPanic_directoryOffset (index : Nat) :
    NoPanic (directoryOffset peHeader peOffset index) := by
  unfold directoryOffset
  simp only [noPanic_ite, noPanic_ok, noPanic_fail, implies_true, and_self]

theorem noPanic_getString (name : List UInt8) : NoPanic (getString name) := by
  unfold getString
  split
  · exact noPanic_ok _
  · exact noPanic_fail _

theorem noPanic_readCodeView (offset : Nat) : NoPanic (readCodeView reader offset) := by
  rw [← safely_true]
  unfold readCodeView
  simp only [safely_bind, safely_seek, safely_of_noPanic (noPanic_readExact reader _ _), safely_ite,
    safely_of_noPanic (noPanic_getString _), safely_ok, implies_true, and_self]

theorem noPanic_readPerfMap (offset : Nat) : NoPanic (readPerfMap reader offset) := by
  rw [← safely_true]
  unfold readPerfMap
  simp only [safely_bind, safely_seek, safely_of_noPanic (noPanic_readExact reader _ _), safely_ite,
    safely_of_noPanic (noPanic_getString _), safely_ok, implies_true, and_self]

theorem noPanic_readDebugEntry (offset : Nat) : NoPanic (readDebugEntry reader offset) := by
  refine noPanic_bind.mpr ⟨noPanic_seek reader _, fun _ _ => ?_⟩
  refine noPanic_bind.mpr ⟨noPanic_readExact reader _ _, fun debugDir _ => ?_⟩
  simp only [noPanic_ite, noPanic_readCodeView, noPanic_readPerfMap, noPanic_ok, implies_true,
    and_self]

theorem noPanic_debugInfos (dbgOffset count i : Nat) :
    NoPanic (debugInfos reader dbgOffset count i) := by
  induction count generalizing i with
  | zero => exact noPanic_ok []
  | succ count ih =>
    refine noPanic_bind.mpr ⟨noPanic_readDebugEntry _, fun info _ => ?_⟩
    exact noPanic_bind.mpr ⟨ih (i + 1), fun infos _ => noPanic_ok _⟩

theorem noPanic_readDebugs (dbgOffset dbgSize : Nat) :
    NoPanic (readDebugs reader dbgOffset dbgSize) := by
  refine noPanic_ite.mpr ⟨fun _ => ?_, fun _ => noPanic_ok []⟩
  exact noPanic_bind.mpr ⟨noPanic_seek reader _, fun _ _ => noPanic_debugInfos _ _ _⟩

theorem noPanic_entryLoop (wantedId count pos : Nat) :
    NoPanic (entryLoop reader wantedId count pos) := by
  induction count generalizing pos with
  | zero => exact noPanic_ok none
  | succ count ih =>
    refine noPanic_bind.mpr ⟨noPanic_readExact reader _ _, fun entry _ => ?_⟩
    exact noPanic_ite.mpr ⟨fun _ => noPanic_ok _, fun _ => ih _⟩

/-! ## Reads that ask something -/

theorem noPanic_vaLoop (va count pos : Nat) :
    NoPanic (vaLoop checks reader va count pos) ↔
      (checks = .on → SectionsFit reader va count pos) := by
  rw [← safely_true]
  induction count generalizing pos with
  | zero => exact iff_of_true (safely_ok.mpr trivial) fun _ => trivial
  | succ count ih =>
    unfold vaLoop SectionsFit
    simp only [safely_bind, safely_of_noPanic (noPanic_readExact reader _ _),
      OverflowChecks.safely_word, safely_ite, safely_ok, ih]
    cases checks with
    | on => simp only [OverflowChecks.Within, forall_const, and_true, ite_prop_iff_and]
    | off => simp [OverflowChecks.Within]

theorem noPanic_vaToOffset (va : Nat) :
    NoPanic (vaToOffset checks reader peHeader peOffset va) ↔
      AddressFits checks reader peHeader peOffset va := by
  unfold vaToOffset AddressFits
  rw [← safely_true, safely_bind, safely_seek, safely_true, noPanic_vaLoop]
  exact forall_comm

theorem noPanic_getDirectoryData (index : Nat) :
    NoPanic (getDirectoryData checks reader peHeader peOffset index) ↔
      DirectoryFits checks reader peHeader peOffset index := by
  have hlook (va : Nat) {f : Option Nat → Nat × Nat} :
      NoPanic (vaToOffset checks reader peHeader peOffset va >>= fun found => .ok (f found)) ↔
        AddressFits checks reader peHeader peOffset va := by
    rw [noPanic_bind, noPanic_vaToOffset]
    exact and_iff_left fun _ _ => noPanic_ok _
  unfold getDirectoryData DirectoryFits
  rw [noPanic_bind, and_iff_right (noPanic_directoryOffset index)]
  refine forall_congr' fun dataOffset => imp_congr_right fun _ => ?_
  rw [← safely_true, safely_bind, safely_seek, safely_bind,
    safely_of_noPanic (noPanic_readExact reader _ _)]
  refine imp_congr_right fun _ => forall_congr' fun dataDir => imp_congr_right fun _ => ?_
  rw [safely_true, noPanic_ite, hlook]
  exact and_iff_right fun _ => noPanic_ok _

theorem noPanic_storeText (text : Option (Nat × Nat)) (module : PEModuleMetadata) :
    NoPanic (storeText checks text module) ↔ TextFits checks text := by
  cases text with
  | none => exact iff_of_true (noPanic_ok module) fun _ _ h => nomatch h
  | some text =>
    obtain ⟨virtualAddress, fileOffset⟩ := text
    have hless : (checks.Less virtualAddress fileOffset fun _ => True) ↔
        (checks = .on → fileOffset ≤ virtualAddress) := by
      cases checks with
      | on => simp [OverflowChecks.Less]
      | off => simp [OverflowChecks.Less]
    unfold storeText TextFits
    rw [← safely_true]
    simp only [safely_bind, OverflowChecks.safely_subU64, safely_ok, hless]
    refine ⟨fun h va offset hsome => ?_, fun h => h _ _ rfl⟩
    cases hsome
    exact h

/-- A text that fits is stored. -/
theorem exists_storeText {text : Option (Nat × Nat)} (module : PEModuleMetadata)
    (htext : TextFits checks text) : ∃ stored, storeText checks text module = .ok stored := by
  cases text with
  | none => exact ⟨module, rfl⟩
  | some text =>
    cases checks with
    | on => exact ⟨_, bind_eq_ok.mpr ⟨_, if_pos (htext _ _ rfl rfl), rfl⟩⟩
    | off => exact ⟨_, rfl⟩

theorem noPanic_findResEntry (offset wantedId : Nat) :
    NoPanic (findResEntry checks reader offset wantedId) ↔ EntriesFit checks reader offset := by
  unfold findResEntry EntriesFit
  rw [← safely_true]
  simp only [safely_bind, safely_seek, safely_of_noPanic (noPanic_readExact reader _ _),
    OverflowChecks.safely_word, safely_of_noPanic (noPanic_entryLoop _ _ _), implies_true,
    OverflowChecks.within_true]
  constructor
  · exact fun h hon hseek resDir hread => h hseek resDir hread hon
  · exact fun h hseek resDir hread hon => h hon hseek resDir hread

theorem noPanic_findResDirectory (offset wantedId : Nat) :
    NoPanic (findResDirectory checks reader offset wantedId) ↔
      EntriesFit checks reader offset := by
  unfold findResDirectory
  rw [noPanic_bind, noPanic_findResEntry]
  exact and_iff_left fun _ _ => noPanic_ok _

theorem noPanic_readBlock (offset : Nat) :
    NoPanic (readBlock checks reader peHeader peOffset offset) ↔
      DataFits checks reader peHeader peOffset offset := by
  unfold readBlock DataFits
  rw [← safely_true, safely_bind, safely_seek, safely_bind,
    safely_of_noPanic (noPanic_readExact reader _ _)]
  refine imp_congr_right fun _ => forall_congr' fun data => imp_congr_right fun _ => ?_
  rw [safely_true, noPanic_bind, noPanic_vaToOffset]
  refine and_iff_left fun found _ => ?_
  cases found with
  | none => exact noPanic_ok none
  | some dataOffset =>
    refine noPanic_bind.mpr ⟨noPanic_seek reader _, fun _ _ => ?_⟩
    exact noPanic_bind.mpr ⟨noPanic_readExact reader _ _, fun block _ => noPanic_ok _⟩

theorem safely_findBlock {resOffset : Nat} {P : Option (List UInt8) → Prop} (hnone : P none) :
    Safely (findBlock checks reader peHeader peOffset resOffset) P ↔
      EntriesFit checks reader resOffset ∧
      ∀ types, findResDirectory checks reader resOffset 16 = .ok (some types) →
        EntriesFit checks reader (resOffset + types) ∧
        ∀ names, findResDirectory checks reader (resOffset + types) 1 = .ok (some names) →
          EntriesFit checks reader (resOffset + names) ∧
          ∀ entry, findResEntry checks reader (resOffset + names) 0 = .ok (some entry) →
            Safely (readBlock checks reader peHeader peOffset
              (resOffset + PEResEntry.dirDataValue entry)) P := by
  have hnothing : Safely (.ok none) P := safely_ok.mpr hnone
  unfold findBlock
  rw [safely_found, noPanic_findResDirectory]
  · refine and_congr_right fun _ => forall_congr' fun types => imp_congr_right fun _ => ?_
    dsimp only
    rw [safely_found, noPanic_findResDirectory]
    · refine and_congr_right fun _ => forall_congr' fun names => imp_congr_right fun _ => ?_
      dsimp only
      rw [safely_found, noPanic_findResEntry]
      exact hnothing
    · exact hnothing
  · exact hnothing

/-- Down the directory tree, and through the blocks that are found there. -/
theorem noPanic_findVersion (resOffset : Nat) :
    NoPanic (findVersion checks reader odd peHeader peOffset resOffset) ↔
      ResourcesFit checks reader odd peHeader peOffset resOffset := by
  rw [← safely_true, findVersion, safely_bind, safely_findBlock (safely_ok.mpr trivial)]
  unfold ResourcesFit
  refine and_congr_right fun _ => forall_congr' fun types => imp_congr_right fun _ => ?_
  refine and_congr_right fun _ => forall_congr' fun names => imp_congr_right fun _ => ?_
  refine and_congr_right fun _ => forall_congr' fun entry => imp_congr_right fun _ => ?_
  rw [Safely, noPanic_readBlock, Option.forall]
  refine and_congr_right fun _ => (and_iff_right fun _ => safely_ok.mpr trivial).trans ?_
  refine forall_congr' fun block => imp_congr_right fun _ => ?_
  exact safely_true.trans (noPanic_readBlocks {} block)

theorem noPanic_readVersion (resOffset : Nat) :
    NoPanic (readVersion checks reader odd peHeader peOffset resOffset) ↔
      (resOffset ≠ 0 → ResourcesFit checks reader odd peHeader peOffset resOffset) := by
  unfold readVersion
  rw [noPanic_ite, noPanic_findVersion]
  exact and_iff_left fun _ => noPanic_ok _

/-- **A PE file** is read without a panic exactly where it fits. -/
theorem peInfo_noPanic_iff (checks : OverflowChecks) (reader : File) (odd : Bool)
    (module : PEModuleMetadata) (strings : InternedStrings) :
    NoPanic (getPeInfo checks reader odd module strings) ↔ PeFits checks reader odd := by
  unfold getPeInfo PeFits
  simp only [noPanic_bind, noPanic_getPeHeader, noPanic_getTextAddresses, noPanic_storeText,
    noPanic_getDirectoryData, noPanic_readDebugs, noPanic_readVersion, noPanic_ok, implies_true,
    and_true, true_and, Prod.forall]
  refine forall_congr' fun peOffset => forall_congr' fun peHeader => imp_congr_right fun _ => ?_
  refine forall_congr' fun text => imp_congr_right fun _ => and_congr_right fun htext => ?_
  -- what is stored of the text is not read again
  obtain ⟨stored, hstored⟩ := exists_storeText (storeHeader peHeader module) htext
  exact ⟨fun h => h stored hstored, fun h _ _ => h⟩

/-- The one block of its version ends behind a name. -/
def cutBlock : List UInt8 :=
  toLe 2 34 ++ toLe 2 0 ++ toLe 2 1 ++ ("ProductVersion".toList.flatMap fun c => toLe 2 c.toNat)

/-- One section, for the resources: three directories, the place of the version, and its block. -/
def cutVersionFile : File :=
  File.ofBytes (toLe 60 0 ++ toLe 4 64 ++
    toLe 4 0x4550 ++ toLe 2 0x14C ++ toLe 2 1 ++ toLe 12 0 ++ toLe 4 160 ++ toLe 2 0x10b ++
    toLe 110 0 ++ toLe 4 0x1000 ++ toLe 44 0 ++
    toLe 12 0 ++ toLe 4 0x1000 ++ toLe 4 256 ++ toLe 4 288 ++ toLe 16 0 ++
    toLe 14 0 ++ toLe 2 1 ++ toLe 4 16 ++ toLe 4 0x80000018 ++
    toLe 14 0 ++ toLe 2 1 ++ toLe 4 1 ++ toLe 4 0x80000030 ++
    toLe 14 0 ++ toLe 2 1 ++ toLe 4 0x409 ++ toLe 4 72 ++
    toLe 4 0x1058 ++ toLe 4 34 ++ toLe 8 0 ++ cutBlock)

/-- Behind the name of the version of a product there is no room for its value. -/
theorem not_noPanic_cutVersion :
    ¬ ∀ (checks : OverflowChecks) (reader : File) (odd : Bool) (module : PEModuleMetadata)
      (strings : InternedStrings), NoPanic (getPeInfo checks reader odd module strings) := by
  intro h
  obtain ⟨peHeader, hheader, htext, hdebug, hresources, hblock⟩ :
      ∃ peHeader, getPeHeader cutVersionFile = .ok (64, peHeader) ∧
        getTextAddresses cutVersionFile peHeader 64 = .ok none ∧
        getDirectoryData .off cutVersionFile peHeader 64 6 = .ok (0, 0) ∧
        getDirectoryData .off cutVersionFile peHeader 64 2 = .ok (288, 0) ∧
        findBlock .off cutVersionFile peHeader 64 288 = .ok (some cutBlock) :=
    ⟨_, rfl, rfl, rfl, rfl, rfl⟩
  have hread := h .off cutVersionFile false {} {}
  unfold getPeInfo at hread
  simp only [hheader, htext, storeText, hdebug, hresources, ok_bind] at hread
  have hversion : NoPanic (readVersion .off cutVersionFile false peHeader 64 288) :=
    (noPanic_bind.mp ((noPanic_bind.mp hread).2 [] rfl)).1
  have hblocks : NoPanic (readBlocks .off false {} cutBlock) := by
    rw [readVersion, if_pos (by decide), findVersion, hblock] at hversion
    exact hversion
  have hname : getUnicodeString false (cutBlock.drop 6) = .ok "ProductVersion" := rfl
  have hfits : BlockFits .off false {} cutBlock :=
    (noPanic_readBlocks {} cutBlock).mp hblocks _ _ (.refl _ _) (by decide)
  exact absurd (hfits.2 _ hname (.inl ⟨rfl, rfl⟩)) (by decide)

end NoPanic

end OneCollect.Exporting.PeFile
