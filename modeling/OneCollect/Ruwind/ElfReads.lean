import OneCollect.Ruwind.ElfSymbols

/-! The rest of what `elf.rs` reads: the load header, the names of sections, the notes, the link to
debug information and mangled names. `panicFree_iff` says what all its readers ask of a file, so
that none of them panics. -/

namespace OneCollect.Ruwind.Elf
open Theory

/-! ## The load header -/

def ELF_MAGIC : Bytes := [0x7f, 69, 76, 70]
def PT_LOAD : Nat := 1
def PF_X : Nat := 1

/-- The fields of the file header about program headers, and those of a program header. -/
structure ProgramLayout where
  headerSize : Nat
  e_phoff : Nat × Nat
  e_phentsize : Nat × Nat
  e_phnum : Nat × Nat
  size : Nat
  p_type : Nat × Nat
  p_flags : Nat × Nat
  p_offset : Nat × Nat
  p_vaddr : Nat × Nat

def program32 : ProgramLayout where
  headerSize := 36
  e_phoff := (12, 4)
  e_phentsize := (26, 2)
  e_phnum := (28, 2)
  size := 32
  p_type := (0, 4)
  p_offset := (4, 4)
  p_vaddr := (8, 4)
  p_flags := (24, 4)

def program64 : ProgramLayout where
  headerSize := 48
  e_phoff := (16, 8)
  e_phentsize := (38, 2)
  e_phnum := (40, 2)
  size := 56
  p_type := (0, 4)
  p_flags := (4, 4)
  p_offset := (8, 8)
  p_vaddr := (16, 8)

section Reads

variable (checks : OverflowChecks) (reader : File)

/-- The loop over the program headers, up to one that is loaded and executed. -/
def programLoop (layout : ProgramLayout) (header : Bytes) : (count secOffset : Nat) →
    Exec ElfLoadHeader
  | 0, _ => .ok { p_offset := 0, p_vaddr := 0 }
  | count + 1, secOffset => do
    reader.seek secOffset
    let pheader ← reader.readExact secOffset layout.size
    if field pheader layout.p_type = PT_LOAD ∧ field pheader layout.p_flags &&& PF_X = PF_X then
      .ok { p_offset := field pheader layout.p_offset, p_vaddr := field pheader layout.p_vaddr }
    else do
      let secOffset ← checks.addU64 secOffset (field header layout.e_phentsize)
      programLoop layout header count secOffset

/-- `get_load_header32` and `get_load_header64`. -/
def getLoadHeaderOf (layout : ProgramLayout) : Exec ElfLoadHeader := do
  let header ← reader.readExact 16 layout.headerSize
  programLoop checks reader layout header (field header layout.e_phnum)
    (field header layout.e_phoff)

def getLoadHeader : Exec ElfLoadHeader := do
  reader.seek 0
  let ident ← reader.readExact 0 16
  if ident.take 4 ≠ ELF_MAGIC then fail "not an ELF file"
  let class_ ← getAt ident EI_CLASS
  if class_ = ELFCLASS32 then getLoadHeaderOf checks reader program32
  else if class_ = ELFCLASS64 then getLoadHeaderOf checks reader program64
  else .ok { p_offset := 0, p_vaddr := 0 }

/-! ## Names, notes and links -/

/-- `read_section_name`, with a buffer of `len` bytes. -/
def readSectionName (section_ : SectionMetadata) (sectionOffsets : List Nat) (len : Nat) :
    Exec String := do
  let strPos ← checks.addU64 section_.nameOffset (linkedOffset sectionOffsets section_)
  reader.seek strPos
  match reader.readAt strPos len with
  | .ok bytes => .ok (getStr bytes)
  | .error _ => .ok ""

/-- The length of the data of a note, and the position that the reader is left at. -/
def seekToNoteData (section_ : SectionMetadata) : Exec (Nat × Nat) := do
  reader.seek section_.offset
  let nameLen ← reader.readExact section_.offset 4
  let descLen ← reader.readExact (section_.offset + 4) 4
  let nameLen ← checks.word 32 (fromLe nameLen + 3)
  -- without the two low bits
  let distance ← checks.word 32 (4 + nameLen / 4 * 4)
  reader.seek (section_.offset + 8 + distance)
  .ok (fromLe descLen, section_.offset + 8 + distance)

section Named

variable {α : Type} (sectionOffsets : List Nat) (name : String) (found : SectionMetadata → Exec α)
  (missing : Exec α)

/-- The loop of the next three: what is done with the first section of a name. -/
def withSection : List SectionMetadata → Exec α
  | [] => missing
  | section_ :: sections =>
    match readSectionName checks reader section_ sectionOffsets 1024 with
    | .ok read => if read = name then found section_ else withSection sections
    | .error (.error _) => withSection sections
    | .error .panic => panicked

end Named

def readBuildId (sections : List SectionMetadata) (sectionOffsets : List Nat) :
    Exec (Option Bytes) :=
  withSection checks reader sectionOffsets ".note.gnu.build-id"
    (fun section_ => do
      let (_, pos) ← seekToNoteData checks reader section_
      let buf ← reader.readExact pos 20
      .ok (some buf))
    (.ok none) sections

def readPackageMetadata (sections : List SectionMetadata) (sectionOffsets : List Nat) :
    Exec Bytes :=
  withSection checks reader sectionOffsets ".note.package"
    (fun section_ => do
      let (len, pos) ← seekToNoteData checks reader section_
      reader.readExact pos len)
    (fail "No metadata found") sections

/-- `read_debug_link`: the whole buffer, with the section in front. -/
def readDebugLink (sections : List SectionMetadata) (sectionOffsets : List Nat) (buf : Bytes) :
    Exec (Option Bytes) :=
  withSection checks reader sectionOffsets ".gnu_debuglink"
    (fun section_ => do
      reader.seek section_.offset
      let part ← slice buf 0 section_.size
      let read ← reader.readExact section_.offset part.length
      .ok (some (read ++ buf.drop section_.size)))
    (.ok none) sections

/-! ## Names of symbols -/

/-- The two libraries that make a name readable. -/
structure Demanglers where
  cpp : String → Option String
  rust : String → Option String

def demangleSymbol (demanglers : Demanglers) (mangledName : String) : Exec (Option String) :=
  if mangledName.utf8ByteSize > 2 then do
    let (front, _) ← orPanic (splitAtByte 2 mangledName.toList)
    if front = ['_', 'Z'] then .ok (demanglers.cpp mangledName)
    else do
      let (front, _) ← orPanic (splitAtByte 2 mangledName.toList)
      if front = ['_', 'R'] then .ok (demanglers.rust mangledName) else .ok none
  else .ok none

/-- `elf_symbol_offset`: where the last symbol of a name starts. -/
def elfSymbolOffset (systemPageMask : Nat) (path name : String) : Exec Nat := do
  let loadHeader ← getLoadHeader checks reader
  let (passed, ending) := enumSymbols checks reader loadHeader systemPageMask
  ending
  match (passed.filter (·.name = name)).getLast? with
  | some symbol => .ok symbol.start
  | none => fail ("Symbol \"" ++ name ++ "\" not found in " ++ path)

end Reads

/-- `ElfSymbolIterator::new`. -/
def ElfSymbolIterator.new (reader : File) (loadHeader : ElfLoadHeader) (systemPageMask : Nat) :
    ElfSymbolIterator where
  reader := reader
  sections := []
  sectionIndex := 0
  sectionOffsets := []
  sectionStrOffset := 0
  loadHeader := loadHeader
  systemPageMask := systemPageMask
  entryCount := 0
  entryIndex := 0
  reset_ := true

/-! ## What the readers ask of a file -/

section Fits

variable (checks : OverflowChecks) (reader : File)

/-- How many section headers are read behind the first. -/
def headersBehind (layout : ElfLayout) (header sec : Bytes) : Nat :=
  if field header layout.e_shnum = 0 then max 1 (field sec layout.sh_size % 2 ^ 32)
  else field header layout.e_shnum - 1

/-- The positions of the section headers are words. -/
def TableFits (layout : ElfLayout) : Prop :=
  ∀ header sec, reader.readExact 16 layout.headerSize = .ok header →
    getSectionHeader layout reader (field header layout.e_shoff) = .ok sec →
      Stride.Fits checks (getSectionHeader layout reader) (field header layout.e_shentsize)
        (headersBehind layout header sec) (field header layout.e_shoff)

/-- A name can be cut behind its first two bytes. -/
def NameFits (name : String) : Prop :=
  name.utf8ByteSize > 2 → (splitAtByte 2 name.toList).isSome

/-- **An entry of a symbol section fits.** Its position is a word. If it is a function with a value
and a size, then the load header lies on pages, the start, the end and the position of the name are
words, and the name can be cut. -/
def SymbolFits (layout : SymbolLayout) (m : SectionMetadata) (strOffset i : Nat)
    (loadHeader : ElfLoadHeader) (systemPageMask : Nat) : Prop :=
  checks.Within 64 (i * m.entrySize) fun distance =>
  checks.Within 64 (m.offset + distance) fun pos =>
    reader.seek pos = .ok () → ∀ sym, reader.readExact pos layout.size = .ok sym →
      isFunction layout sym ∧ field sym layout.st_value ≠ 0 ∧ field sym layout.st_size ≠ 0 →
        loadHeader.p_vaddr &&& systemPageMask = loadHeader.p_vaddr ∧
        loadHeader.p_offset &&& systemPageMask = loadHeader.p_offset ∧
        checks.Less (field sym layout.st_value) loadHeader.p_vaddr fun rva =>
        checks.Within 64 (rva + loadHeader.p_offset) fun start =>
        checks.Within 64 (start + (field sym layout.st_size - 1)) fun _ =>
        checks.Within 64 (field sym layout.st_name + strOffset) fun strPos =>
          reader.seek strPos = .ok () → ∀ nameBuf, reader.read strPos 1024 = .ok nameBuf →
            NameFits (getStr nameBuf)

/-- The entries of a symbol section have a size, and they fit. -/
def SymbolsFit (offsets : List Nat) (m : SectionMetadata) (loadHeader : ElfLoadHeader)
    (systemPageMask : Nat) : Prop :=
  m.entrySize ≠ 0 ∧ ∀ i < m.size / m.entrySize,
    SymbolFits checks reader (if m.class_ = ELFCLASS32 then symbol32 else symbol64) m
      (linkedOffset offsets m) i loadHeader systemPageMask

/-- The section has a name, where `read_section_name` looks for it. -/
def Called (offsets : List Nat) (name : String) (m : SectionMetadata) : Prop :=
  let strPos := (m.nameOffset + linkedOffset offsets m) % 2 ^ 64
  reader.seek strPos = .ok () ∧
    match reader.readAt strPos 1024 with
    | .ok bytes => getStr bytes = name
    | .error _ => name = ""

instance (offsets : List Nat) (name : String) (m : SectionMetadata) :
    Decidable (Called reader offsets name m) := by
  unfold Called
  dsimp only
  split
  · infer_instance
  · infer_instance

/-- The name of a note is not so long that its length cannot be rounded up. -/
def NoteFits (m : SectionMetadata) : Prop :=
  checks = .on → reader.seek m.offset = .ok () →
    ∀ nameLen, reader.readExact m.offset 4 = .ok nameLen →
      (∃ descLen, reader.readExact (m.offset + 4) 4 = .ok descLen) → fromLe nameLen ≤ 2 ^ 32 - 8

/-- **The sections of a file fit.** -/
structure SectionsFit (systemPageMask : Nat) (offsets : List Nat) (all : List SectionMetadata) :
    Prop where
  names : ∀ m ∈ all, checks = .on → m.nameOffset + linkedOffset offsets m < 2 ^ 64
  notes : ∀ secType, ∀ name ∈ [".note.gnu.build-id", ".note.package"],
    ∀ m ∈ (all.filter (wanted secType)).find? (Called reader offsets name), NoteFits checks reader m
  debugLink : ∀ secType,
    ∀ m ∈ (all.filter (wanted secType)).find? (Called reader offsets ".gnu_debuglink"),
      reader.seek m.offset = .ok () → m.size ≤ 1024
  symbols : ∀ loadHeader, getLoadHeader checks reader = .ok loadHeader →
    ∀ m ∈ all, m.secType = SHT_SYMTAB ∨ m.secType = SHT_DYNSYM →
      SymbolsFit checks reader offsets m loadHeader systemPageMask

/-- A section whose name lies in the strings at `strOffset`; its place is a word. -/
def placedAt (strOffset : Nat) (m : SectionMetadata) : SectionMetadata :=
  { m with nameOffset := (m.nameOffset + strOffset) % 2 ^ 64 }

/-- The sections of a file whose headers can all be read, with their names placed. -/
inductive HasSections : List Nat → List SectionMetadata → Prop where
  | intro {class_ : UInt8} {layout : ElfLayout} {header : Bytes} {secs : List Bytes}
    (hclass : getClass reader none = .ok class_) (hlayout : layoutOf class_ = some layout)
    (hwalked : walked checks layout reader = .ok (header, secs)) :
    HasSections (secs.map fun sec => field sec layout.sh_offset)
      ((secs.map (sectionEntry layout class_)).map
        (placedAt (stringOffset layout header (secs.map (sectionEntry layout class_)))))

/-- **A file fits.** The positions of its section headers and of their names are words, and the
sections fit. -/
structure FileFits (systemPageMask : Nat) : Prop where
  table : ∀ class_ layout, getClass reader none = .ok class_ → layoutOf class_ = some layout →
    TableFits checks reader layout
  placed : NamesPlaced checks reader
  sections : ∀ offsets all, HasSections checks reader offsets all →
    SectionsFit checks reader systemPageMask offsets all

end Fits

/-! ## The section table -/

section Tables

variable {checks : OverflowChecks} {reader : File} {layout : ElfLayout}

theorem noPanic_getClass : NoPanic (getClass reader none) := by
  refine noPanic_bind.mpr ⟨noPanic_seek reader 0, fun _ _ => ?_⟩
  refine noPanic_bind.mpr ⟨noPanic_readExact reader 0 16, fun ident hident => ?_⟩
  rw [noPanic_getAt, length_readLoop (le_refl 16) hident]
  decide

theorem safely_openTable {P : Opening → Prop} :
    Safely (openTable checks layout reader) P ↔
      ∀ header, reader.readExact 16 layout.headerSize = .ok header →
      ∀ sec, getSectionHeader layout reader (field header layout.e_shoff) = .ok sec →
        (field header layout.e_shnum = 0 →
          checks.Within 64 (field header layout.e_shoff + field header layout.e_shentsize)
            fun secOffset => ∀ first, getSectionHeader layout reader secOffset = .ok first →
              P ⟨header, field sec layout.sh_size % 2 ^ 32, secOffset, first⟩) ∧
        (field header layout.e_shnum ≠ 0 →
          P ⟨header, field header layout.e_shnum, field header layout.e_shoff, sec⟩) := by
  have hread (pos : Nat) : NoPanic (getSectionHeader layout reader pos) :=
    noPanic_getSectionHeader pos
  unfold openTable
  simp only [safely_bind, safely_of_noPanic (noPanic_readExact reader _ _),
    safely_of_noPanic (hread _), safely_ite, safely_ok, Stride.safely_next hread, ne_eq]

theorem noPanic_walked : NoPanic (walked checks layout reader) ↔ TableFits checks reader layout := by
  have hread (pos : Nat) : NoPanic (getSectionHeader layout reader pos) :=
    noPanic_getSectionHeader pos
  -- the loop over the headers behind one that is read
  have hwalk (header : Bytes) (count pos : Nat) (sec : Bytes) :
      (Safely (do
          let secs ← Stride.walk checks (getSectionHeader layout reader)
            (field header layout.e_shentsize) count pos
          .ok (header, sec :: secs)) fun _ : Bytes × List Bytes => True) ↔
        Stride.Fits checks (getSectionHeader layout reader) (field header layout.e_shentsize)
          count pos := by
    rw [← Stride.noPanic_walk hread, ← safely_true, safely_bind]
    exact safely_congr fun secs => safely_ok
  rw [← safely_true, walked, safely_bind, safely_openTable]
  unfold TableFits headersBehind
  refine forall_congr' fun header => ?_
  rw [forall_comm]
  refine forall_congr' fun sec => imp_congr_right fun _ => imp_congr_right fun _ => ?_
  by_cases hnum : field header layout.e_shnum = 0
  · have hcount : max 1 (field sec layout.sh_size % 2 ^ 32) =
        field sec layout.sh_size % 2 ^ 32 - 1 + 1 := by omega
    rw [if_pos hnum, and_iff_left fun h => absurd hnum h, forall_prop_of_true hnum, hcount,
      Stride.Fits]
    refine OverflowChecks.within_congr fun pos => forall_congr' fun first =>
      imp_congr_right fun _ => ?_
    cases field sec layout.sh_size % 2 ^ 32 with
    | zero => exact safely_ok
    | succ count => exact hwalk header count pos first
  · rw [if_neg hnum, and_iff_right fun h => absurd h hnum, forall_prop_of_true hnum]
    cases hsucc : field header layout.e_shnum with
    | zero => exact absurd hsucc hnum
    | succ count => exact hwalk header count _ sec

/-- The offsets of the sections can be listed exactly where the table fits. -/
theorem noPanic_getSectionOffsets :
    NoPanic (getSectionOffsets checks reader none []) ↔
      ∀ class_ layout, getClass reader none = .ok class_ → layoutOf class_ = some layout →
        TableFits checks reader layout := by
  rw [getSectionOffsets_eq, noPanic_bind, and_iff_right noPanic_getClass]
  refine forall_congr' fun class_ => ?_
  rw [forall_comm]
  refine imp_congr_right fun _ => ?_
  cases layoutOf class_ with
  | none => exact iff_of_true (noPanic_ok []) fun _ h => nomatch h
  | some layout =>
    have hwalked : NoPanic (getSectionOffsetsOf checks layout reader []) ↔
        NoPanic (walked checks layout reader) := by
      rw [getSectionOffsetsOf_eq]
      cases walked checks layout reader with
      | ok found => exact iff_of_true (noPanic_ok _) (noPanic_ok _)
      | error fault => simp [NoPanic, panicked, Except.map]
    refine (hwalked.trans noPanic_walked).trans ⟨fun h other hother => ?_, fun h => h layout rfl⟩
    cases hother
    exact h

/-- The sections that can be listed, by their type too. -/
structure Listed (checks : OverflowChecks) (reader : File) (offsets : List Nat)
    (all : List SectionMetadata) : Prop where
  offsets : getSectionOffsets checks reader none [] = .ok offsets
  metadata : ∀ secType metadata, enumSectionMetadata checks reader none secType metadata =
    .ok (metadata ++ all.filter (wanted secType))

/-- A file whose sections cannot be listed, because reading them fails. -/
def Refused (checks : OverflowChecks) (reader : File) : Prop :=
  ∃ text, getSectionOffsets checks reader none [] = fail text ∧
    ∀ secType metadata, enumSectionMetadata checks reader none secType metadata = fail text

theorem placeNames_placed {strOffset : Nat} {metadata added : List SectionMetadata}
    (h : checks = .on → ∀ m ∈ added, m.nameOffset + strOffset < 2 ^ 64) :
    placeNames checks strOffset metadata added =
      .ok (metadata ++ added.map (placedAt strOffset)) := by
  have hadded : added.mapM (addNameOffset checks strOffset) =
      .ok (added.map (placedAt strOffset)) := by
    rw [mapM_eq_ok_iff, List.forall₂_map_right_iff]
    refine List.forall₂_same.mpr fun m hm => ?_
    cases checks with
    | on =>
      have hlt := h rfl m hm
      rw [addNameOffset_named hlt, named, placedAt, Nat.mod_eq_of_lt hlt]
    | off => rfl
  rw [placeNames, hadded]
  rfl

theorem listed_of_hasSections (hplaced : NamesPlaced checks reader) {offsets : List Nat}
    {all : List SectionMetadata} (h : HasSections checks reader offsets all) :
    Listed checks reader offsets all := by
  obtain ⟨hclass, hlayout, hwalked⟩ := h
  rename_i class_ layout header secs
  refine ⟨getSectionOffsets_of_walked hclass hlayout hwalked [], fun secType metadata => ?_⟩
  rw [enumSectionMetadata_of_walked hclass hlayout hwalked, placeNames_placed]
  · rw [List.filter_map (l := secs.map (sectionEntry layout class_))]
    rfl
  · exact fun hon m hm => hplaced hon _ _ _ _ hclass hlayout hwalked m (List.mem_of_mem_filter hm)

/-- The names are placed where all sections can be listed. -/
theorem namesPlaced_of_noPanic (h : NoPanic (enumSectionMetadata checks reader none none [])) :
    NamesPlaced checks reader := by
  rintro rfl class_ layout header secs hclass hlayout hwalked m hm
  by_contra hlt
  rw [enumSectionMetadata_of_walked hclass hlayout hwalked, filter_wanted_none,
    placeNames_panicked [] hm hlt] at h
  exact not_noPanic_panicked h

/-- A file whose table fits has its sections listed, or is refused. -/
theorem listed_or_refused {systemPageMask : Nat} (h : FileFits checks reader systemPageMask) :
    (∃ offsets all, Listed checks reader offsets all ∧
      SectionsFit checks reader systemPageMask offsets all) ∨ Refused checks reader := by
  have hclassed : NoPanic (getClass reader none) := noPanic_getClass
  cases hclass : getClass reader none with
  | error fault =>
    cases fault with
    | panic => exact absurd hclass hclassed
    | error text =>
      refine .inr ⟨text, ?_, fun secType metadata => ?_⟩
      · rw [getSectionOffsets_eq, hclass]
        rfl
      · rw [enumSectionMetadata_eq, hclass]
        rfl
  | ok class_ =>
    cases hlayout : layoutOf class_ with
    | none =>
      refine .inl ⟨[], [], ⟨?_, fun secType metadata => ?_⟩, ?_⟩
      · rw [getSectionOffsets_eq, hclass, ok_bind, hlayout]
      · rw [enumSectionMetadata_eq, hclass, ok_bind, hlayout, List.filter_nil, List.append_nil]
      · exact ⟨fun _ hm => absurd hm List.not_mem_nil, fun _ _ _ _ hm => (nomatch hm),
          fun _ _ hm => (nomatch hm), fun _ _ _ hm => absurd hm List.not_mem_nil⟩
    | some layout =>
      have htable : NoPanic (walked checks layout reader) :=
        noPanic_walked.mpr (h.table class_ layout hclass hlayout)
      cases hwalked : walked checks layout reader with
      | ok found =>
        have hhas := HasSections.intro hclass hlayout hwalked
        exact .inl ⟨_, _, listed_of_hasSections h.placed hhas, h.sections _ _ hhas⟩
      | error fault =>
        cases fault with
        | panic => exact absurd hwalked htable
        | error text =>
          refine .inr ⟨text, ?_, fun secType metadata => ?_⟩
          · rw [getSectionOffsets_eq, hclass, ok_bind, hlayout]
            dsimp only
            rw [getSectionOffsetsOf_eq, hwalked]
            rfl
          · rw [enumSectionMetadata_eq, hclass, ok_bind, hlayout]
            dsimp only
            rw [getSectionMetadataOf_eq, hwalked]
            rfl

end Tables

/-! ## Names, notes and links, without a panic -/

section Sections

variable {checks : OverflowChecks} {reader : File} {offsets : List Nat} {m : SectionMetadata}

theorem noPanic_readSectionName (len : Nat) :
    NoPanic (readSectionName checks reader m offsets len) ↔
      (checks = .on → m.nameOffset + linkedOffset offsets m < 2 ^ 64) := by
  rw [← OverflowChecks.within_true, ← OverflowChecks.safely_addU64, readSectionName,
    ← safely_true, safely_bind]
  refine safely_congr fun strPos => iff_of_true ?_ trivial
  rw [safely_true]
  refine noPanic_bind.mpr ⟨noPanic_seek reader strPos, fun _ _ => ?_⟩
  cases reader.readAt strPos len with
  | ok bytes => exact noPanic_ok _
  | error text => exact noPanic_ok _

/-- What is read of a name that has a place. -/
theorem readSectionName_eq_iff (h : checks = .on → m.nameOffset + linkedOffset offsets m < 2 ^ 64)
    (name : String) :
    readSectionName checks reader m offsets 1024 = .ok name ↔ Called reader offsets name m := by
  have hplace : checks.addU64 m.nameOffset (linkedOffset offsets m) =
      .ok ((m.nameOffset + linkedOffset offsets m) % 2 ^ 64) := by
    cases checks with
    | on => rw [OverflowChecks.addU64_of_lt _ (h rfl), Nat.mod_eq_of_lt (h rfl)]
    | off => rfl
  unfold readSectionName Called
  rw [hplace, ok_bind]
  dsimp only
  generalize (m.nameOffset + linkedOffset offsets m) % 2 ^ 64 = strPos
  cases reader.seek strPos with
  | error fault => exact iff_of_false (fun hread => nomatch hread) fun hseek => nomatch hseek.1
  | ok done =>
    rw [ok_bind, and_iff_right rfl]
    cases reader.readAt strPos 1024 with
    | ok bytes => exact ⟨fun hread => Except.ok.inj hread, fun hread => congrArg _ hread⟩
    | error text => exact ⟨fun hread => (Except.ok.inj hread).symm, fun hread => congrArg _ hread.symm⟩

theorem noPanic_withSection {α : Type} {name : String} {found : SectionMetadata → Exec α}
    {missing : Exec α} (hmissing : NoPanic missing) {sections : List SectionMetadata}
    (h : ∀ m ∈ sections, checks = .on → m.nameOffset + linkedOffset offsets m < 2 ^ 64) :
    NoPanic (withSection checks reader offsets name found missing sections) ↔
      ∀ m ∈ sections.find? (Called reader offsets name), NoPanic (found m) := by
  induction sections with
  | nil => exact iff_of_true hmissing fun m hm => nomatch hm
  | cons first sections ih =>
    obtain ⟨hfirst, hrest⟩ := List.forall_mem_cons.mp h
    have hname := @readSectionName_eq_iff checks reader offsets first hfirst
    rw [withSection]
    by_cases hcalled : Called reader offsets name first
    · rw [(hname name).mpr hcalled, List.find?_cons_of_pos (by simpa using hcalled)]
      simp
    · rw [List.find?_cons_of_neg (by simpa using hcalled), ← ih hrest]
      match hread : readSectionName checks reader first offsets 1024 with
      | .ok read =>
        have hne : read ≠ name := fun heq => hcalled ((hname name).mp (heq ▸ hread))
        dsimp only
        rw [if_neg hne]
      | .error (.error text) => rfl
      | .error .panic => exact absurd hread ((noPanic_readSectionName 1024).mpr hfirst)

theorem noPanic_seekToNoteData :
    NoPanic (seekToNoteData checks reader m) ↔ NoteFits checks reader m := by
  have hround (nameLen : Nat) : (checks.Within 32 (nameLen + 3) fun nameLen =>
      checks.Within 32 (4 + nameLen / 4 * 4) fun _ => True) ↔
        (checks = .on → nameLen ≤ 2 ^ 32 - 8) := by
    cases checks with
    | on =>
      simp only [OverflowChecks.Within, and_true, forall_const]
      omega
    | off => simp [OverflowChecks.Within]
  rw [← safely_true]
  unfold seekToNoteData NoteFits
  simp only [safely_bind, safely_seek, safely_of_noPanic (noPanic_readExact reader _ _),
    OverflowChecks.safely_word, safely_ok, implies_true, hround]
  constructor
  · rintro h hon hseek nameLen hname ⟨descLen, hdesc⟩
    exact h hseek nameLen hname descLen hdesc hon
  · intro h hseek nameLen hname descLen hdesc hon
    exact h hon hseek nameLen hname ⟨descLen, hdesc⟩

section Readers

variable {sections : List SectionMetadata}
  (h : ∀ m ∈ sections, checks = .on → m.nameOffset + linkedOffset offsets m < 2 ^ 64)
include h

theorem noPanic_readBuildId :
    NoPanic (readBuildId checks reader sections offsets) ↔
      ∀ m ∈ sections.find? (Called reader offsets ".note.gnu.build-id"),
        NoteFits checks reader m := by
  rw [readBuildId, noPanic_withSection (noPanic_ok none) h]
  refine forall_congr' fun m => imp_congr_right fun _ => ?_
  rw [noPanic_bind, noPanic_seekToNoteData]
  refine and_iff_left fun place _ => ?_
  exact noPanic_bind.mpr ⟨noPanic_readExact reader _ _, fun _ _ => noPanic_ok _⟩

theorem noPanic_readPackageMetadata :
    NoPanic (readPackageMetadata checks reader sections offsets) ↔
      ∀ m ∈ sections.find? (Called reader offsets ".note.package"), NoteFits checks reader m := by
  rw [readPackageMetadata, noPanic_withSection (noPanic_fail _) h]
  refine forall_congr' fun m => imp_congr_right fun _ => ?_
  rw [noPanic_bind, noPanic_seekToNoteData]
  exact and_iff_left fun place _ => noPanic_readExact reader _ _

theorem noPanic_readDebugLink (buf : Bytes) :
    NoPanic (readDebugLink checks reader sections offsets buf) ↔
      ∀ m ∈ sections.find? (Called reader offsets ".gnu_debuglink"),
        reader.seek m.offset = .ok () → m.size ≤ buf.length := by
  rw [readDebugLink, noPanic_withSection (noPanic_ok none) h]
  refine forall_congr' fun m => imp_congr_right fun _ => ?_
  rw [noPanic_bind, and_iff_right (noPanic_seek reader _)]
  refine ⟨fun hslice hseek => ?_, fun hsize _ hseek => ?_⟩
  · exact (noPanic_slice.mp (noPanic_bind.mp (hslice () hseek)).1).2
  · refine noPanic_bind.mpr ⟨noPanic_slice.mpr ⟨Nat.zero_le _, hsize hseek⟩, fun part _ => ?_⟩
    exact noPanic_bind.mpr ⟨noPanic_readExact reader _ _, fun _ _ => noPanic_ok _⟩

end Readers

end Sections

/-! ## Symbols without a panic -/

section Symbols

variable {checks : OverflowChecks} {reader : File} {loadHeader : ElfLoadHeader}
  {systemPageMask : Nat}

theorem noPanic_demangleSymbol {demanglers : Demanglers} {name : String} :
    NoPanic (demangleSymbol demanglers name) ↔ NameFits name := by
  unfold demangleSymbol NameFits
  by_cases hlong : name.utf8ByteSize > 2
  · rw [if_pos hlong, forall_prop_of_true hlong]
    cases splitAtByte 2 name.toList with
    | none => exact iff_of_false not_noPanic_panicked (by simp)
    | some parts =>
      refine iff_of_true ?_ rfl
      simp only [orPanic, ok_bind, noPanic_ite, noPanic_ok, implies_true, and_self]
  · rw [if_neg hlong]
    exact iff_of_true (noPanic_ok none) fun h => absurd h hlong

theorem safely_assert {c : Prop} [Decidable c] {P : Unit → Prop} :
    Safely (assert c) P ↔ c ∧ P () := safely_guarded

theorem safely_getSymbolOf {layout : SymbolLayout} {m : SectionMetadata} {i strOffset : Nat} :
    (Safely (getSymbolOf checks layout reader m i strOffset loadHeader systemPageMask)
      fun symbol => NameFits symbol.name) ↔
      SymbolFits checks reader layout m strOffset i loadHeader systemPageMask := by
  unfold getSymbolOf symbolRva SymbolFits
  simp only [safely_bind, OverflowChecks.safely_mulU64, OverflowChecks.safely_addU64,
    OverflowChecks.safely_subU64, safely_seek, safely_of_noPanic (noPanic_readExact reader _ _),
    safely_of_noPanic (noPanic_read reader _ _), ↓safely_refuse, safely_assert, safely_ok, not_or,
    not_not, ne_eq]

theorem safely_tries {offsets : List Nat} {m : SectionMetadata} :
    (∀ call ∈ tries checks reader loadHeader systemPageMask offsets m,
      Safely call fun symbol => NameFits symbol.name) ↔
      SymbolsFit checks reader offsets m loadHeader systemPageMask := by
  unfold tries SymbolsFit
  by_cases hsize : m.entrySize = 0
  · rw [if_pos hsize, List.forall_mem_singleton]
    exact iff_of_false not_safely_panicked fun h => h.1 hsize
  · rw [if_neg hsize, List.forall_mem_map, and_iff_right hsize]
    refine forall_congr' fun i => ?_
    rw [List.mem_range]
    exact imp_congr_right fun _ => safely_getSymbolOf

theorem Listed.symbolSections {offsets : List Nat} {all : List SectionMetadata}
    (h : Listed checks reader offsets all) : symbolSections checks reader =
      .ok (all.filter (wanted (some SHT_SYMTAB)) ++ all.filter (wanted (some SHT_DYNSYM))) := by
  unfold Elf.symbolSections getSectionMetadata
  rw [h.metadata, ok_bind, h.metadata, List.nil_append]

/-- The entries of the symbol sections of a file. -/
def symbolTries (checks : OverflowChecks) (reader : File) (loadHeader : ElfLoadHeader)
    (systemPageMask : Nat) (offsets : List Nat) (all : List SectionMetadata) :
    List (Exec ElfSymbol) :=
  (all.filter (wanted (some SHT_SYMTAB)) ++ all.filter (wanted (some SHT_DYNSYM))).flatMap
    (tries checks reader loadHeader systemPageMask offsets)

theorem Listed.enumSymbols {offsets : List Nat} {all : List SectionMetadata}
    (h : Listed checks reader offsets all) :
    enumSymbols checks reader loadHeader systemPageMask =
      ((Outcome.ofTries
          (symbolTries checks reader loadHeader systemPageMask offsets all)).items,
        endOf (Outcome.ofTries
          (symbolTries checks reader loadHeader systemPageMask offsets all)).panics) := by
  unfold Elf.enumSymbols getSymbols
  rw [h.symbolSections, h.metadata, ok_bind, h.offsets]
  exact symbolsLoop_eq offsets (known_symbolSections h.symbolSections) []

theorem noPanic_endOf {panics : Bool} : NoPanic (endOf panics) ↔ panics = false := by
  cases panics with
  | true => exact iff_of_false not_noPanic_panicked (by simp)
  | false => exact iff_of_true (noPanic_ok ()) rfl

theorem clear_symbolTries {offsets : List Nat} {all : List SectionMetadata} :
    ((Outcome.ofTries (symbolTries checks reader loadHeader systemPageMask offsets all)).Clear
      fun symbol => NameFits symbol.name) ↔
      ∀ m ∈ all, m.secType = SHT_SYMTAB ∨ m.secType = SHT_DYNSYM →
        SymbolsFit checks reader offsets m loadHeader systemPageMask := by
  have hwanted (secType : Nat) (m : SectionMetadata) :
      wanted (some secType) m = true ↔ m.secType = secType := decide_eq_true_iff
  unfold symbolTries
  rw [Outcome.clear_ofTries]
  simp only [List.mem_flatMap, List.mem_append, List.mem_filter, hwanted]
  constructor
  · intro h m hm htype
    refine safely_tries.mp fun call hcall => h call ⟨m, ?_, hcall⟩
    exact htype.imp (fun h => ⟨hm, h⟩) fun h => ⟨hm, h⟩
  · rintro h call ⟨m, hm, hcall⟩
    have hall : m ∈ all ∧ (m.secType = SHT_SYMTAB ∨ m.secType = SHT_DYNSYM) := by
      rcases hm with ⟨hm, htype⟩ | ⟨hm, htype⟩
      · exact ⟨hm, .inl htype⟩
      · exact ⟨hm, .inr htype⟩
    exact safely_tries.mpr (h m hall.1 hall.2) call hcall

end Symbols

/-! ## Runs of the iterator -/

/-- The iterator behind a turn. -/
def Turn.after : Turn → ElfSymbolIterator
  | .done it => it
  | .skip it => it
  | .yield it _ => it

namespace ElfSymbolIterator

/-- The iterator is over the same file, with the same load header and mask. -/
structure Same (it it' : ElfSymbolIterator) : Prop where
  reader : it'.reader = it.reader
  loadHeader : it'.loadHeader = it.loadHeader
  systemPageMask : it'.systemPageMask = it.systemPageMask

variable {checks : OverflowChecks} {it it' : ElfSymbolIterator} {symbol symbol' : ElfSymbol}

theorem Same.trans {it'' : ElfSymbolIterator} (h : it.Same it') (h' : it'.Same it'') :
    it.Same it'' :=
  ⟨h'.1.trans h.1, h'.2.trans h.2, h'.3.trans h.3⟩

theorem same_loadSection {more : Bool} (h : it.loadSection = .ok (more, it')) : it.Same it' := by
  unfold loadSection at h
  cases hreset : it.reset_ with
  | true =>
    simp only [hreset, if_true] at h
    cases hsec : it.sections[it.sectionIndex]? with
    | none =>
      rw [hsec] at h
      cases h
      exact ⟨rfl, rfl, rfl⟩
    | some section_ =>
      rw [hsec] at h
      obtain ⟨count, -, h⟩ := bind_eq_ok.mp h
      cases h
      exact ⟨rfl, rfl, rfl⟩
  | false =>
    simp only [hreset, if_false, Bool.false_eq_true] at h
    cases hsec : it.sections[it.sectionIndex + 1]? with
    | none =>
      rw [hsec] at h
      cases h
      exact ⟨rfl, rfl, rfl⟩
    | some section_ =>
      rw [hsec] at h
      obtain ⟨count, -, h⟩ := bind_eq_ok.mp h
      cases h
      exact ⟨rfl, rfl, rfl⟩

theorem same_tryEntry {turn : Turn} (h : it.tryEntry checks symbol = .ok turn) :
    it.Same turn.after := by
  obtain ⟨section_, -, h⟩ := bind_eq_ok.mp h
  split at h
  · cases h
    exact ⟨rfl, rfl, rfl⟩
  · cases h
    exact ⟨rfl, rfl, rfl⟩
  · cases h

theorem same_turn {turn : Turn} (h : it.turn checks symbol = .ok turn) : it.Same turn.after := by
  unfold ElfSymbolIterator.turn at h
  by_cases hload : it.entryIndex ≥ it.entryCount
  · rw [if_pos hload] at h
    obtain ⟨⟨more, loaded⟩, hnext, h⟩ := bind_eq_ok.mp h
    have hloaded := same_loadSection hnext
    dsimp only at h
    cases more with
    | false =>
      cases h
      exact hloaded
    | true =>
      rw [if_pos rfl] at h
      by_cases hempty : loaded.entryIndex ≥ loaded.entryCount
      · rw [if_pos hempty] at h
        cases h
        exact hloaded
      · rw [if_neg hempty] at h
        exact hloaded.trans (same_tryEntry h)
  · rw [if_neg hload] at h
    exact same_tryEntry h

theorem same_nextLoop {more : Bool} (h : it.nextLoop checks symbol = .ok (more, it', symbol')) :
    it.Same it' := by
  induction it using nextLoop.induct_unfolding checks symbol with
  | case1 it fault hturn => cases h
  | case2 it after hturn =>
    cases h
    exact same_turn hturn
  | case3 it after shown hturn =>
    cases h
    exact same_turn hturn
  | case4 it after hturn ih => exact (same_turn hturn).trans (ih h)

theorem same_next {more : Bool} (h : it.next checks symbol = .ok (more, it', symbol')) :
    it.Same it' := by
  unfold next at h
  split at h
  · cases h
    exact ⟨rfl, rfl, rfl⟩
  · exact same_nextLoop h

theorem same_reset (h : it.reset checks = .ok it') : it.Same it' := by
  unfold reset at h
  rw [initSections_clear] at h
  split at h
  · rename_i after hinit
    cases h
    obtain ⟨sections, -, hinit⟩ := bind_eq_ok.mp hinit
    obtain ⟨offsets, -, hinit⟩ := bind_eq_ok.mp hinit
    cases hinit
    exact ⟨rfl, rfl, rfl⟩
  · cases h
    exact ⟨rfl, rfl, rfl⟩
  · cases h

/-- An iterator over a file, and what calls in any order make of it. -/
inductive Reached (checks : OverflowChecks) (reader : File) (loadHeader : ElfLoadHeader)
    (systemPageMask : Nat) : ElfSymbolIterator → Prop where
  | new : Reached checks reader loadHeader systemPageMask
    (ElfSymbolIterator.new reader loadHeader systemPageMask)
  | reset {it it' : ElfSymbolIterator} (h : Reached checks reader loadHeader systemPageMask it)
    (hreset : it.reset checks = .ok it') : Reached checks reader loadHeader systemPageMask it'
  | next {it it' : ElfSymbolIterator} {symbol symbol' : ElfSymbol} {more : Bool}
    (h : Reached checks reader loadHeader systemPageMask it)
    (hnext : it.next checks symbol = .ok (more, it', symbol')) :
    Reached checks reader loadHeader systemPageMask it'

/-- What is left to be tried does not panic, and the names of its symbols fit. -/
structure Sound (checks : OverflowChecks) (it : ElfSymbolIterator) : Prop where
  valid : it.Valid
  clear : (Outcome.ofTries (it.pending checks)).Clear fun symbol => NameFits symbol.name

/-- A call of `next` on a sound iterator. -/
theorem Sound.next (h : it.Sound checks) (symbol : ElfSymbol) :
    Safely (it.next checks symbol) fun (more, after, shown) =>
      after.Sound checks ∧ (more = true → NameFits shown.name) := by
  have hexplains : it.ExplainsNext checks (it.next checks symbol) := explains_next h.valid
  match hnext : it.next checks symbol with
  | .error fault =>
    rw [hnext] at hexplains
    obtain ⟨-, hpending⟩ := hexplains
    have hclear := h.clear
    rw [hpending] at hclear
    exact nomatch hclear.1
  | .ok (false, after, last) =>
    rw [hnext] at hexplains
    obtain ⟨hafter, -, hempty⟩ := hexplains
    refine safely_ok.mpr ⟨⟨hafter, ?_⟩, fun hmore => nomatch hmore⟩
    rw [hempty]
    exact ⟨rfl, fun _ hmem => absurd hmem List.not_mem_nil⟩
  | .ok (true, after, shown) =>
    rw [hnext] at hexplains
    obtain ⟨hafter, hpending⟩ := hexplains
    have hclear := h.clear
    rw [hpending] at hclear
    obtain ⟨hname, hrest⟩ := Outcome.clear_cons.mp hclear
    exact safely_ok.mpr ⟨⟨hafter, hrest⟩, fun _ => hname⟩

theorem sound_of_empty (h : it.sections = []) (hcount : it.entryCount = 0) : it.Sound checks := by
  have hpending : it.pending checks = [] := by
    rw [pending_of_done (by omega), later, h, List.drop_nil]
    rfl
  refine ⟨⟨fun m hm => ?_, fun hlt => ?_⟩, ?_⟩
  · rw [h] at hm
    exact absurd hm List.not_mem_nil
  · omega
  · rw [hpending]
    exact ⟨rfl, fun _ hmem => absurd hmem List.not_mem_nil⟩

/-- A reset of an iterator over a file that fits. -/
theorem safely_reset (h : FileFits checks it.reader it.systemPageMask)
    (hload : getLoadHeader checks it.reader = .ok it.loadHeader) :
    Safely (it.reset checks) (Sound checks) := by
  have hempty : it.clear.Sound checks := sound_of_empty rfl rfl
  unfold reset
  rw [initSections_clear]
  obtain ⟨offsets, all, hlisted, hfits⟩ | ⟨text, hoffsets, hmetadata⟩ := listed_or_refused h
  · rw [hlisted.symbolSections, ok_bind, hlisted.offsets]
    have hclear := clear_symbolTries.mpr (hfits.symbols it.loadHeader hload)
    refine safely_ok.mpr ⟨⟨known_symbolSections hlisted.symbolSections, fun hlt => ?_⟩, ?_⟩
    · exact absurd hlt (Nat.not_lt_zero 0)
    · rw [pending_of_done (Nat.le_refl 0)]
      exact hclear
  · have hsections : symbolSections checks it.reader = fail text := by
      unfold symbolSections getSectionMetadata
      rw [hmetadata]
      rfl
    rw [hsections]
    exact safely_ok.mpr hempty

/-- Every iterator over a file that fits stays sound. -/
theorem Reached.sound {reader : File} {loadHeader : ElfLoadHeader} {systemPageMask : Nat}
    (hfits : FileFits checks reader systemPageMask)
    (hload : getLoadHeader checks reader = .ok loadHeader)
    (h : Reached checks reader loadHeader systemPageMask it) :
    it.Sound checks ∧ (ElfSymbolIterator.new reader loadHeader systemPageMask).Same it := by
  induction h with
  | new => exact ⟨sound_of_empty rfl rfl, rfl, rfl, rfl⟩
  | reset h hreset ih =>
    obtain ⟨-, hreader, hheader, hmask⟩ := ih
    rename_i before after
    have hsafe : Safely (before.reset checks) (Sound checks) := by
      refine safely_reset ?_ ?_
      · rw [hreader, hmask]
        exact hfits
      · rw [hreader, hheader]
        exact hload
    exact ⟨hsafe.2 _ hreset, Same.trans ⟨hreader, hheader, hmask⟩ (same_reset hreset)⟩
  | next h hnext ih => exact ⟨((ih.1.next _).2 _ hnext).1, ih.2.trans (same_next hnext)⟩

end ElfSymbolIterator

/-! ## All readers -/

/-- **No reader panics**: not on the sections of the file, of a type or of all types, nor on its
symbols, with the load header of the same file, nor on their names. -/
structure PanicFree (checks : OverflowChecks) (demanglers : Demanglers) (reader : File)
    (systemPageMask : Nat) : Prop where
  offsets : NoPanic (getSectionOffsets checks reader none [])
  metadata : ∀ secType metadata, NoPanic (enumSectionMetadata checks reader none secType metadata)
  sections : ∀ secType sections offsets,
    enumSectionMetadata checks reader none secType [] = .ok sections →
    getSectionOffsets checks reader none [] = .ok offsets →
      (∀ m ∈ sections, ∀ len, NoPanic (readSectionName checks reader m offsets len)) ∧
      NoPanic (readBuildId checks reader sections offsets) ∧
      NoPanic (readPackageMetadata checks reader sections offsets) ∧
      ∀ buf : Bytes, buf.length = 1024 → NoPanic (readDebugLink checks reader sections offsets buf)
  symbols : ∀ loadHeader, getLoadHeader checks reader = .ok loadHeader →
    NoPanic (enumSymbols checks reader loadHeader systemPageMask).2 ∧
      ∀ symbol ∈ (enumSymbols checks reader loadHeader systemPageMask).1,
        NoPanic (demangleSymbol demanglers symbol.name)
  iterator : ∀ loadHeader, getLoadHeader checks reader = .ok loadHeader →
    ∀ it, ElfSymbolIterator.Reached checks reader loadHeader systemPageMask it →
      NoPanic (it.reset checks) ∧ ∀ symbol, Safely (it.next checks symbol) fun (more, _, shown) =>
        more = true → NoPanic (demangleSymbol demanglers shown.name)
  symbolOffset : ∀ loadHeader path name, getLoadHeader checks reader = .ok loadHeader →
    NoPanic (elfSymbolOffset checks reader systemPageMask path name)

section All

variable {checks : OverflowChecks} {demanglers : Demanglers} {reader : File} {systemPageMask : Nat}

theorem noPanic_symbols_iff {offsets : List Nat} {all : List SectionMetadata}
    (hlisted : Listed checks reader offsets all) {loadHeader : ElfLoadHeader} :
    (NoPanic (enumSymbols checks reader loadHeader systemPageMask).2 ∧
      ∀ symbol ∈ (enumSymbols checks reader loadHeader systemPageMask).1,
        NoPanic (demangleSymbol demanglers symbol.name)) ↔
      ∀ m ∈ all, m.secType = SHT_SYMTAB ∨ m.secType = SHT_DYNSYM →
        SymbolsFit checks reader offsets m loadHeader systemPageMask := by
  rw [← clear_symbolTries, hlisted.enumSymbols]
  simp only [noPanic_demangleSymbol, noPanic_endOf]
  rfl

theorem noPanic_elfSymbolOffset {loadHeader : ElfLoadHeader} (path name : String)
    (hload : getLoadHeader checks reader = .ok loadHeader)
    (h : NoPanic (enumSymbols checks reader loadHeader systemPageMask).2) :
    NoPanic (elfSymbolOffset checks reader systemPageMask path name) := by
  unfold elfSymbolOffset
  rw [hload, ok_bind]
  generalize enumSymbols checks reader loadHeader systemPageMask = found at h
  obtain ⟨passed, ending⟩ := found
  refine noPanic_bind.mpr ⟨h, fun _ _ => ?_⟩
  cases (passed.filter (·.name = name)).getLast? with
  | none => exact noPanic_fail _
  | some symbol => exact noPanic_ok _

/-- What the readers of a section list ask of it. -/
theorem fits_of_panicFree (h : PanicFree checks demanglers reader systemPageMask)
    {offsets : List Nat} {all : List SectionMetadata} (hlisted : Listed checks reader offsets all) :
    SectionsFit checks reader systemPageMask offsets all := by
  have hsections (secType : Option Nat) := h.sections secType (all.filter (wanted secType)) offsets
    (by rw [hlisted.metadata, List.nil_append]) hlisted.offsets
  have hnames : ∀ m ∈ all, checks = .on → m.nameOffset + linkedOffset offsets m < 2 ^ 64 := by
    intro m hm
    have hnone := (hsections none).1
    rw [filter_wanted_none] at hnone
    exact (noPanic_readSectionName 1024).mp (hnone m hm 1024)
  have hwanted (secType : Option Nat) : ∀ m ∈ all.filter (wanted secType), checks = .on →
      m.nameOffset + linkedOffset offsets m < 2 ^ 64 :=
    fun m hm => hnames m (List.mem_of_mem_filter hm)
  refine ⟨hnames, fun secType name hname => ?_, fun secType m hm => ?_, fun loadHeader hload => ?_⟩
  · obtain ⟨-, hbuild, hpackage, -⟩ := hsections secType
    rcases List.mem_pair.mp hname with rfl | rfl
    · exact (noPanic_readBuildId (hwanted secType)).mp hbuild
    · exact (noPanic_readPackageMetadata (hwanted secType)).mp hpackage
  · obtain ⟨-, -, -, hlink⟩ := hsections secType
    have hbuf := hlink (List.replicate 1024 0) List.length_replicate
    have hsize := (noPanic_readDebugLink (hwanted secType) _).mp hbuf m hm
    rwa [List.length_replicate] at hsize
  · exact (noPanic_symbols_iff hlisted).mp (h.symbols loadHeader hload)

/-- **Reading without a panic**: no reader panics exactly where the file fits. -/
theorem panicFree_iff (checks : OverflowChecks) (demanglers : Demanglers) (reader : File)
    (systemPageMask : Nat) :
    PanicFree checks demanglers reader systemPageMask ↔ FileFits checks reader systemPageMask := by
  constructor
  · intro h
    have hplaced : NamesPlaced checks reader := namesPlaced_of_noPanic (h.metadata none [])
    exact ⟨noPanic_getSectionOffsets.mp h.offsets, hplaced, fun offsets all hhas =>
      fits_of_panicFree h (listed_of_hasSections hplaced hhas)⟩
  · intro h
    have hiterator : ∀ loadHeader, getLoadHeader checks reader = .ok loadHeader →
        ∀ it, ElfSymbolIterator.Reached checks reader loadHeader systemPageMask it →
          NoPanic (it.reset checks) ∧ ∀ symbol, Safely (it.next checks symbol)
            fun (more, _, shown) => more = true → NoPanic (demangleSymbol demanglers shown.name) := by
      intro loadHeader hload it hreached
      obtain ⟨hsound, hreader, hheader, hmask⟩ := hreached.sound h hload
      refine ⟨(ElfSymbolIterator.safely_reset ?_ ?_).1, fun symbol => ?_⟩
      · rw [hreader, hmask]
        exact h
      · rw [hreader, hheader]
        exact hload
      · obtain ⟨hpanic, hpost⟩ := hsound.next symbol
        exact ⟨hpanic, fun result hresult hmore =>
          noPanic_demangleSymbol.mpr ((hpost result hresult).2 hmore)⟩
    have hsymbols : ∀ loadHeader, getLoadHeader checks reader = .ok loadHeader →
        NoPanic (enumSymbols checks reader loadHeader systemPageMask).2 ∧
          ∀ symbol ∈ (enumSymbols checks reader loadHeader systemPageMask).1,
            NoPanic (demangleSymbol demanglers symbol.name) := by
      intro loadHeader hload
      obtain ⟨offsets, all, hlisted, hfits⟩ | ⟨text, hoffsets, hmetadata⟩ := listed_or_refused h
      · exact (noPanic_symbols_iff hlisted).mpr (hfits.symbols loadHeader hload)
      · have hfail : enumSymbols checks reader loadHeader systemPageMask = ([], fail text) := by
          unfold enumSymbols symbolSections getSectionMetadata
          rw [hmetadata]
          rfl
        rw [hfail]
        exact ⟨noPanic_fail text, fun symbol hmem => absurd hmem List.not_mem_nil⟩
    refine ⟨noPanic_getSectionOffsets.mpr h.table, fun secType metadata => ?_,
      fun secType sections offsets hsections hoffsets => ?_, hsymbols, hiterator,
      fun loadHeader path name hload =>
        noPanic_elfSymbolOffset path name hload (hsymbols loadHeader hload).1⟩
    · obtain ⟨offsets, all, hlisted, -⟩ | ⟨text, -, hmetadata⟩ := listed_or_refused h
      · rw [hlisted.metadata]
        exact noPanic_ok _
      · rw [hmetadata]
        exact noPanic_fail text
    · obtain ⟨offsets', all, hlisted, hfits⟩ | ⟨text, -, hmetadata⟩ := listed_or_refused h
      · obtain rfl : offsets' = offsets := Except.ok.inj (hlisted.offsets.symm.trans hoffsets)
        obtain rfl : all.filter (wanted secType) = sections := by
          have hmetadata := hlisted.metadata secType []
          rw [hsections, List.nil_append] at hmetadata
          exact (Except.ok.inj hmetadata).symm
        have hnames : ∀ m ∈ all.filter (wanted secType), checks = .on →
            m.nameOffset + linkedOffset offsets' m < 2 ^ 64 :=
          fun m hm => hfits.names m (List.mem_of_mem_filter hm)
        refine ⟨fun m hm len => (noPanic_readSectionName len).mpr (hnames m hm), ?_, ?_, ?_⟩
        · exact (noPanic_readBuildId hnames).mpr (hfits.notes secType _ (by simp))
        · exact (noPanic_readPackageMetadata hnames).mpr (hfits.notes secType _ (by simp))
        · intro buf hbuf
          rw [noPanic_readDebugLink hnames, hbuf]
          exact hfits.debugLink secType
      · rw [hmetadata] at hsections
        cases hsections

/-- The entries of its symbol section have no size. -/
def unsizedFile : File :=
  File.ofBytes ([127, 69, 76, 70, 2, 1, 1, 0] ++ toLe 8 0 ++
    toLe 24 0 ++ toLe 8 64 ++ toLe 10 0 ++ toLe 2 64 ++ toLe 2 1 ++ toLe 2 0 ++
    toLe 4 0 ++ toLe 4 SHT_SYMTAB ++ toLe 56 0)

/-- A symbol section without the size of its entries is divided by zero. -/
theorem not_panicFree_unsized :
    ¬ ∀ (checks : OverflowChecks) (demanglers : Demanglers) (reader : File) (systemPageMask : Nat),
      PanicFree checks demanglers reader systemPageMask := by
  intro h
  have hload : getLoadHeader .off unsizedFile = .ok { p_offset := 0, p_vaddr := 0 } := rfl
  have hpanic : (enumSymbols .off unsizedFile { p_offset := 0, p_vaddr := 0 } (2 ^ 64 - 4096)).2 =
      panicked := rfl
  have hsymbols := (h .off ⟨fun _ => none, fun _ => none⟩ unsizedFile (2 ^ 64 - 4096)).symbols _ hload
  rw [hpanic] at hsymbols
  exact not_noPanic_panicked hsymbols.1

end All

end OneCollect.Ruwind.Elf
