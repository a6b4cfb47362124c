import OneCollect.Ruwind.CallChain
import OneCollect.Ruwind.RuleBounds

/-! What the frame tables of a file ask of its bytes, so that decoding them does not panic.

An entry (`EntryFits`) has the numbers of its headers and the letters of its augmentation string
in its slices, and its programs fit. The search table (`TableFits`) has the numbers of its
entries, and the entries at the positions they name fit. `TablesFit` is about a file, and
`decodesSafely_iff` says that nothing less and nothing more keeps the decoding from a panic. -/

namespace OneCollect.Ruwind
open Theory CallFrame

namespace FrameOffset

/-! ## Entries -/

section Entries

variable (entry : Bytes)

/-- The data of the letters of an augmentation string. -/
def LettersFit (rest : Nat × FrameOptions → Prop) : (aug : Bytes) → Nat → FrameOptions → Prop
  | [], cursor, options => rest (cursor, options)
  | a :: aug, cursor, options =>
    if a = 'L'.toUInt8 then
      Reads (byteAt entry cursor) fun _ cursor => LettersFit rest aug cursor options
    else if a = 'P'.toUInt8 then
      Reads (byteAt entry cursor) fun enc cursor =>
        Reads (valueOperand enc 0 entry cursor) fun _ cursor => LettersFit rest aug cursor options
    else if a = 'R'.toUInt8 then
      Reads (byteAt entry cursor) fun enc cursor =>
        LettersFit rest aug cursor { options with enc }
    else LettersFit rest aug cursor options

/-- The alignments and the return register are in the ranges that are accepted. -/
def Accepted (codeAlign dataAlign retReg : Int) : Prop :=
  ¬ (codeAlign > 32767 ∨ dataAlign > 32767 ∨ dataAlign < -32768 ∨ retReg > 255)

/-- **The header of a CIE fits.** Its string ends inside it and its numbers are there. Unless they
are refused the string is not empty, and the data of its letters are there too. -/
def CieFits (rest : Nat × FrameOptions × Nat → Prop) : Prop :=
  8 ≤ entry.length → fromLe ((entry.drop 4).take 4) = 0 →
    Reads (byteAt entry 8) fun version cursor => version = 1 →
      Reads (stringOperand entry cursor) fun augLen cursor =>
      Reads (ulebOperand entry cursor) fun codeAlign cursor =>
      Reads (slebOperand entry cursor) fun dataAlign cursor =>
      Reads (ulebOperand entry cursor) fun retReg cursor =>
        Accepted codeAlign dataAlign retReg →
          let aug := (entry.drop 9).take augLen
          let options : FrameOptions := { codeAlign := signed 16 (codeAlign % 2 ^ 16).toNat, dataAlign }
          ∃ first, aug[0]? = some first ∧
            if first = 'z'.toUInt8 then
              Reads (ulebOperand entry cursor) fun _ cursor =>
                LettersFit entry (fun (cursor, options) => rest (cursor, options, (retReg % 256).toNat))
                  aug cursor { options with hasAugData := true }
            else rest (cursor, options, (retReg % 256).toNat)

variable {entry}

theorem safely_augLoop {P : Nat × FrameOptions → Prop} (aug : Bytes) (cursor : Nat)
    (options : FrameOptions) :
    Safely (augLoop entry aug cursor options) P ↔ LettersFit entry P aug cursor options := by
  induction aug generalizing cursor options with
  | nil => exact safely_ok
  | cons a aug ih =>
    rw [augLoop, LettersFit]
    by_cases hl : a = 'L'.toUInt8
    · simp only [if_pos hl, readByte_eq, safely_bind, safely_reads, safely_ok]
      exact reads_congr fun _ cursor _ => ih cursor options
    by_cases hp : a = 'P'.toUInt8
    · simp only [if_neg hl, if_pos hp, readByte_eq, readValue_eq, safely_bind,
        safely_reads, safely_ok]
      exact reads_congr fun _ _ _ => reads_congr fun _ cursor _ => ih cursor options
    by_cases hr : a = 'R'.toUInt8
    · simp only [if_neg hl, if_neg hp, if_pos hr, readByte_eq, safely_bind, safely_reads, safely_ok]
      exact reads_congr fun enc cursor _ => ih cursor _
    · simp only [if_neg hl, if_neg hp, if_neg hr, ok_bind]
      exact ih cursor options

theorem safely_parseCie {P : Nat × FrameOptions × Nat → Prop} :
    Safely (parseCie entry {}) P ↔ CieFits entry P := by
  unfold parseCie CieFits
  by_cases hlen : entry.length < 8
  · simp only [if_pos hlen]
    exact iff_of_true (safely_bind.mpr (safely_fail _)) fun hle => absurd hlen (Nat.not_lt.mpr hle)
  have hid : readLe 4 entry 4 = .ok (fromLe ((entry.drop 4).take 4)) :=
    readLe_eq_ok.mpr ⟨by omega, rfl⟩
  simp only [hid, ok_bind, ↓safely_refuse, readByte_eq, readString_eq, safely_bind, safely_reads,
    not_lt, not_not, ne_eq]
  refine imp_congr_right fun _ => imp_congr_right fun _ => reads_congr fun version next hversion => ?_
  refine imp_congr_right fun _ => reads_congr fun augLen next' hstring => ?_
  have hnext : next = 9 := byteAt_next hversion
  have hslice : slice entry 9 (9 + augLen) = .ok ((entry.drop 9).take augLen) := by
    have := stringOperand_le hstring
    exact slice_eq_ok.mpr ⟨⟨by omega, by omega⟩, by rw [Nat.add_sub_cancel_left]⟩
  simp only [hslice, readUleb_eq, readSleb_eq, safely_bind, safely_reads, safely_getAt,
    safely_ite, safely_ok, safely_augLoop, ite_prop_iff_and, Accepted]

variable (fdeSlice cieSlice : Bytes)

/-- The rules of the CIE fit, and those of the FDE in the state behind them. -/
def RowsFit (pcStart : Int) (options : FrameOptions) (cieCursor fdeCursor : Nat) : Prop :=
  let start : RuleState :=
    { pc := pcStart
      frame := { rva := toU64 pcStart, cfaReg := 0, cfaOff := 0 }
      cursor := cieCursor
      options }
  RunFits cieSlice Prod.snd start fun s =>
    RunFits fdeSlice nextRow { s with pc := pcStart, cursor := fdeCursor } fun _ => True

/-- The headers of the CIE and of the FDE at the position fit, and their rules. -/
def HeaderFits (fde : Nat) : Prop :=
  CieFits cieSlice fun (cieCursor, options, _) =>
    Reads (valueOperand options.enc (toI64 fde) fdeSlice 8) fun pcStart cursor =>
    Reads (valueOperand options.enc (-12) fdeSlice cursor) fun _ cursor =>
      if options.hasAugData then
        Reads (ulebOperand fdeSlice cursor) fun size cursor =>
          BlockFits size cursor ∧
            RowsFit fdeSlice cieSlice pcStart options cieCursor (cursor + toU64 size)
      else RowsFit fdeSlice cieSlice pcStart options cieCursor cursor

variable {fdeSlice cieSlice}

/-- **The entry at a position fits.** The CIE that its FDE names does not start before the file,
and the two fit. What is not read, or is refused, asks for nothing. -/
def EntryFits (reader : File) (fde : Nat) : Prop :=
  ∀ fdeSlice, readFrameEntry reader fde = .ok fdeSlice → 8 ≤ fdeSlice.length →
    let cieOffset := fromLe ((fdeSlice.drop 4).take 4)
    cieOffset ≠ 0 → fde + 4 < 2 ^ 64 ∧ cieOffset ≤ fde + 4 ∧
      ∀ cieSlice, readFrameEntry reader (fde + 4 - cieOffset) = .ok cieSlice →
        HeaderFits fdeSlice cieSlice fde

theorem noPanic_readFrameEntry (reader : File) (pos : Nat) : NoPanic (readFrameEntry reader pos) := by
  refine noPanic_bind.mpr ⟨noPanic_seek reader pos, fun _ _ => ?_⟩
  refine noPanic_bind.mpr ⟨noPanic_read reader pos 256, fun buf _ => ?_⟩
  refine noPanic_refuse fun _ => noPanic_refuse fun _ => noPanic_refuse fun _ => ?_
  refine noPanic_ite.mpr ⟨fun _ => ?_, fun _ => noPanic_ok _⟩
  exact noPanic_bind.mpr ⟨noPanic_readExact reader _ _, fun rest _ => noPanic_ok _⟩

theorem safely_readRows {header : Header} {frameStates : List FrameState} :
    (Safely (readRows header fdeSlice cieSlice frameStates) fun _ => True) ↔
      RowsFit fdeSlice cieSlice header.pcStart header.options header.cieCursor header.fdeCursor := by
  unfold readRows RowsFit
  rw [safely_bind, safely_cieRules (Nat.le_add_right _ _)]
  simp only [safely_true, noPanic_fdeRules (Nat.le_add_right _ _)]

/-- **Loading the rules** of an offset does not panic exactly when its entry fits. -/
theorem noPanic_loadRules {self : FrameOffset} {reader : File} :
    NoPanic (self.loadRules reader) ↔ EntryFits reader self.fde := by
  unfold loadRules readEntries EntryFits HeaderFits readHeader
  rw [← safely_true]
  simp only [safely_bind, safely_of_noPanic (noPanic_readFrameEntry reader _), ↓safely_refuse,
    safely_addU64, safely_subU64, safely_ok, safely_parseCie, readValue_eq, readUleb_eq,
    safely_reads, safely_ite, safely_readRows, ite_prop_iff_and, not_lt, ne_eq, BlockFits]

end Entries

/-! ## The search table -/

section SearchTable

variable (reader : File) (tableEnc : UInt8) (data : Int) (ehOffset secPtr : Nat) (buf : Bytes)

/-- **The entries of the search table fit.** Both values of each are there, the position of its
FDE does not lie before the section, and the entry at that position fits. -/
def TableFits : (count cursor : Nat) → Prop
  | 0, _ => True
  | count + 1, cursor =>
    Reads (valueOperand tableEnc data buf cursor) fun _ cursor =>
    Reads (valueOperand tableEnc data buf cursor) fun fde cursor =>
      secPtr ≤ toU64 fde ∧ ehOffset + (toU64 fde - secPtr) < 2 ^ 64 ∧
        EntryFits reader (ehOffset + (toU64 fde - secPtr)) ∧ TableFits count cursor

variable {reader tableEnc data ehOffset secPtr buf}

theorem safely_locLoop (count cursor : Nat) (offsets : List FrameOffset) :
    (Safely (locLoop tableEnc data ehOffset secPtr buf count cursor offsets) fun read =>
      ∀ offset ∈ read, EntryFits reader offset.fde) ↔
      (∀ offset ∈ offsets, EntryFits reader offset.fde) ∧
        TableFits reader tableEnc data ehOffset secPtr buf count cursor := by
  induction count generalizing cursor offsets with
  | zero => exact safely_ok.trans (and_iff_left trivial).symm
  | succ count ih =>
    unfold locLoop TableFits
    simp only [readValue_eq, safely_bind, safely_reads, safely_subU64, safely_addU64, ih,
      List.forall_mem_append, List.forall_mem_singleton]
    constructor
    · rintro ⟨rva, next, hrva, fde, last, hfde, hback, hsum, ⟨hoffsets, hentry⟩, hrest⟩
      exact ⟨hoffsets, rva, next, hrva, fde, last, hfde, hback, hsum, hentry, hrest⟩
    · rintro ⟨hoffsets, rva, next, hrva, fde, last, hfde, hback, hsum, hentry, hrest⟩
      exact ⟨rva, next, hrva, fde, last, hfde, hback, hsum, ⟨hoffsets, hentry⟩, hrest⟩

/-- **The search table in a section fits.** The section is of a size that can be held, the four
bytes of its header are there, the address of the frames and the number of entries, and the
entries fit. -/
def LocTableFits (reader : File) (metadata : SectionMetadata) (ehOffset : Nat) : Prop :=
  reader.seek metadata.offset = .ok () → metadata.size < 2 ^ 63 ∧
    ∀ buf, reader.readExact metadata.offset metadata.size = .ok buf →
      ∃ version, buf[0]? = some version ∧ (version = 1 →
        ∃ sectionEnc, buf[1]? = some sectionEnc ∧ ∃ countEnc, buf[2]? = some countEnc ∧
        ∃ tableEnc, buf[3]? = some tableEnc ∧
          (¬ (sectionEnc = DW_EH_PE_OMIT ∨ countEnc = DW_EH_PE_OMIT ∨ tableEnc = DW_EH_PE_OMIT) →
            let data := toI64 metadata.offset
            Reads (valueOperand sectionEnc data buf 4) fun secPtr cursor =>
            Reads (valueOperand countEnc data buf cursor) fun count cursor =>
              TableFits reader tableEnc data ehOffset (toU64 secPtr) buf count.toNat cursor))

theorem safely_resize {size : Nat} {P : Unit → Prop} :
    Safely (resize size) P ↔ size < 2 ^ 63 ∧ P () := safely_guarded

theorem safely_parseLocTable {metadata : SectionMetadata} :
    (Safely (parseLocTable reader metadata ehOffset []) fun read =>
      ∀ offset ∈ read, EntryFits reader offset.fde) ↔ LocTableFits reader metadata ehOffset := by
  have hnil : (∀ offset ∈ ([] : List FrameOffset), EntryFits reader offset.fde) = True :=
    eq_true fun offset h => absurd h List.not_mem_nil
  unfold parseLocTable LocTableFits
  simp only [safely_bind, safely_of_noPanic (noPanic_seek reader _), safely_resize,
    safely_of_noPanic (noPanic_readExact reader _ _), safely_getAt, safely_ite, safely_ok,
    readValue_eq, safely_reads, safely_locLoop, hnil, implies_true, true_and, ne_eq, not_not]
  exact ⟨fun h => h (), fun h _ => h⟩

end SearchTable

end FrameOffset

/-! ## The section table -/

section SectionTable

variable (layout : ElfLayout) (reader : File) (entrySize : Nat)

/-- The positions of the headers behind one fit a word, as far as the headers can be read. -/
def HeadersFit : (count secOffset : Nat) → Prop
  | 0, _ => True
  | count + 1, secOffset =>
    secOffset + entrySize < 2 ^ 64 ∧
      ∀ sec, getSectionHeader layout reader (secOffset + entrySize) = .ok sec →
        HeadersFit count (secOffset + entrySize)

/-- **A section table fits.** The positions of its headers fit a word, and those of the names of
the wanted sections. -/
def SectionsFit (class_ : UInt8) (secType : Option Nat) : Prop :=
  ∀ header, reader.readExact 16 layout.headerSize = .ok header →
    let entrySize := field header layout.e_shentsize
    let walkFits := fun count secOffset sec =>
      HeadersFit layout reader entrySize (count - 1) secOffset ∧
        ∀ strOffset metadata,
          sections layout class_ reader header secType count 0 secOffset sec 0 [] =
            .ok (strOffset, metadata) →
          ∀ m ∈ metadata, m.nameOffset + strOffset < 2 ^ 64
    let secOffset := field header layout.e_shoff
    ∀ sec, getSectionHeader layout reader secOffset = .ok sec →
      if field header layout.e_shnum = 0 then
        secOffset + entrySize < 2 ^ 64 ∧
          ∀ first, getSectionHeader layout reader (secOffset + entrySize) = .ok first →
            walkFits (field sec layout.sh_size % 2 ^ 32) (secOffset + entrySize) first
      else walkFits (field header layout.e_shnum) secOffset sec

variable {layout reader}

theorem safely_sections_succ {class_ : UInt8} {header : Bytes} {secType : Option Nat}
    (count i secOffset : Nat) (sec : Bytes) (strOffset : Nat) (metadata : List SectionMetadata) :
    (Safely (sections layout class_ reader header secType count (i + 1) secOffset sec strOffset
      metadata) fun _ => True) ↔
      HeadersFit layout reader (field header layout.e_shentsize) count secOffset := by
  induction count generalizing i secOffset sec strOffset metadata with
  | zero => exact safely_ok
  | succ count ih =>
    unfold sections HeadersFit
    rw [if_pos (Nat.succ_pos i)]
    simp only [safely_bind, safely_addU64, safely_of_noPanic (noPanic_getSectionHeader _), safely_ok,
      ih]

theorem noPanic_sections {class_ : UInt8} {header : Bytes} {secType : Option Nat}
    {count secOffset : Nat} {sec : Bytes} :
    NoPanic (sections layout class_ reader header secType count 0 secOffset sec 0 []) ↔
      HeadersFit layout reader (field header layout.e_shentsize) (count - 1) secOffset := by
  rw [← safely_true]
  cases count with
  | zero => exact safely_ok
  | succ count =>
    unfold sections
    rw [if_neg (Nat.lt_irrefl 0), ok_bind]
    exact safely_sections_succ count 0 secOffset _ _ _

theorem safely_addNameOffset {strOffset : Nat} {m : SectionMetadata} {P : SectionMetadata → Prop} :
    Safely (addNameOffset strOffset m) P ↔
      m.nameOffset + strOffset < 2 ^ 64 ∧ P { m with nameOffset := m.nameOffset + strOffset } := by
  rw [addNameOffset, safely_bind, safely_addU64, safely_ok]

theorem safely_addNameOffsets (strOffset : Nat) (metadata : List SectionMetadata) :
    (Safely (metadata.mapM (addNameOffset strOffset)) fun _ => True) ↔
      ∀ m ∈ metadata, m.nameOffset + strOffset < 2 ^ 64 := by
  induction metadata with
  | nil => exact iff_of_true (safely_ok.mpr trivial) fun m h => absurd h List.not_mem_nil
  | cons m metadata ih =>
    rw [List.mapM_cons, List.forall_mem_cons, ← ih]
    simp only [safely_bind, safely_addNameOffset, pure_eq_ok, safely_ok]

theorem safely_sections {class_ : UInt8} {header : Bytes} {secType : Option Nat}
    {count secOffset : Nat} {sec : Bytes} :
    (Safely (sections layout class_ reader header secType count 0 secOffset sec 0 [])
      fun (strOffset, metadata) =>
        Safely (metadata.mapM (addNameOffset strOffset)) fun _ => True) ↔
      HeadersFit layout reader (field header layout.e_shentsize) (count - 1) secOffset ∧
        ∀ strOffset metadata,
          sections layout class_ reader header secType count 0 secOffset sec 0 [] =
            .ok (strOffset, metadata) →
          ∀ m ∈ metadata, m.nameOffset + strOffset < 2 ^ 64 := by
  simp only [safely_addNameOffsets]
  rw [← noPanic_sections, Safely, Prod.forall]

theorem safely_getSectionMetadataOf {class_ : UInt8} {secType : Option Nat} :
    (Safely (getSectionMetadataOf layout class_ reader secType) fun _ => True) ↔
      SectionsFit layout reader class_ secType := by
  unfold getSectionMetadataOf SectionsFit
  simp only [safely_bind, safely_of_noPanic (noPanic_readExact reader _ _),
    safely_of_noPanic (noPanic_getSectionHeader _), safely_ite, safely_addU64, safely_ok,
    safely_sections, ite_prop_iff_and]

/-- A file that is identified as one of a class has a section table that fits. -/
def IdentFits (reader : File) (secType : Option Nat) : Prop :=
  reader.seek 0 = .ok () → ∀ ident, reader.readExact 0 16 = .ok ident →
    (ident[EI_CLASS]? = some ELFCLASS32 → SectionsFit elf32 reader ELFCLASS32 secType) ∧
    (ident[EI_CLASS]? = some ELFCLASS64 → SectionsFit elf64 reader ELFCLASS64 secType)

theorem noPanic_enumSectionMetadata {secType : Option Nat} :
    NoPanic (enumSectionMetadata reader secType) ↔ IdentFits reader secType := by
  unfold enumSectionMetadata getSectionMetadata32 getSectionMetadata64 IdentFits
  rw [← safely_true]
  simp only [safely_bind, safely_of_noPanic (noPanic_seek reader _),
    safely_of_noPanic (noPanic_readExact reader _ _), safely_getAt, safely_ite, safely_ok,
    safely_getSectionMetadataOf]
  constructor
  · intro h hseek ident hread
    obtain ⟨class_, hclass, h32, hother⟩ := h () hseek ident hread
    refine ⟨fun h' => h32 (Option.some_inj.mp (hclass.symm.trans h')), fun h' => ?_⟩
    have heq : class_ = ELFCLASS64 := Option.some_inj.mp (hclass.symm.trans h')
    exact (hother (by rw [heq]; decide)).1 heq
  · intro h _ hseek ident hread
    have hlen : ident.length = 16 := length_readLoop (le_refl 16) hread
    obtain ⟨h32, h64⟩ := h hseek ident hread
    obtain ⟨class_, hget⟩ : ∃ class_, ident[EI_CLASS]? = some class_ := by
      rw [← Option.isSome_iff_exists, isSome_getElem?, hlen]
      decide
    refine ⟨_, hget, fun h' => h32 (by rw [hget, h']), fun _ => ⟨fun h' => h64 (by rw [hget, h']), ?_⟩⟩
    exact fun _ => trivial

end SectionTable

/-! ## A file -/

namespace FrameHeaderTable

variable {reader : File}

theorem noPanic_nameEquals (sec : SectionMetadata) (name : String) :
    NoPanic (sec.nameEquals reader name) :=
  noPanic_bind.mpr ⟨noPanic_seek reader _, fun _ _ =>
    noPanic_bind.mpr ⟨noPanic_readExact reader _ _, fun _ _ => noPanic_ok _⟩⟩

/-- The first section whose name can be read and is the given one. -/
def named (reader : File) (name : String) (metadata : List SectionMetadata) :
    Option SectionMetadata :=
  metadata.find? fun sec => sec.nameEquals reader name = .ok true

theorem findSection_eq (name : String) (metadata : List SectionMetadata) :
    findSection reader name metadata = .ok (named reader name metadata) := by
  induction metadata with
  | nil => rfl
  | cons sec secs ih =>
    have hpanic : NoPanic (sec.nameEquals reader name) := noPanic_nameEquals sec name
    unfold findSection named
    rw [List.find?_cons, ih]
    cases hname : sec.nameEquals reader name with
    | ok same => cases same <;> rfl
    | error fault =>
      cases fault with
      | error text => rfl
      | panic => exact absurd hname hpanic

/-- The offset of the section of the frames; 0 without one. -/
def ehOffsetOf (reader : File) (metadata : List SectionMetadata) : Nat :=
  match named reader ".eh_frame" metadata with
  | some sec => sec.offset
  | none => 0

/-- **The tables of a file fit.** Its section table does, and so does the search table in the
section of that name, with the entries at the positions it lists. -/
structure TablesFit (reader : File) : Prop where
  sections : IdentFits reader (some SHT_PROGBITS)
  table : ∀ metadata sec, getSectionMetadata reader SHT_PROGBITS = .ok metadata →
    named reader ".eh_frame_hdr" metadata = some sec →
      FrameOffset.LocTableFits reader sec (ehOffsetOf reader metadata)

theorem safely_parse :
    (Safely (parse reader) fun offsets =>
      ∀ offset ∈ offsets, FrameOffset.EntryFits reader offset.fde) ↔ TablesFit reader := by
  unfold parse
  simp only [safely_bind, findSection_eq, safely_ok]
  constructor
  · rintro ⟨hsections, htable⟩
    refine ⟨noPanic_enumSectionMetadata.mp hsections, fun metadata sec hmetadata hsec => ?_⟩
    have h := htable metadata hmetadata
    simp only [hsec] at h
    exact FrameOffset.safely_parseLocTable.mp h
  · rintro ⟨hsections, htable⟩
    refine ⟨noPanic_enumSectionMetadata.mpr hsections, fun metadata hmetadata => ?_⟩
    cases hsec : named reader ".eh_frame_hdr" metadata with
    | none =>
      simp only [hsec]
      exact safely_ok.mpr fun offset (h : offset ∈ []) => absurd h List.not_mem_nil
    | some sec =>
      simp only [hsec]
      exact FrameOffset.safely_parseLocTable.mpr (htable metadata sec hmetadata hsec)

/-- The offset behind a call of `parseOffset`: it is marked invalid before anything is read, and
an error leaves it so. -/
def leave (reader : File) (offset : FrameOffset) : Exec FrameOffset :=
  match parseOffset reader offset with
  | .ok loaded => .ok loaded
  | .error (.error _) => .ok offset.markInvalid
  | .error .panic => panicked

/-- **Decoding is safe.** The table is read without a panic, and each of its offsets is parsed
without one: it is then valid, or the call has ended in an error and left it invalid. The loops
over the instructions have ended by the turns they are given: more of them change nothing. -/
structure DecodesSafely (reader : File) : Prop where
  parse : NoPanic (parse reader)
  offsets : ∀ offsets, FrameHeaderTable.parse reader = .ok offsets → ∀ offset ∈ offsets,
    ∃ left, leave reader offset = .ok left ∧
      (left.state = .valid ∧ parseOffset reader offset = .ok left ∨
        left.state = .invalid ∧ ∃ text, parseOffset reader offset = .error (.error text))
  cieTurns : ∀ slice s turns, slice.length ≤ turns →
    FrameOffset.cieRules slice turns s = FrameOffset.cieRules slice slice.length s
  fdeTurns : ∀ slice s frameStates turns, slice.length ≤ turns →
    FrameOffset.fdeRules slice turns frameStates s =
      FrameOffset.fdeRules slice slice.length frameStates s

theorem cieRules_turns (slice : Bytes) (s : RuleState) (turns : Nat) (h : slice.length ≤ turns) :
    FrameOffset.cieRules slice turns s = FrameOffset.cieRules slice slice.length s := by
  obtain ⟨more, rfl⟩ := Nat.exists_eq_add_of_le h
  exact FrameOffset.cieRules_more (Nat.le_add_right _ _) more

theorem fdeRules_turns (slice : Bytes) (s : RuleState) (frameStates : List FrameState) (turns : Nat)
    (h : slice.length ≤ turns) :
    FrameOffset.fdeRules slice turns frameStates s =
      FrameOffset.fdeRules slice slice.length frameStates s := by
  obtain ⟨more, rfl⟩ := Nat.exists_eq_add_of_le h
  exact FrameOffset.fdeRules_more (Nat.le_add_right _ _) more frameStates

/-- An offset whose parsing does not panic is left valid or invalid. -/
theorem leave_of_noPanic {offset : FrameOffset} (h : NoPanic (parseOffset reader offset)) :
    ∃ left, leave reader offset = .ok left ∧
      (left.state = .valid ∧ parseOffset reader offset = .ok left ∨
        left.state = .invalid ∧ ∃ text, parseOffset reader offset = .error (.error text)) := by
  unfold leave
  cases hload : parseOffset reader offset with
  | ok loaded =>
    obtain ⟨fdeSlice, cieSlice, header, frameStates, -, -, -, rfl⟩ :=
      FrameOffset.loadRules_eq_ok.mp hload
    exact ⟨_, rfl, Or.inl ⟨rfl, rfl⟩⟩
  | error fault =>
    cases fault with
    | error text => exact ⟨_, rfl, Or.inr ⟨rfl, text, rfl⟩⟩
    | panic => exact absurd hload h

theorem noPanic_of_leave {offset left : FrameOffset} (h : leave reader offset = .ok left) :
    NoPanic (parseOffset reader offset) := by
  intro hpanic
  rw [leave, hpanic] at h
  cases h

/-- **Decoding a file is safe exactly when its tables fit.** Nothing is checked against the bytes
that are there, so every number that the tables are read to hold has to be. -/
theorem decodesSafely_iff (reader : File) : DecodesSafely reader ↔ TablesFit reader := by
  rw [← safely_parse]
  constructor
  · intro h
    refine ⟨h.parse, fun offsets hparse offset hmem => ?_⟩
    obtain ⟨left, hleft, -⟩ := h.offsets offsets hparse offset hmem
    exact FrameOffset.noPanic_loadRules.mp (noPanic_of_leave hleft)
  · rintro ⟨hparse, hoffsets⟩
    refine ⟨hparse, fun offsets hread offset hmem => ?_, cieRules_turns, fdeRules_turns⟩
    exact leave_of_noPanic (FrameOffset.noPanic_loadRules.mpr (hoffsets offsets hread offset hmem))

example : DecodesSafely (File.ofBytes oneEntryFile) := by
  have hparse : parse (File.ofBytes oneEntryFile) = .ok [{ rva := 0x100, fde := 120 }] := by
    decide +kernel
  refine ⟨by rw [hparse]; exact noPanic_ok _, fun offsets hread offset hmem => ?_, cieRules_turns,
    fdeRules_turns⟩
  rw [hparse] at hread
  cases hread
  rw [List.mem_singleton.mp hmem]
  have hload : parseOffset (File.ofBytes oneEntryFile) { rva := 0x100, fde := 120 } =
      .ok oneEntry := by
    decide +kernel
  exact leave_of_noPanic (by rw [hload]; exact noPanic_ok _)

/-- A file with one frame entry, whose CIE has an empty augmentation string. -/
def plainEntryFile : Bytes :=
  -- identification and header: three sections at 148, their names in the third
  [0x7f, 0x45, 0x4c, 0x46, 1] ++ List.replicate 27 0 ++ toLe 4 148 ++ List.replicate 10 0 ++
    toLe 2 40 ++ toLe 2 3 ++ toLe 2 2 ++
  -- at 52: the names
  ".eh_frame".toUTF8.data.toList ++ [0] ++ ".eh_frame_hdr".toUTF8.data.toList ++ [0] ++
  -- at 76: the search table
  [1, 3, 3, 3] ++ toLe 4 0 ++ toLe 4 1 ++ toLe 4 0x100 ++ toLe 4 24 ++
  -- at 96: the CIE
  toLe 4 20 ++ toLe 4 0 ++ [1, 0, 1, 0x78, 16, 0x0c, 7, 8, 0x90, 1, 0, 0, 0, 0, 0, 0] ++
  -- at 120: the FDE, with addresses of eight bytes
  toLe 4 24 ++ toLe 4 28 ++ toLe 8 0x100 ++ toLe 8 0x100 ++ [0, 0, 0, 0] ++
  -- at 148: the section headers
  sectionHeader32 0 1 96 52 ++ sectionHeader32 10 1 76 20 ++ sectionHeader32 0 3 52 24

theorem plainEntry_panics : ¬ DecodesSafely (File.ofBytes plainEntryFile) := by
  intro h
  have hparse : parse (File.ofBytes plainEntryFile) = .ok [{ rva := 0x100, fde := 120 }] := by
    decide +kernel
  have hload : parseOffset (File.ofBytes plainEntryFile) { rva := 0x100, fde := 120 } = panicked := by
    decide +kernel
  obtain ⟨left, hleft, -⟩ := h.offsets _ hparse _ List.mem_cons_self
  exact noPanic_of_leave hleft hload

end FrameHeaderTable

end OneCollect.Ruwind
