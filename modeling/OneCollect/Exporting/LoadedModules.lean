import OneCollect.Exporting.SymbolFiles

/-! The metadata of the mapped binaries (`load_elf_metadata` of `os/linux.rs`): one pass over the
mappings of all processes, which reads every binary once. A part that cannot be read is left out, and
so is what comes behind the sections when these cannot be listed.

`loadElfFile_shown` is about one binary; `loadProcs_firstLoaded` says that a binary keeps what is read
where it is first mapped. -/

namespace OneCollect.Exporting
open Theory Ruwind Ruwind.Elf

/-- `ModuleMetadata`, as it is kept for a binary. -/
inductive LoadedMetadata where
  | elf (metadata : LoadedElfMetadata)
  | pe (metadata : PEModuleMetadata)
  deriving DecidableEq, Repr

/-- The map of `ModuleMetadataLookup`. -/
abbrev ModuleMetadataLookup := ExportDevNode → Option LoadedMetadata

section Load

variable (checks : OverflowChecks)

def isElfFile (reader : File) : Exec Bool := do
  reader.seek 0
  let buf ← reader.readExact 0 4
  .ok (buf = ELF_MAGIC)

def versionText (reader : File) (sections : List SectionMetadata) (sectionOffsets : List Nat) :
    Exec (Option String) := do
  let packageBuf ← ignoreErr (readPackageMetadata checks reader sections sectionOffsets)
  .ok (packageBuf.bind decodeUtf8)

def debugLinkText (reader : File) (sections : List SectionMetadata) (sectionOffsets : List Nat) :
    Exec (Option String) := do
  let debugLink ← ignoreErr (readDebugLink checks reader sections sectionOffsets
    (List.replicate 1024 0))
  .ok (debugLink.join.map getStr)

/-- A text that was read is stored under its id. -/
def storeText (text : Option String) (id : Nat) (strings : InternedStrings) :
    Nat × InternedStrings :=
  match text with
  | some text => strings.toId text
  | none => (id, strings)

def loadVersion (reader : File) (sections : List SectionMetadata) (sectionOffsets : List Nat)
    (state : LoadedElfMetadata × InternedStrings) : Exec (LoadedElfMetadata × InternedStrings) := do
  let text ← versionText checks reader sections sectionOffsets
  let (versionMetadataId, strings) := storeText text state.1.versionMetadataId state.2
  .ok ({ state.1 with versionMetadataId }, strings)

def loadDebugLink (reader : File) (sections : List SectionMetadata) (sectionOffsets : List Nat)
    (state : LoadedElfMetadata × InternedStrings) : Exec (LoadedElfMetadata × InternedStrings) := do
  let text ← debugLinkText checks reader sections sectionOffsets
  let (debugLinkId, strings) := storeText text state.1.debugLinkId state.2
  .ok ({ state.1 with debugLinkId }, strings)

/-- What is read into a new entry. An error leaves what was stored before it. -/
def loadElfFile (reader : File) (strings : InternedStrings) :
    Exec (LoadedElfMetadata × InternedStrings) := do
  let metadata : LoadedElfMetadata := {}
  match ← ignoreErr (getSectionOffsets checks reader none []) with
  | none => .ok (metadata, strings)
  | some sectionOffsets =>
    match ← ignoreErr (getSectionMetadata checks reader none SHT_NOTE []) with
    | none => .ok (metadata, strings)
    | some sections => do
      let id ← ignoreErr (readBuildId checks reader sections sectionOffsets)
      let metadata := match id with
        | some buildId => { metadata with buildId }
        | none => metadata
      let loadHeader ← ignoreErr (getLoadHeader checks reader)
      let metadata := match loadHeader with
        | some header => { metadata with pOffset := header.p_offset, pVaddr := header.p_vaddr }
        | none => metadata
      let state ← loadVersion checks reader sections sectionOffsets (metadata, strings)
      match ← ignoreErr (getSectionMetadata checks reader none SHT_PROGBITS []) with
      | none => .ok state
      | some sections => loadDebugLink checks reader sections sectionOffsets state

/-- One turn of the loops of `load_elf_metadata`, for a mapping of a process. -/
def loadMapping (rootFs : Option RootFs) (state : ModuleMetadataLookup × InternedStrings)
    (map : ProcessMapping) : Exec (ModuleMetadataLookup × InternedStrings) :=
  match map.node with
  | none => .ok state
  | some key =>
    -- each binary exactly once
    if (state.1 key).isSome then .ok state
    else if map.anon then .ok state
    else match state.2.fromId map.filenameId with
      | none => .ok state
      | some filename =>
        match openFileIn rootFs filename.toList with
        | none => .ok state
        | some file => do
          let isElf ← ignoreErr (isElfFile file)
          if isElf.getD false then do
            let (metadata, strings) ← loadElfFile checks file state.2
            .ok (Function.update state.1 key (some (.elf metadata)), strings)
          else .ok state

/-- `load_elf_metadata`; the root directory of a process is that of its pid. -/
def loadElfMetadata (rootOf : Nat → Option RootFs) (procs : List ExportProcess)
    (state : ModuleMetadataLookup × InternedStrings) :
    Exec (ModuleMetadataLookup × InternedStrings) :=
  procs.foldlM (fun state proc => proc.mappings.foldlM (loadMapping checks (rootOf proc.pid)) state)
    state

end Load

/-! ## What is read of a binary -/

structure ElfContent where
  buildId : Option Bytes := none
  pOffset : Nat := 0
  pVaddr : Nat := 0
  version : Option String := none
  debugLink : Option String := none
  deriving DecidableEq, Repr

section Content

variable (checks : OverflowChecks)

/-- The parts of a binary, each as far as it can be read. -/
def elfContent (reader : File) : Exec ElfContent := do
  match ← ignoreErr (getSectionOffsets checks reader none []) with
  | none => .ok {}
  | some sectionOffsets =>
    match ← ignoreErr (getSectionMetadata checks reader none SHT_NOTE []) with
    | none => .ok {}
    | some notes => do
      let id ← ignoreErr (readBuildId checks reader notes sectionOffsets)
      let header ← ignoreErr (getLoadHeader checks reader)
      let version ← versionText checks reader notes sectionOffsets
      let content : ElfContent :=
        { buildId := id.join, pOffset := (header.map (·.p_offset)).getD 0,
          pVaddr := (header.map (·.p_vaddr)).getD 0, version }
      match ← ignoreErr (getSectionMetadata checks reader none SHT_PROGBITS []) with
      | none => .ok content
      | some sections => do
        let debugLink ← debugLinkText checks reader sections sectionOffsets
        .ok { content with debugLink }

end Content

/-- The text is read back under the id, which is 0 without one. -/
def TextShown (strings : InternedStrings) (text : Option String) (id : Nat) : Prop :=
  match text with
  | some text => strings.fromId id = some text
  | none => id = 0

theorem TextShown.later {strings later : InternedStrings} {text : Option String} {id : Nat}
    (h : TextShown strings text id) (hlater : strings.strings <+: later.strings) :
    TextShown later text id := by
  cases text with
  | none => exact h
  | some text => exact InternedStrings.fromId_of_prefix hlater h

/-- The metadata is that of the content. -/
structure ElfContent.ShownBy (content : ElfContent) (strings : InternedStrings)
    (metadata : LoadedElfMetadata) : Prop where
  buildId : metadata.buildId = content.buildId
  pOffset : metadata.pOffset = content.pOffset
  pVaddr : metadata.pVaddr = content.pVaddr
  version : TextShown strings content.version metadata.versionMetadataId
  debugLink : TextShown strings content.debugLink metadata.debugLinkId

theorem ElfContent.ShownBy.later {content : ElfContent} {strings later : InternedStrings}
    {metadata : LoadedElfMetadata} (h : content.ShownBy strings metadata)
    (hlater : strings.strings <+: later.strings) : content.ShownBy later metadata :=
  { h with version := h.version.later hlater, debugLink := h.debugLink.later hlater }

section Read

variable {checks : OverflowChecks} {reader : File}

theorem storeText_shown (text : Option String) (strings : InternedStrings) :
    strings.strings <+: (storeText text 0 strings).2.strings ∧
      TextShown (storeText text 0 strings).2 text (storeText text 0 strings).1 := by
  cases text with
  | none => exact ⟨List.prefix_rfl, rfl⟩
  | some text => exact ⟨strings.prefix_toId text, strings.fromId_toId text List.prefix_rfl⟩

/-- A text that is read and stored in a field without one. -/
theorem storeText_eq_ok {read : Exec (Option String)} {id : Nat} {strings strings' : InternedStrings}
    {store : Nat → LoadedElfMetadata} {metadata : LoadedElfMetadata} (hnone : id = 0)
    (h : (do
      let text ← read
      let (id, strings) := storeText text id strings
      .ok (store id, strings)) = .ok (metadata, strings')) :
    strings.strings <+: strings'.strings ∧ ∃ text id,
      read = .ok text ∧ metadata = store id ∧ TextShown strings' text id := by
  obtain ⟨text, htext, h⟩ := bind_eq_ok.mp h
  subst hnone
  cases h
  obtain ⟨hmore, hshown⟩ := storeText_shown text strings
  exact ⟨hmore, text, _, htext, rfl, hshown⟩

/-- **One binary.** Its metadata is that of its content. -/
theorem loadElfFile_shown {metadata : LoadedElfMetadata} {strings strings' : InternedStrings}
    (h : loadElfFile checks reader strings = .ok (metadata, strings')) :
    strings.strings <+: strings'.strings ∧
      ∃ content, elfContent checks reader = .ok content ∧ content.ShownBy strings' metadata := by
  have hempty (strings : InternedStrings) : ({} : ElfContent).ShownBy strings {} :=
    ⟨rfl, rfl, rfl, rfl, rfl⟩
  obtain ⟨offsets, hoffsets, h⟩ := bind_eq_ok.mp h
  unfold elfContent
  rw [hoffsets, ok_bind]
  cases offsets with
  | none =>
    cases h
    exact ⟨List.prefix_rfl, {}, rfl, hempty _⟩
  | some offsets =>
    obtain ⟨notes, hnotes, h⟩ := bind_eq_ok.mp h
    dsimp only
    rw [hnotes, ok_bind]
    cases notes with
    | none =>
      cases h
      exact ⟨List.prefix_rfl, {}, rfl, hempty _⟩
    | some notes =>
      obtain ⟨id, hid, h⟩ := bind_eq_ok.mp h
      obtain ⟨header, hheader, h⟩ := bind_eq_ok.mp h
      obtain ⟨⟨metadata₁, strings₁⟩, hversion, h⟩ := bind_eq_ok.mp h
      obtain ⟨hmore, version, versionId, htext, hmetadata₁, hshown⟩ :=
        storeText_eq_ok (by cases id <;> cases header <;> rfl) hversion
      obtain ⟨progbits, hprogbits, h⟩ := bind_eq_ok.mp h
      simp only [hid, hheader, htext, hprogbits, ok_bind]
      have hfields : ElfContent.ShownBy
          { buildId := id.join, pOffset := (header.map (·.p_offset)).getD 0,
            pVaddr := (header.map (·.p_vaddr)).getD 0, version } strings₁ metadata₁ := by
        subst hmetadata₁
        cases id <;> cases header <;> exact ⟨rfl, rfl, rfl, hshown, rfl⟩
      cases progbits with
      | none =>
        cases h
        exact ⟨hmore, _, rfl, hfields⟩
      | some sections =>
        dsimp only at h ⊢
        obtain ⟨hmore', link, linkId, hlink, rfl, hlinkShown⟩ :=
          @storeText_eq_ok _ _ _ _ (fun debugLinkId => { metadata₁ with debugLinkId }) _
            hfields.debugLink h
        rw [hlink, ok_bind]
        exact ⟨hmore.trans hmore', _, rfl, hfields.buildId, hfields.pOffset, hfields.pVaddr,
          hfields.version.later hmore', hlinkShown⟩

end Read

/-! ## The first mapping of a binary -/

/-- The binary that a mapping names, with its file: one that can be opened and is an ELF file. -/
def mappedBinary (names : InternedStrings) (rootFs : Option RootFs) (map : ProcessMapping) :
    Option (ExportDevNode × File) := do
  let key ← map.node
  if map.anon then none
  else do
    let filename ← names.fromId map.filenameId
    let file ← openFileIn rootFs filename.toList
    if (isElfFile file).toOption.getD false then some (key, file) else none

/-- The binaries that the mappings of the processes name, in turn. -/
def mappedBinaries (names : InternedStrings) (rootOf : Nat → Option RootFs)
    (procs : List ExportProcess) : List (ExportDevNode × File) :=
  procs.flatMap fun proc => proc.mappings.filterMap (mappedBinary names (rootOf proc.pid))

section First

variable {checks : OverflowChecks} {names : InternedStrings} {rootFs : Option RootFs}
  {map : ProcessMapping} {lookup lookup' : ModuleMetadataLookup}
  {strings strings' : InternedStrings}

/-- What one turn does to the tables. -/
inductive Turned (checks : OverflowChecks) (binary : Option (ExportDevNode × File))
    (lookup : ModuleMetadataLookup) (strings : InternedStrings) :
    ModuleMetadataLookup → InternedStrings → Prop where
  | kept (hkey : ∀ key file, binary = some (key, file) → lookup key ≠ none) :
    Turned checks binary lookup strings lookup strings
  | loaded {key : ExportDevNode} {file : File} {metadata : LoadedElfMetadata}
    {content : ElfContent} {strings' : InternedStrings} (hbinary : binary = some (key, file))
    (hnew : lookup key = none) (hmore : strings.strings <+: strings'.strings)
    (hcontent : elfContent checks file = .ok content) (hshown : content.ShownBy strings' metadata) :
    Turned checks binary lookup strings
      (Function.update lookup key (some (.elf metadata))) strings'

theorem loadMapping_turned (hnames : names.strings <+: strings.strings)
    (hname : map.anon = false → (names.fromId map.filenameId).isSome)
    (h : loadMapping checks rootFs (lookup, strings) map = .ok (lookup', strings')) :
    Turned checks (mappedBinary names rootFs map) lookup strings lookup' strings' := by
  unfold loadMapping at h
  unfold mappedBinary
  cases hnode : map.node with
  | none =>
    rw [hnode] at h
    cases h
    exact .kept fun _ _ hbinary => nomatch hbinary
  | some key =>
    rw [hnode] at h
    dsimp only at h
    by_cases hhas : (lookup key).isSome = true
    · rw [if_pos hhas] at h
      cases h
      refine .kept fun key' file hbinary hnone => ?_
      obtain rfl : key = key' := by
        simp only [Option.bind_eq_bind, Option.bind_some] at hbinary
        split at hbinary
        · cases hbinary
        · obtain ⟨_, -, hbinary⟩ := Option.bind_eq_some_iff.mp hbinary
          obtain ⟨_, -, hbinary⟩ := Option.bind_eq_some_iff.mp hbinary
          split at hbinary
          · exact (Prod.mk.inj (Option.some.inj hbinary)).1
          · cases hbinary
      rw [hnone] at hhas
      cases hhas
    · rw [if_neg hhas] at h
      have hnew : lookup key = none := by simpa using hhas
      simp only [Option.bind_eq_bind, Option.bind_some]
      cases hanon : map.anon with
      | true =>
        rw [hanon, if_pos rfl] at h
        cases h
        exact .kept fun _ _ hbinary => nomatch hbinary
      | false =>
        rw [hanon, if_neg Bool.false_ne_true] at h
        obtain ⟨filename, hfilename⟩ := Option.isSome_iff_exists.mp (hname hanon)
        rw [InternedStrings.fromId_of_prefix hnames hfilename] at h
        rw [if_neg Bool.false_ne_true, hfilename, Option.bind_some]
        dsimp only at h
        cases hopen : openFileIn rootFs filename.toList with
        | none =>
          rw [hopen] at h
          cases h
          exact .kept fun _ _ hbinary => nomatch hbinary
        | some file =>
          rw [hopen] at h
          obtain ⟨isElf, hisElf, h⟩ := bind_eq_ok.mp h
          have hsame : isElf = (isElfFile file).toOption := toOption_ignoreErr hisElf
          rw [Option.bind_some, ← hsame]
          by_cases hyes : isElf.getD false = true
          · rw [if_pos hyes] at h ⊢
            obtain ⟨⟨metadata, strings₁⟩, hload, h⟩ := bind_eq_ok.mp h
            cases h
            obtain ⟨hmore, content, hcontent, hshown⟩ := loadElfFile_shown hload
            exact .loaded rfl hnew hmore hcontent hshown
          · rw [if_neg hyes] at h ⊢
            cases h
            exact .kept fun _ _ hbinary => nomatch hbinary

/-- What the table has for a binary: what it had before, or what the first file is read to. -/
def FirstLoaded (checks : OverflowChecks) (binaries : List (ExportDevNode × File))
    (lookup lookup' : ModuleMetadataLookup) (strings' : InternedStrings) : Prop :=
  ∀ key, match lookup key with
    | some metadata => lookup' key = some metadata
    | none => match binaries.find? (·.1 = key) with
      | none => lookup' key = none
      | some (_, file) => ∃ metadata content, lookup' key = some (.elf metadata) ∧
        elfContent checks file = .ok content ∧ content.ShownBy strings' metadata

theorem FirstLoaded.refl (checks : OverflowChecks) (lookup : ModuleMetadataLookup)
    (strings : InternedStrings) : FirstLoaded checks [] lookup lookup strings := by
  intro key
  cases lookup key <;> rfl

theorem FirstLoaded.append {binaries later : List (ExportDevNode × File)}
    {lookup'' : ModuleMetadataLookup} {strings'' : InternedStrings}
    (h : FirstLoaded checks binaries lookup lookup' strings')
    (hlater : FirstLoaded checks later lookup' lookup'' strings'')
    (hmore : strings'.strings <+: strings''.strings) :
    FirstLoaded checks (binaries ++ later) lookup lookup'' strings'' := by
  intro key
  have hkey := h key
  have hkey' := hlater key
  cases hhas : lookup key with
  | some metadata =>
    rw [hhas] at hkey
    rw [hkey] at hkey'
    exact hkey'
  | none =>
    rw [hhas] at hkey
    dsimp only at hkey ⊢
    rw [List.find?_append]
    cases hfind : binaries.find? (·.1 = key) with
    | none =>
      rw [hfind] at hkey
      rw [hkey] at hkey'
      exact hkey'
    | some binary =>
      rw [hfind] at hkey
      obtain ⟨metadata, content, hloaded, hcontent, hshown⟩ := hkey
      rw [hloaded] at hkey'
      exact ⟨metadata, content, hkey', hcontent, hshown.later hmore⟩

theorem Turned.firstLoaded {binary : Option (ExportDevNode × File)}
    (h : Turned checks binary lookup strings lookup' strings') :
    strings.strings <+: strings'.strings ∧
      FirstLoaded checks binary.toList lookup lookup' strings' := by
  cases h with
  | kept hkey =>
    refine ⟨List.prefix_rfl, fun key => ?_⟩
    cases hhas : lookup key with
    | some metadata => rfl
    | none =>
      have hno : binary.toList.find? (·.1 = key) = none := by
        refine List.find?_eq_none.mpr fun entry hentry hsame => ?_
        obtain rfl := of_decide_eq_true hsame
        exact hkey _ _ (Option.mem_toList.mp hentry) hhas
      rw [hno]
  | @loaded key file metadata content _ hbinary hnew hmore hcontent hshown =>
    refine ⟨hmore, fun key' => ?_⟩
    subst hbinary
    by_cases hsame : key = key'
    · subst hsame
      rw [hnew, Option.toList_some, List.find?_cons_of_pos (by simp)]
      exact ⟨metadata, content, Function.update_self .., hcontent, hshown⟩
    · rw [Option.toList_some, List.find?_cons_of_neg (by simpa using hsame),
        Function.update_of_ne (Ne.symm hsame)]
      cases lookup key' <;> rfl

theorem loadMappings_firstLoaded (maps : List ProcessMapping)
    (hnames : names.strings <+: strings.strings)
    (hname : ∀ map ∈ maps, map.anon = false → (names.fromId map.filenameId).isSome)
    (h : maps.foldlM (loadMapping checks rootFs) (lookup, strings) = .ok (lookup', strings')) :
    strings.strings <+: strings'.strings ∧
      FirstLoaded checks (maps.filterMap (mappedBinary names rootFs)) lookup lookup' strings' := by
  induction maps generalizing lookup strings with
  | nil =>
    cases h
    exact ⟨List.prefix_rfl, .refl checks _ _⟩
  | cons map maps ih =>
    obtain ⟨hhead, htail⟩ := List.forall_mem_cons.mp hname
    rw [List.foldlM_cons] at h
    obtain ⟨⟨lookup₁, strings₁⟩, hturn, h⟩ := bind_eq_ok.mp h
    obtain ⟨hmore, hfirst⟩ := (loadMapping_turned hnames hhead hturn).firstLoaded
    obtain ⟨hmore', hrest⟩ := ih (hnames.trans hmore) htail h
    refine ⟨hmore.trans hmore', ?_⟩
    have hcons : (map :: maps).filterMap (mappedBinary names rootFs) =
        (mappedBinary names rootFs map).toList ++ maps.filterMap (mappedBinary names rootFs) := by
      rw [List.filterMap_cons]
      cases mappedBinary names rootFs map <;> rfl
    rw [hcons]
    exact hfirst.append hrest hmore'

/-- **Each binary once.** A binary that was known keeps its metadata; any other has that of the file
of its first mapping, of those that can be opened and are ELF files, whichever process it is in. -/
theorem loadProcs_firstLoaded {rootOf : Nat → Option RootFs} (procs : List ExportProcess)
    (hnames : names.strings <+: strings.strings)
    (hname : ∀ proc ∈ procs, ∀ map ∈ proc.mappings, map.anon = false →
      (names.fromId map.filenameId).isSome)
    (h : loadElfMetadata checks rootOf procs (lookup, strings) = .ok (lookup', strings')) :
    strings.strings <+: strings'.strings ∧
      FirstLoaded checks (mappedBinaries names rootOf procs) lookup lookup' strings' := by
  induction procs generalizing lookup strings with
  | nil =>
    cases h
    exact ⟨List.prefix_rfl, .refl checks _ _⟩
  | cons proc procs ih =>
    obtain ⟨hhead, htail⟩ := List.forall_mem_cons.mp hname
    rw [loadElfMetadata, List.foldlM_cons] at h
    obtain ⟨⟨lookup₁, strings₁⟩, hproc, h⟩ := bind_eq_ok.mp h
    obtain ⟨hmore, hfirst⟩ := loadMappings_firstLoaded proc.mappings hnames hhead hproc
    obtain ⟨hmore', hrest⟩ := ih (hnames.trans hmore) htail h
    exact ⟨hmore.trans hmore', hfirst.append hrest hmore'⟩

end First

end OneCollect.Exporting
