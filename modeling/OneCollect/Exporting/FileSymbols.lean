import OneCollect.Exporting.AnonMaps
import OneCollect.Exporting.LoadedModules
import OneCollect.Exporting.RecordingLog

/-! The symbols of mapped files (`resolve_elf_symbols` of `os/linux.rs`): a mapping is given the
symbols of the files found for its binary, those that a sampled address hits.

Every file is read by an iterator of its own (`shows_readElfSymbols`). The pass over a mapping is
described by `GivenSymbols`; `recording_resolved` puts the passes behind a recording together. -/

namespace OneCollect.Exporting
open Theory Ruwind Ruwind.Elf

/-- What the passes over the files take from the machine they run on. -/
structure SymbolHost where
  checks : OverflowChecks
  search : BinarySearch
  order : AddrOrder
  demanglers : Demanglers
  pageSize : Nat := 4096

section Resolve

variable (host : SymbolHost)

/-- What the calls of `next` show of a file behind a reset. -/
def readElfSymbols (file : File) (loadHeader : ElfLoadHeader) : Outcome ElfSymbol :=
  match (ElfSymbolIterator.new file loadHeader (pageSizeToMask host.pageSize)).reset host.checks with
  | .ok it => Outcome.ofTries (it.pending host.checks)
  | .error _ => ⟨[], true⟩

/-- One turn of the loop in `add_matching_symbols`, with an `ElfSymbolReader`: a name is made
readable when its symbol is added. -/
def addElfSymbol (uniqueIps : List Nat) (state : ProcessMapping × InternedStrings)
    (symbol : ElfSymbol) : Exec (ProcessMapping × InternedStrings) := do
  match ← state.1.fileToVaRange symbol.start symbol.end_ with
  | some (startIp, endIp) =>
    if host.search.hit uniqueIps startIp (· ≤ endIp) then do
      let demangled ← demangleSymbol host.demanglers symbol.name
      let (nameId, strings) := state.2.toId (demangled.getD symbol.name)
      .ok (state.1.addSymbol ⟨nameId, startIp, endIp⟩, strings)
    else .ok state
  | none => .ok state

/-- The turn over a file of symbols in `add_matching_elf_symbols`. -/
def addSymbolFile (metadata : LoadedElfMetadata) (frames : List Nat)
    (state : ProcessMapping × InternedStrings) (symFile : File) :
    Exec (ProcessMapping × InternedStrings) := do
  let pageMask := pageSizeToMask host.pageSize
  let loadHeader : ElfLoadHeader :=
    { p_offset := metadata.pOffset &&& pageMask, p_vaddr := metadata.pVaddr &&& pageMask }
  let symbols := readElfSymbols host symFile loadHeader
  let state ← symbols.items.foldlM (addElfSymbol host (frames.insertionSort (· ≤ ·))) state
  Theory.endOf symbols.panics
  .ok state

def addElfSymbols (rootFs : Option RootFs) (elfMetadata : ModuleMetadataLookup)
    (callstacks : InternedCallstacks) (self : ExportProcess) (map : ProcessMapping)
    (strings : InternedStrings) : Exec (ProcessMapping × InternedStrings) :=
  if map.anon then .ok (map, strings)
  else
    let addrs := getUniqueUserIps self.samples callstacks (some map)
    if addrs = [] then .ok (map, strings)
    else match strings.fromId map.filenameId with
      | none => .ok (map, strings)
      | some filename =>
        match map.node with
        | none => .ok (map, strings)
        | some devNode =>
          match elfMetadata devNode with
          | some (.elf metadata) => do
            let symFiles ← findSymbolFiles host.checks rootFs filename metadata.toElfModuleMetadata
              allSymbolTypes strings
            symFiles.foldlM (addSymbolFile host metadata (host.order.iter self addrs))
              (map, strings)
          | _ => .ok (map, strings)

def addElfSymbolsTo (rootFs : Option RootFs) (elfMetadata : ModuleMetadataLookup)
    (callstacks : InternedCallstacks) (self : ExportProcess) :
    List ProcessMapping → InternedStrings → Exec (List ProcessMapping × InternedStrings)
  | [], strings => .ok ([], strings)
  | map :: maps, strings => do
    let (map, strings) ← addElfSymbols host rootFs elfMetadata callstacks self map strings
    let (maps, strings) ← addElfSymbolsTo rootFs elfMetadata callstacks self maps strings
    .ok (map :: maps, strings)

def addMatchingElfSymbols (rootFs : Option RootFs) (elfMetadata : ModuleMetadataLookup)
    (callstacks : InternedCallstacks) (self : ExportProcess) (strings : InternedStrings) :
    Exec (ExportProcess × InternedStrings) :=
  if rootFs.isNone then .ok (self, strings)
  else do
    let (mappings, strings) ←
      addElfSymbolsTo host rootFs elfMetadata callstacks self self.mappings strings
    .ok ({ self with mappings }, strings)

/-- `resolve_elf_symbols`: the loop over the processes. -/
def resolveElfSymbols (rootOf : Nat → Option RootFs) (elfMetadata : ModuleMetadataLookup)
    (callstacks : InternedCallstacks) :
    List ExportProcess → InternedStrings → Exec (List ExportProcess × InternedStrings)
  | [], strings => .ok ([], strings)
  | proc :: procs, strings => do
    let (proc, strings) ←
      addMatchingElfSymbols host (rootOf proc.pid) elfMetadata callstacks proc strings
    let (procs, strings) ← resolveElfSymbols rootOf elfMetadata callstacks procs strings
    .ok (proc :: procs, strings)

end Resolve

/-- Behind a reset an iterator is at the start of sections that it knows. -/
theorem valid_reset {checks : OverflowChecks} {it it' : ElfSymbolIterator}
    (h : it.reset checks = .ok it') : it'.Valid := by
  unfold ElfSymbolIterator.reset at h
  rw [initSections_clear] at h
  have hnone : ∀ it : ElfSymbolIterator, it.entryCount = 0 →
      it.entryIndex < it.entryCount → it.sectionIndex < it.sections.length := fun it hcount hlt => by
    rw [hcount] at hlt
    exact absurd hlt (Nat.not_lt_zero _)
  cases hsections : symbolSections checks it.reader with
  | error fault =>
    rw [hsections] at h
    match fault with
    | .error text =>
      cases h
      exact ⟨fun m hm => absurd hm List.not_mem_nil, hnone _ rfl⟩
    | .panic => cases h
  | ok sections =>
    rw [hsections, ok_bind] at h
    cases hoffsets : getSectionOffsets checks it.reader none [] with
    | error fault =>
      rw [hoffsets] at h
      match fault with
      | .error text =>
        cases h
        exact ⟨fun m hm => absurd hm List.not_mem_nil, hnone _ rfl⟩
      | .panic => cases h
    | ok offsets =>
      rw [hoffsets] at h
      cases h
      exact ⟨known_symbolSections hsections, hnone _ rfl⟩

/-- The reader shows what the iterator does. -/
theorem shows_readElfSymbols (host : SymbolHost) (file : File) (loadHeader : ElfLoadHeader)
    (symbol : ElfSymbol) :
    Elf.Shows host.checks
      (ElfSymbolIterator.new file loadHeader (pageSizeToMask host.pageSize)) symbol
      (readElfSymbols host file loadHeader) := by
  unfold Elf.Shows readElfSymbols
  cases hreset : (ElfSymbolIterator.new file loadHeader
      (pageSizeToMask host.pageSize)).reset host.checks with
  | error fault => rfl
  | ok it => exact Elf.runs_pending (valid_reset hreset)

/-! ## What a mapping is given -/

/-- The symbols with a range in the mapping that one of the addresses hits. -/
def ProcessMapping.matchedSymbols (self : ProcessMapping) (ips : List Nat)
    (symbols : List ElfSymbol) : List (ElfSymbol × Nat × Nat) :=
  symbols.filterMap fun symbol =>
    match self.fileToVaRange symbol.start symbol.end_ with
    | .ok (some range) =>
      if ∃ a ∈ ips, a = range.1 ∨ (range.1 < a ∧ a ≤ range.2) then some (symbol, range) else none
    | _ => none

/-- The name a symbol is shown with. -/
def shownSymbolName (demanglers : Demanglers) (symbol : ElfSymbol) : String :=
  (demangleSymbol demanglers symbol.name).toOption.join.getD symbol.name

/-- The symbol of a mapping is the one of the file, at its range and with its name. -/
def AddedFor (demanglers : Demanglers) (strings : InternedStrings)
    (matched : ElfSymbol × Nat × Nat) (symbol : ExportSymbol) : Prop :=
  symbol.start = matched.2.1 ∧ symbol.stop = matched.2.2 ∧
    strings.fromId symbol.nameId = some (shownSymbolName demanglers matched.1)

theorem AddedFor.later {demanglers : Demanglers} {strings later : InternedStrings}
    {matched : ElfSymbol × Nat × Nat} {symbol : ExportSymbol}
    (h : AddedFor demanglers strings matched symbol)
    (hlater : strings.strings <+: later.strings) : AddedFor demanglers later matched symbol :=
  ⟨h.1, h.2.1, InternedStrings.fromId_of_prefix hlater h.2.2⟩

section Matched

variable {host : SymbolHost} {map map' : ProcessMapping} {strings strings' : InternedStrings}

theorem matchedSymbols_congr {ips ips' : List Nat} (h : ∀ a, a ∈ ips ↔ a ∈ ips')
    (symbols : List ElfSymbol) :
    map.matchedSymbols ips symbols = map.matchedSymbols ips' symbols := by
  unfold ProcessMapping.matchedSymbols
  simp only [h]

/-- The symbols of one file, by induction on them. -/
theorem foldlM_addElfSymbol {ips : List Nat} (hs : ips.Pairwise (· ≤ ·)) {symbols : List ElfSymbol}
    (h : symbols.foldlM (addElfSymbol host ips) (map, strings) = .ok (map', strings')) :
    strings.strings <+: strings'.strings ∧ ∃ added,
      map' = { map with symbols := map.symbols ++ added } ∧
      List.Forall₂ (AddedFor host.demanglers strings') (map.matchedSymbols ips symbols) added := by
  induction symbols generalizing map strings with
  | nil =>
    cases h
    exact ⟨List.prefix_rfl, [], by rw [List.append_nil], .nil⟩
  | cons symbol symbols ih =>
    rw [List.foldlM_cons] at h
    obtain ⟨⟨map₁, strings₁⟩, hturn, h⟩ := bind_eq_ok.mp h
    obtain ⟨range, hrange, hturn⟩ := bind_eq_ok.mp hturn
    obtain ⟨hmore, added, hmap', hadded⟩ := ih h
    unfold ProcessMapping.matchedSymbols
    rw [List.filterMap_cons]
    dsimp only at hrange
    rw [hrange]
    cases range with
    | none =>
      cases hturn
      exact ⟨hmore, added, hmap', hadded⟩
    | some range =>
      obtain ⟨startIp, endIp⟩ := range
      dsimp only at hturn ⊢
      by_cases hhit : host.search.hit ips startIp (· ≤ endIp) = true
      · rw [if_pos ((ProcessMapping.hit_iff_matches host.search hs startIp endIp).mp hhit)]
        rw [if_pos hhit] at hturn
        obtain ⟨demangled, hname, hturn⟩ := bind_eq_ok.mp hturn
        cases hturn
        have hshown : shownSymbolName host.demanglers symbol = demangled.getD symbol.name := by
          rw [shownSymbolName, hname]
          rfl
        refine ⟨(strings.prefix_toId _).trans hmore,
          ⟨(strings.toId (demangled.getD symbol.name)).1, startIp, endIp⟩ :: added, ?_,
          .cons ⟨rfl, rfl, ?_⟩ hadded⟩
        · rw [hmap', ProcessMapping.addSymbol, List.append_assoc]
          rfl
        · rw [hshown]
          exact strings.fromId_toId _ hmore
      · rw [if_neg (mt (ProcessMapping.hit_iff_matches host.search hs startIp endIp).mpr hhit)]
        rw [if_neg hhit] at hturn
        cases hturn
        exact ⟨hmore, added, hmap', hadded⟩

/-- The load header of a binary, on pages. -/
def alignedHeader (host : SymbolHost) (metadata : LoadedElfMetadata) : ElfLoadHeader :=
  { p_offset := metadata.pOffset &&& pageSizeToMask host.pageSize,
    p_vaddr := metadata.pVaddr &&& pageSizeToMask host.pageSize }

/-- The symbols of some files in turn. -/
theorem foldlM_addSymbolFile {metadata : LoadedElfMetadata} {frames : List Nat} {files : List File}
    (h : files.foldlM (addSymbolFile host metadata frames) (map, strings) = .ok (map', strings')) :
    strings.strings <+: strings'.strings ∧ ∃ added,
      map' = { map with symbols := map.symbols ++ added } ∧
      List.Forall₂ (AddedFor host.demanglers strings') (files.flatMap fun file =>
        map.matchedSymbols frames (readElfSymbols host file (alignedHeader host metadata)).items)
        added := by
  induction files generalizing map strings with
  | nil =>
    cases h
    exact ⟨List.prefix_rfl, [], by rw [List.append_nil], .nil⟩
  | cons file files ih =>
    rw [List.foldlM_cons] at h
    obtain ⟨⟨map₂, strings₂⟩, hfile, h⟩ := bind_eq_ok.mp h
    obtain ⟨⟨map₁, strings₁⟩, hsymbols, hfile⟩ := bind_eq_ok.mp hfile
    obtain ⟨_, -, hfile⟩ := bind_eq_ok.mp hfile
    cases hfile
    obtain ⟨hmore, added, rfl, hadded⟩ :=
      foldlM_addElfSymbol (List.pairwise_insertionSort (· ≤ ·) frames) hsymbols
    obtain ⟨hmore', added', rfl, hadded'⟩ := ih h
    have hsorted : ∀ a, a ∈ frames.insertionSort (· ≤ ·) ↔ a ∈ frames :=
      fun a => (List.perm_insertionSort (· ≤ ·) frames).mem_iff
    rw [matchedSymbols_congr hsorted] at hadded
    refine ⟨hmore.trans hmore', added ++ added', by rw [List.append_assoc], ?_⟩
    rw [List.flatMap_cons]
    exact List.rel_append (hadded.imp fun _ _ hsymbol => hsymbol.later hmore') hadded'

end Matched

/-- What the pass makes of a mapping whose process has the addresses `addrs` in it. -/
inductive GivenSymbols (host : SymbolHost) (rootFs : Option RootFs)
    (elfMetadata : ModuleMetadataLookup) (names strings' : InternedStrings) (addrs : List Nat)
    (before : ProcessMapping) : ProcessMapping → Prop where
  | untouched (h : rootFs = none ∨ before.anon = true ∨ addrs = [] ∨
      ∀ metadata, before.node.bind elfMetadata ≠ some (.elf metadata)) :
    GivenSymbols host rootFs elfMetadata names strings' addrs before before
  | given {metadata : LoadedElfMetadata} {filename : String} {files : List File}
    {added : List ExportSymbol} (hanon : before.anon = false)
    (hmetadata : before.node.bind elfMetadata = some (.elf metadata))
    (hname : names.fromId before.filenameId = some filename)
    (hfiles : findSymbolFiles host.checks rootFs filename metadata.toElfModuleMetadata
      allSymbolTypes names = .ok files)
    (hbuild : ∀ file ∈ files, getBuildId host.checks file = .ok metadata.buildId)
    (hadded : List.Forall₂ (AddedFor host.demanglers strings') (files.flatMap fun file =>
      before.matchedSymbols addrs (readElfSymbols host file (alignedHeader host metadata)).items)
      added) :
    GivenSymbols host rootFs elfMetadata names strings' addrs before
      { before with symbols := before.symbols ++ added }

section Pass

variable {host : SymbolHost} {rootFs : Option RootFs} {elfMetadata : ModuleMetadataLookup}
  {callstacks : InternedCallstacks} {self : ExportProcess} {map map' : ProcessMapping}
  {names strings strings' : InternedStrings}

theorem GivenSymbols.later {addrs : List Nat} {later : InternedStrings}
    (h : GivenSymbols host rootFs elfMetadata names strings' addrs map map')
    (hlater : strings'.strings <+: later.strings) :
    GivenSymbols host rootFs elfMetadata names later addrs map map' := by
  cases h with
  | untouched h => exact .untouched h
  | given hanon hmetadata hname hfiles hbuild hadded =>
    exact .given hanon hmetadata hname hfiles hbuild
      (hadded.imp fun _ _ hsymbol => hsymbol.later hlater)

/-- The names of a process are known, and so are the debug links of the binaries. -/
structure NamesKnown (names : InternedStrings) (elfMetadata : ModuleMetadataLookup)
    (maps : List ProcessMapping) : Prop where
  filenames : ∀ map ∈ maps, map.anon = false → (names.fromId map.filenameId).isSome
  links : ∀ node metadata, elfMetadata node = some (.elf metadata) →
    (names.fromId metadata.debugLinkId).isSome

theorem debugLink_known {metadata : LoadedElfMetadata}
    (hlink : (names.fromId metadata.debugLinkId).isSome)
    (hnames : names.strings <+: strings.strings) :
    metadata.debugLink strings = metadata.debugLink names := by
  obtain ⟨link, hlink⟩ := Option.isSome_iff_exists.mp hlink
  rw [ElfModuleMetadata.debugLink, ElfModuleMetadata.debugLink, hlink,
    InternedStrings.fromId_of_prefix hnames hlink]

theorem addElfSymbols_given (hknown : NamesKnown names elfMetadata [map])
    (hnames : names.strings <+: strings.strings)
    (h : addElfSymbols host rootFs elfMetadata callstacks self map strings = .ok (map', strings')) :
    strings.strings <+: strings'.strings ∧ GivenSymbols host rootFs elfMetadata names strings'
      (getUniqueUserIps self.samples callstacks (some map)) map map' := by
  unfold addElfSymbols at h
  cases hanon : map.anon with
  | true =>
    rw [hanon, if_pos rfl] at h
    cases h
    exact ⟨List.prefix_rfl, .untouched (.inr (.inl hanon))⟩
  | false =>
    rw [hanon, if_neg Bool.false_ne_true] at h
    dsimp only at h
    by_cases haddrs : getUniqueUserIps self.samples callstacks (some map) = []
    · rw [if_pos haddrs] at h
      cases h
      exact ⟨List.prefix_rfl, .untouched (.inr (.inr (.inl haddrs)))⟩
    · rw [if_neg haddrs] at h
      obtain ⟨filename, hname⟩ := Option.isSome_iff_exists.mp
        (hknown.filenames map List.mem_cons_self hanon)
      rw [InternedStrings.fromId_of_prefix hnames hname] at h
      dsimp only at h
      cases hnode : map.node with
      | none =>
        rw [hnode] at h
        cases h
        refine ⟨List.prefix_rfl, .untouched (.inr (.inr (.inr fun metadata => ?_)))⟩
        rw [hnode]
        exact fun h => nomatch h
      | some devNode =>
        rw [hnode] at h
        dsimp only at h
        have hbind : map.node.bind elfMetadata = elfMetadata devNode := by rw [hnode]; rfl
        match hmetadata : elfMetadata devNode with
        | none | some (.pe _) =>
          rw [hmetadata] at h hbind
          cases h
          refine ⟨List.prefix_rfl, .untouched (.inr (.inr (.inr fun metadata => ?_)))⟩
          rw [hbind]
          exact fun h => nomatch h
        | some (.elf metadata) =>
          rw [hmetadata] at h hbind
          obtain ⟨files, hfiles, h⟩ := bind_eq_ok.mp h
          rw [findSymbolFiles_congr
            (debugLink_known (hknown.links devNode metadata hmetadata) hnames)] at hfiles
          obtain ⟨hmore, added, rfl, hadded⟩ := foldlM_addSymbolFile h
          have hsame : ∀ a, a ∈ host.order.iter self
              (getUniqueUserIps self.samples callstacks (some map)) ↔
                a ∈ getUniqueUserIps self.samples callstacks (some map) :=
            fun a => (host.order.perm self _).mem_iff
          simp only [matchedSymbols_congr hsame] at hadded
          refine ⟨hmore, .given hanon hbind hname hfiles (fun file hmem => ?_) hadded⟩
          obtain ⟨_, _, _, -, haccepted⟩ := accepted_of_findSymbolFiles hfiles file hmem
          exact haccepted.sameBuild

theorem addElfSymbolsTo_given {maps maps' : List ProcessMapping}
    (hknown : NamesKnown names elfMetadata maps) (hnames : names.strings <+: strings.strings)
    (h : addElfSymbolsTo host rootFs elfMetadata callstacks self maps strings =
      .ok (maps', strings')) :
    strings.strings <+: strings'.strings ∧ List.Forall₂ (fun before after =>
      GivenSymbols host rootFs elfMetadata names strings'
        (getUniqueUserIps self.samples callstacks (some before)) before after) maps maps' := by
  induction maps generalizing maps' strings with
  | nil =>
    cases h
    exact ⟨List.prefix_rfl, .nil⟩
  | cons map maps ih =>
    rw [addElfSymbolsTo] at h
    obtain ⟨⟨map₁, strings₁⟩, hmap, h⟩ := bind_eq_ok.mp h
    obtain ⟨⟨maps₁, strings₂⟩, hmaps, h⟩ := bind_eq_ok.mp h
    cases h
    have hfirst : NamesKnown names elfMetadata [map] :=
      ⟨fun m hm => hknown.filenames m (List.mem_singleton.mp hm ▸ List.mem_cons_self),
        hknown.links⟩
    have hrest : NamesKnown names elfMetadata maps :=
      ⟨fun m hm => hknown.filenames m (List.mem_cons_of_mem _ hm), hknown.links⟩
    obtain ⟨hmore, hgiven⟩ := addElfSymbols_given hfirst hnames hmap
    obtain ⟨hmore', hall⟩ := ih hrest (hnames.trans hmore) hmaps
    exact ⟨hmore.trans hmore', .cons (hgiven.later hmore') hall⟩

/-- What the pass makes of a process: only the symbols of its mappings change. -/
def ResolvedProcess (host : SymbolHost) (rootOf : Nat → Option RootFs)
    (elfMetadata : ModuleMetadataLookup) (callstacks : InternedCallstacks)
    (names strings' : InternedStrings) (before after : ExportProcess) : Prop :=
  ∃ mappings, after = { before with mappings } ∧ List.Forall₂ (fun map map' =>
    GivenSymbols host (rootOf before.pid) elfMetadata names strings'
      (getUniqueUserIps before.samples callstacks (some map)) map map') before.mappings mappings

theorem addMatchingElfSymbols_resolved {rootOf : Nat → Option RootFs} {after : ExportProcess}
    (hknown : NamesKnown names elfMetadata self.mappings)
    (hnames : names.strings <+: strings.strings)
    (h : addMatchingElfSymbols host (rootOf self.pid) elfMetadata callstacks self strings =
      .ok (after, strings')) :
    strings.strings <+: strings'.strings ∧
      ResolvedProcess host rootOf elfMetadata callstacks names strings' self after := by
  unfold addMatchingElfSymbols at h
  cases hroot : rootOf self.pid with
  | none =>
    rw [hroot, if_pos (by rfl)] at h
    cases h
    refine ⟨List.prefix_rfl, self.mappings, rfl, List.forall₂_same.mpr fun map _ => ?_⟩
    exact .untouched (.inl hroot)
  | some root =>
    rw [hroot, if_neg (by simp)] at h
    obtain ⟨⟨mappings, strings₁⟩, hmappings, h⟩ := bind_eq_ok.mp h
    cases h
    rw [← hroot] at hmappings
    obtain ⟨hmore, hall⟩ := addElfSymbolsTo_given hknown hnames hmappings
    exact ⟨hmore, mappings, rfl, hall⟩

theorem resolveElfSymbols_resolved {rootOf : Nat → Option RootFs} {procs procs' : List ExportProcess}
    (hknown : ∀ proc ∈ procs, NamesKnown names elfMetadata proc.mappings)
    (hnames : names.strings <+: strings.strings)
    (h : resolveElfSymbols host rootOf elfMetadata callstacks procs strings =
      .ok (procs', strings')) :
    strings.strings <+: strings'.strings ∧ List.Forall₂
      (ResolvedProcess host rootOf elfMetadata callstacks names strings') procs procs' := by
  induction procs generalizing procs' strings with
  | nil =>
    cases h
    exact ⟨List.prefix_rfl, .nil⟩
  | cons proc procs ih =>
    obtain ⟨hhead, htail⟩ := List.forall_mem_cons.mp hknown
    rw [resolveElfSymbols] at h
    obtain ⟨⟨proc₁, strings₁⟩, hproc, h⟩ := bind_eq_ok.mp h
    obtain ⟨⟨procs₁, strings₂⟩, hprocs, h⟩ := bind_eq_ok.mp h
    cases h
    obtain ⟨hmore, mappings, hafter, hgiven⟩ := addMatchingElfSymbols_resolved hhead hnames hproc
    obtain ⟨hmore', hall⟩ := ih htail (hnames.trans hmore) hprocs
    exact ⟨hmore.trans hmore',
      .cons ⟨mappings, hafter, hgiven.imp fun _ _ hmap => hmap.later hmore'⟩ hall⟩

end Pass

/-- The debug link of a binary that was loaded is a string, the empty one for none. -/
theorem debugLink_loaded {checks : OverflowChecks} {binaries : List (ExportDevNode × File)}
    {lookup : ModuleMetadataLookup} {loaded : InternedStrings} {node : ExportDevNode}
    {metadata : LoadedElfMetadata}
    (hloaded : FirstLoaded checks binaries (fun _ => none) lookup loaded)
    (hempty : loaded.fromId 0 = some "") (hnode : lookup node = some (.elf metadata)) :
    (loaded.fromId metadata.debugLinkId).isSome := by
  have hfirst := hloaded node
  dsimp only at hfirst
  rw [hnode] at hfirst
  cases hfind : binaries.find? (·.1 = node) with
  | none =>
    rw [hfind] at hfirst
    cases hfirst
  | some binary =>
    rw [hfind] at hfirst
    obtain ⟨_, content, heq, -, hshown⟩ := hfirst
    cases heq
    have hlink := hshown.debugLink
    cases hcontent : content.debugLink with
    | none =>
      rw [hcontent] at hlink
      have hzero : metadata.debugLinkId = 0 := hlink
      rw [hzero, hempty]
      rfl
    | some link =>
      rw [hcontent] at hlink
      exact Option.isSome_iff_exists.mpr ⟨link, hlink⟩

/-- **The symbols of a recording.** Behind any recording, the metadata of its binaries is loaded,
other passes may add metadata that is not of ELF files, and the symbols are resolved. Then every
binary has the content of the file of its first mapping, and the passes have changed nothing but the
symbols of mappings: a mapping of a binary with metadata that samples fall in is given the symbols
that a sampled address hits, in the order of the files found for the binary, each at its range in the
mapping and with its name; every one of these files has the build id of the binary, or neither has
one. -/
theorem recording_resolved (host : SymbolHost) (rootOf : Nat → Option RootFs)
    (hooks : List (ExportSampleFilterContext → ExportFilterAction)) (t : LoggedRecording)
    (lookup elfMetadata : ModuleMetadataLookup) (procs' : List ExportProcess)
    (loaded strings strings' : InternedStrings)
    (hrecording : (loggedSystem host.checks hooks).Reachable t)
    (hload : loadElfMetadata host.checks rootOf t.machine.procs (fun _ => none, t.machine.strings) =
      .ok (lookup, loaded))
    (hothers : loaded.strings <+: strings.strings ∧ ∀ node metadata,
      elfMetadata node = some (.elf metadata) ↔ lookup node = some (.elf metadata))
    (hresolve : resolveElfSymbols host rootOf elfMetadata t.machine.callstacks t.machine.procs
      strings = .ok (procs', strings')) :
    FirstLoaded host.checks (mappedBinaries t.machine.strings rootOf t.machine.procs) (fun _ => none)
        lookup loaded ∧
      strings.strings <+: strings'.strings ∧ List.Forall₂
        (ResolvedProcess host rootOf elfMetadata t.machine.callstacks strings strings')
        t.machine.procs procs' := by
  have hread := readsAs_of_reachable hrecording
  have hfilenames : ∀ proc ∈ t.machine.procs, ∀ map ∈ proc.mappings, map.anon = false →
      (t.machine.strings.fromId map.filenameId).isSome := by
    intro proc hproc map hmap _
    have hprocess := hread.processes proc.pid
    rw [ExportMachine.process, t.machine.findProcess_of_mem hproc, Option.getD_some] at hprocess
    obtain ⟨logged, -, hlogged⟩ := forall₂_mem_left hprocess.mappings hmap
    exact Option.isSome_iff_exists.mpr ⟨_, hlogged.filename⟩
  obtain ⟨hmore, hfirst⟩ := loadProcs_firstLoaded t.machine.procs List.prefix_rfl hfilenames hload
  have hempty := InternedStrings.fromId_of_prefix hmore hread.noName
  have hkept {id : Nat} {names : InternedStrings} (hfront : names.strings <+: strings.strings)
      (hid : (names.fromId id).isSome) : (strings.fromId id).isSome := by
    obtain ⟨text, htext⟩ := Option.isSome_iff_exists.mp hid
    exact Option.isSome_iff_exists.mpr ⟨text, InternedStrings.fromId_of_prefix hfront htext⟩
  refine ⟨hfirst, resolveElfSymbols_resolved (fun proc hproc => ⟨?_, ?_⟩) List.prefix_rfl hresolve⟩
  · exact fun map hmap hanon => hkept (hmore.trans hothers.1) (hfilenames proc hproc map hmap hanon)
  · exact fun node metadata hnode => hkept hothers.1
      (debugLink_loaded hfirst hempty ((hothers.2 node metadata).mp hnode))

/-! A file with one function, mapped at its page, and a sample in it. -/

def sampleOne : RecordingCall := .addSample 2 (.count 1) 7 7 0 0 [0x400000]

def sampledApp : LoggedRecording := mappedApp.next sampleOne

def appHost : SymbolHost where
  checks := .on
  search := .first
  order := ⟨fun _ set => set, fun _ _ => .refl _⟩
  demanglers := ⟨fun _ => none, fun _ => none⟩

def appRoot (path : Path) : Option File :=
  if path = "/bin/app".toList then some (.ofBytes (symbolFile 280)) else none

def loadedApp : ModuleMetadataLookup × InternedStrings :=
  (loadElfMetadata .on (fun _ => some appRoot) sampledApp.machine.procs
    (fun _ => none, sampledApp.machine.strings)).toOption.getD (fun _ => none, {})

def resolvedApp : List ExportProcess × InternedStrings :=
  (resolveElfSymbols appHost (fun _ => some appRoot) loadedApp.1 sampledApp.machine.callstacks
    sampledApp.machine.procs loadedApp.2).toOption.getD ([], {})

theorem recording_resolved_app : List.Forall₂
    (ResolvedProcess appHost (fun _ => some appRoot) loadedApp.1 sampledApp.machine.callstacks
      loadedApp.2 resolvedApp.2) sampledApp.machine.procs resolvedApp.1 ∧
    (resolvedApp.1.flatMap (·.mappings)).flatMap (·.symbols) = [⟨2, 0x400000, 0x400000⟩] := by
  have hsampled : (loggedSystem .on []).Reachable sampledApp :=
    reachable_mappedApp.next sampleOne ⟨⟨⟨by decide, by decide⟩, trivial⟩, rfl⟩
  have hok {α : Type} {x : Exec α} (failed : α) (h : x.toOption.isSome = true) :
      x = .ok (x.toOption.getD failed) := by
    cases x with
    | error fault => cases h
    | ok a => rfl
  have hresolved := recording_resolved appHost (fun _ => some appRoot) [] sampledApp loadedApp.1
    loadedApp.1 resolvedApp.1 loadedApp.2 loadedApp.2 resolvedApp.2 hsampled
    (hok (fun _ => none, {}) (by decide +kernel)) ⟨List.prefix_rfl, fun _ _ => .rfl⟩
    (hok ([], {}) (by decide +kernel))
  exact ⟨hresolved.2.2, by decide +kernel⟩

end OneCollect.Exporting
