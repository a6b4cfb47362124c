import OneCollect.Exporting.ModuleMetadata
import OneCollect.Ruwind.ElfReads
import OneCollect.Theory.Coverage
import OneCollect.Theory.Paths

/-! Where the symbols of a binary are looked for (`find_symbol_files` of `os/linux.rs`): in the
binary, in the files next to it, behind its debug link and its build id, and where distributions put
debug files.

`findSymbolFiles_iff` says which files are taken: of the candidates, in order, those with the build
id of the binary and a table of symbols, up to the first with which both kinds of tables are found.
Some candidates are named by cutting the path at a byte; `findSymbolFiles_noPanic_iff` says when that
ends in a panic. -/

namespace OneCollect.Ruwind.Elf
open Theory

def SYMBOL_TYPE_ELF_SYMTAB : Nat := 1
def SYMBOL_TYPE_ELF_DYNSYM : Nat := 2

def getBuildId (checks : OverflowChecks) (reader : File) : Exec (Option Bytes) := do
  let sectionOffsets ← getSectionOffsets checks reader none []
  let sections ← getSectionMetadata checks reader none SHT_NOTE []
  readBuildId checks reader sections sectionOffsets

end OneCollect.Ruwind.Elf

namespace OneCollect.Exporting
open Theory Ruwind Ruwind.Elf

/-- Metadata with the version that is only shown. -/
structure LoadedElfMetadata extends ElfModuleMetadata where
  versionMetadataId : Nat := 0
  deriving DecidableEq, Repr

/-- `debug_link`: the id 0 of a binary without one is the id of the empty string. -/
def ElfModuleMetadata.debugLink (strings : InternedStrings) (self : ElfModuleMetadata) :
    Option Path :=
  (strings.fromId self.debugLinkId).map String.toList

/-- The root directory of a process, as files are opened in it. -/
abbrev RootFs := Path → Option File

/-- `open_file`; without a root directory nothing is opened. -/
def openFileIn (rootFs : Option RootFs) (path : Path) : Option File := do
  let rootFs ← rootFs
  rootFs path

/-- `if let Ok(..)`: an `Err` is dropped, a panic is not. -/
def ignoreErr {α : Type} : Exec α → Exec (Option α)
  | .ok a => .ok (some a)
  | .error (.error _) => .ok none
  | .error .panic => panicked

section Candidates

variable (checks : OverflowChecks)

/-- The match on the two build ids. -/
def buildIdsMatch (binaryBuildId symBuildId : Option Bytes) : Bool :=
  match symBuildId with
  | some symId =>
    match binaryBuildId with
    | some binId => binId = symId
    -- the symbol file has a build id but the binary does not
    | none => false
  | none =>
    match binaryBuildId with
    | some _ => false
    | none => true

/-- The tables of symbols that a file has, unless reading its sections fails. -/
def symbolTypes (reader : File) : Exec (Option Nat) := do
  match ← ignoreErr (getSectionMetadata checks reader none SHT_SYMTAB []) with
  | none => .ok none
  | some symtab =>
    let symFlags := if symtab ≠ [] then SYMBOL_TYPE_ELF_SYMTAB else 0
    match ← ignoreErr (getSectionMetadata checks reader none SHT_DYNSYM []) with
    | none => .ok none
    | some dynsym =>
      let symFlags := if dynsym ≠ [] then symFlags ||| SYMBOL_TYPE_ELF_DYNSYM else symFlags
      .ok (if symFlags ≠ 0 then some symFlags else none)

def checkCandidateSymbolFile (rootFs : Option RootFs) (binaryBuildId : Option Bytes)
    (filename : Path) : Exec (Option (File × Nat)) :=
  match openFileIn rootFs filename with
  | none => .ok none
  | some reader => do
    match ← ignoreErr (getBuildId checks reader) with
    | none => .ok none
    | some symBuildId =>
      if buildIdsMatch binaryBuildId symBuildId then do
        let symFlags ← symbolTypes checks reader
        .ok (symFlags.map fun flags => (reader, flags))
      else .ok none

end Candidates

/-! ## The search -/

section Search

variable (checks : OverflowChecks) (rootFs : Option RootFs)

/-- The part that is repeated for every candidate; `rest` is what follows it. -/
def lookAt (buildId : Option Bytes) (requested : Nat) (pathBuf : Path) (found : Gathered File)
    (rest : Gathered File → Exec (List File)) : Exec (List File) := do
  match ← checkCandidateSymbolFile checks rootFs buildId pathBuf with
  | none => rest found
  | some (symFile, typesFound) =>
    let found := found.add symFile typesFound
    if found.kinds = requested then .ok found.files else rest found

def debugSuffix : Path := ".debug".toList

def usrLibDebug : Path := "/usr/lib/debug".toList

/-- The part for the debug link: first as it is, then in the directory of the binary. -/
def lookAtDebugLink (buildId : Option Bytes) (requested : Nat) (binPath : Path)
    (debugLink : Option Path) (found : Gathered File) (rest : Gathered File → Exec (List File)) :
    Exec (List File) :=
  match debugLink with
  | none => rest found
  | some debugLink =>
    lookAt checks rootFs buildId requested debugLink found fun found =>
    match Path.parent binPath with
    | none => rest found
    | some binDirPath =>
      -- /path/to/binary/debug_link
      lookAt checks rootFs buildId requested (Path.push binDirPath debugLink) found fun found =>
      -- /path/to/binary/.debug/debug_link
      lookAt checks rootFs buildId requested
        (Path.push (Path.push binDirPath debugSuffix) debugLink) found fun found => do
      -- /usr/lib/debug/path/to/binary/debug_link
      let (_, cut) ← orPanic (splitAtByte 1 binDirPath)
      lookAt checks rootFs buildId requested
        (Path.push (Path.push usrLibDebug cut) debugLink) found rest

/-- The part for the build id. -/
def lookAtBuildId (buildId : Option Bytes) (requested : Nat) (found : Gathered File)
    (rest : Gathered File → Exec (List File)) : Exec (List File) :=
  match buildId with
  | none => rest found
  | some id => do
    let (front, back) ← orPanic (splitAtByte 2 (hexBytes id))
    lookAt checks rootFs buildId requested (Path.push "/usr/lib/debug/.build-id/".toList
      (front ++ '/' :: (back ++ debugSuffix))) found rest

def findSymbolFiles (binPath : String) (metadata : ElfModuleMetadata) (symTypesRequested : Nat)
    (strings : InternedStrings) : Exec (List File) :=
  let bin := binPath.toList
  let look := lookAt checks rootFs metadata.buildId symTypesRequested
  -- the binary itself
  look bin {} fun found =>
  -- next to the binary
  look (bin ++ ".dbg".toList) found fun found =>
  look (bin ++ debugSuffix) found fun found =>
  lookAtDebugLink checks rootFs metadata.buildId symTypesRequested bin (metadata.debugLink strings)
    found fun found =>
  lookAtBuildId checks rootFs metadata.buildId symTypesRequested found fun found => do
  -- Fedora: /usr/lib/debug/path/to/binary/binaryname.so.debug
  let (_, cut) ← orPanic (splitAtByte 1 bin)
  look (Path.push usrLibDebug (cut ++ debugSuffix)) found fun found => do
  -- Ubuntu: /usr/lib/debug/path/to/binary/binaryname.so
  let (_, cut) ← orPanic (splitAtByte 1 bin)
  look (Path.push usrLibDebug cut) found fun found =>
  -- Ubuntu: what should be in /usr/lib/debug/usr/lib/ may be in /usr/lib/debug/lib/
  if binPath.utf8ByteSize > 9 then do
    let (front, _) ← orPanic (splitAtByte 9 bin)
    if front = "/usr/lib/".toList then do
      let (_, back) ← orPanic (splitAtByte 9 bin)
      look (Path.push "/usr/lib/debug/lib/".toList back) found fun found => .ok found.files
    else .ok found.files
  else .ok found.files

end Search

/-! ## The candidates

Each with the cut of a path that it takes. -/

/-- A path named by what is left of a text behind some bytes. -/
def cutPath (n : Nat) (text : Path) (name : Path → Path) : Exec (Option Path) := do
  let (_, cut) ← orPanic (splitAtByte n text)
  .ok (some (name cut))

/-- The candidates behind a debug link. -/
def linkCandidates (binPath : Path) (debugLink : Option Path) : List (Exec (Option Path)) :=
  match debugLink with
  | none => []
  | some debugLink =>
    .ok (some debugLink) ::
      match Path.parent binPath with
      | none => []
      | some dir =>
        [.ok (some (Path.push dir debugLink)),
          .ok (some (Path.push (Path.push dir debugSuffix) debugLink)),
          cutPath 1 dir fun cut => Path.push (Path.push usrLibDebug cut) debugLink]

def buildIdPath (front back : Path) : Path :=
  Path.push "/usr/lib/debug/.build-id/".toList (front ++ '/' :: (back ++ debugSuffix))

def buildIdCandidates : (buildId : Option Bytes) → List (Exec (Option Path))
  | none => []
  | some id => [do
    let (front, back) ← orPanic (splitAtByte 2 (hexBytes id))
    .ok (some (buildIdPath front back))]

/-- The candidate of a path in `/usr/lib/`, if it is one. -/
def usrLibCandidate (binPath : String) : Exec (Option Path) :=
  if binPath.utf8ByteSize > 9 then do
    let (front, back) ← orPanic (splitAtByte 9 binPath.toList)
    .ok (if front = "/usr/lib/".toList then
      some (Path.push "/usr/lib/debug/lib/".toList back) else none)
  else .ok none

def symbolCandidates (binPath : String) (buildId : Option Bytes) (debugLink : Option Path) :
    List (Exec (Option Path)) :=
  [.ok (some binPath.toList), .ok (some (binPath.toList ++ ".dbg".toList)),
    .ok (some (binPath.toList ++ debugSuffix))] ++
  linkCandidates binPath.toList debugLink ++ buildIdCandidates buildId ++
  [cutPath 1 binPath.toList fun cut => Path.push usrLibDebug (cut ++ debugSuffix),
    cutPath 1 binPath.toList fun cut => Path.push usrLibDebug cut, usrLibCandidate binPath]

section Gather

variable {checks : OverflowChecks} {rootFs : Option RootFs} {buildId : Option Bytes}
  {requested : Nat}

def visit (checks : OverflowChecks) (rootFs : Option RootFs) (buildId : Option Bytes)
    (candidate : Exec (Option Path)) : Exec (Option (File × Nat)) := do
  match ← candidate with
  | none => .ok none
  | some path => checkCandidateSymbolFile checks rootFs buildId path

section Rest

variable {rest : Gathered File → Exec (List File)} {others : List (Exec (Option Path))}
  (hrest : ∀ found, rest found = gather requested (others.map (visit checks rootFs buildId)) found)
include hrest

/-- A look at a candidate is a step of the search. -/
theorem lookAt_eq_gather (pathBuf : Path) (found : Gathered File) :
    lookAt checks rootFs buildId requested pathBuf found rest =
      gather requested ((.ok (some pathBuf) :: others).map (visit checks rootFs buildId)) found := by
  obtain rfl : rest = gather requested (others.map (visit checks rootFs buildId)) := funext hrest
  have hvisit : visit checks rootFs buildId (.ok (some pathBuf)) =
      checkCandidateSymbolFile checks rootFs buildId pathBuf := rfl
  rw [List.map_cons, gather, lookAt, hvisit]
  cases checkCandidateSymbolFile checks rootFs buildId pathBuf with
  | error fault => rfl
  | ok hit => cases hit <;> rfl

theorem cut_eq_gather {n : Nat} {text : Path} (name : Path → Path) (found : Gathered File) :
    (do
      let (_, cut) ← orPanic (splitAtByte n text)
      lookAt checks rootFs buildId requested (name cut) found rest) =
      gather requested ((cutPath n text name :: others).map (visit checks rootFs buildId)) found := by
  unfold cutPath
  cases splitAtByte n text with
  | none => rfl
  | some parts => exact lookAt_eq_gather hrest (name parts.2) found

theorem lookAtDebugLink_eq_gather (binPath : Path) (debugLink : Option Path)
    (found : Gathered File) :
    lookAtDebugLink checks rootFs buildId requested binPath debugLink found rest =
      gather requested ((linkCandidates binPath debugLink ++ others).map
        (visit checks rootFs buildId)) found := by
  unfold lookAtDebugLink linkCandidates
  cases debugLink with
  | none => exact hrest found
  | some debugLink =>
    refine lookAt_eq_gather (fun found => ?_) _ _
    cases Path.parent binPath with
    | none => exact hrest found
    | some dir =>
      refine lookAt_eq_gather (fun found => ?_) _ _
      refine lookAt_eq_gather (fun found => ?_) _ _
      exact cut_eq_gather hrest (fun cut => Path.push (Path.push usrLibDebug cut) debugLink) found

theorem lookAtBuildId_eq_gather (found : Gathered File) :
    lookAtBuildId checks rootFs buildId requested found rest =
      gather requested ((buildIdCandidates buildId ++ others).map
        (visit checks rootFs buildId)) found := by
  unfold lookAtBuildId buildIdCandidates
  cases buildId with
  | none => exact hrest found
  | some id =>
    dsimp only
    cases splitAtByte 2 (hexBytes id) with
    | none => rfl
    | some parts => exact lookAt_eq_gather hrest (buildIdPath parts.1 parts.2) found

end Rest

/-- **The search is one over the candidates.** -/
theorem findSymbolFiles_eq_gather (checks : OverflowChecks) (rootFs : Option RootFs)
    (binPath : String) (metadata : ElfModuleMetadata) (requested : Nat) (strings : InternedStrings) :
    findSymbolFiles checks rootFs binPath metadata requested strings =
      gather requested ((symbolCandidates binPath metadata.buildId (metadata.debugLink strings)).map
        (visit checks rootFs metadata.buildId)) {} := by
  unfold findSymbolFiles symbolCandidates
  simp only [List.cons_append, List.nil_append, List.append_assoc]
  refine lookAt_eq_gather (fun found => ?_) _ _
  refine lookAt_eq_gather (fun found => ?_) _ _
  refine lookAt_eq_gather (fun found => ?_) _ _
  refine lookAtDebugLink_eq_gather (fun found => ?_) _ _ _
  refine lookAtBuildId_eq_gather (fun found => ?_) _
  refine cut_eq_gather (fun found => ?_) (fun cut => Path.push usrLibDebug (cut ++ debugSuffix)) _
  refine cut_eq_gather (fun found => ?_) (fun cut => Path.push usrLibDebug cut) _
  unfold usrLibCandidate
  by_cases hsize : binPath.utf8ByteSize > 9
  · rw [if_pos hsize, if_pos hsize]
    cases hsplit : splitAtByte 9 binPath.toList with
    | none => rfl
    | some parts =>
      obtain ⟨front, back⟩ := parts
      by_cases hfront : front = "/usr/lib/".toList
      · simp only [orPanic, ok_bind, if_pos hfront]
        exact @lookAt_eq_gather checks rootFs _ requested _ [] (fun _ => rfl) _ found
      · simp only [orPanic, ok_bind, if_neg hfront]
        rfl
  · rw [if_neg hsize, if_neg hsize]
    rfl

end Gather

/-! ## What a candidate comes to -/

/-- The file is of the build of the binary, and has a table of symbols. -/
structure Accepted (checks : OverflowChecks) (buildId : Option Bytes) (file : File)
    (symtab dynsym : List SectionMetadata) : Prop where
  sameBuild : getBuildId checks file = .ok buildId
  symtab_eq : getSectionMetadata checks file none SHT_SYMTAB [] = .ok symtab
  dynsym_eq : getSectionMetadata checks file none SHT_DYNSYM [] = .ok dynsym
  hasTable : symtab ≠ [] ∨ dynsym ≠ []

def tableKinds (symtab dynsym : List SectionMetadata) : Nat :=
  (if symtab ≠ [] then SYMBOL_TYPE_ELF_SYMTAB else 0) |||
    (if dynsym ≠ [] then SYMBOL_TYPE_ELF_DYNSYM else 0)

section Outcomes

variable {checks : OverflowChecks} {rootFs : Option RootFs} {buildId : Option Bytes}

theorem ignoreErr_eq_some {α : Type} {x : Exec α} {a : α} :
    ignoreErr x = .ok (some a) ↔ x = .ok a := by
  match x with
  | .ok b => simp [ignoreErr]
  | .error (.error text) => simp [ignoreErr]
  | .error .panic => simp [ignoreErr]

theorem toOption_ignoreErr {α : Type} {x : Exec α} {o : Option α} (h : ignoreErr x = .ok o) :
    o = x.toOption := by
  match x with
  | .ok _ | .error (.error _) =>
    cases h
    rfl
  | .error .panic => cases h

theorem noPanic_ignoreErr {α : Type} {x : Exec α} : NoPanic (ignoreErr x) ↔ NoPanic x := by
  match x with
  | .ok b => simp [ignoreErr]
  | .error (.error text) => exact iff_of_true (noPanic_ok _) (noPanic_fail text)
  | .error .panic => exact iff_of_false not_noPanic_panicked not_noPanic_panicked

theorem buildIdsMatch_iff {binaryBuildId symBuildId : Option Bytes} :
    buildIdsMatch binaryBuildId symBuildId = true ↔ symBuildId = binaryBuildId := by
  cases symBuildId <;> cases binaryBuildId <;> simp [buildIdsMatch, eq_comm]

theorem symbolTypes_eq_some {reader : File} {kinds : Nat} :
    symbolTypes checks reader = .ok (some kinds) ↔ ∃ symtab dynsym,
      getSectionMetadata checks reader none SHT_SYMTAB [] = .ok symtab ∧
      getSectionMetadata checks reader none SHT_DYNSYM [] = .ok dynsym ∧
      (symtab ≠ [] ∨ dynsym ≠ []) ∧ kinds = tableKinds symtab dynsym := by
  unfold symbolTypes
  rw [bind_eq_ok]
  constructor
  · rintro ⟨symtab, hsymtab, h⟩
    cases symtab with
    | none => cases h
    | some symtab =>
      obtain ⟨dynsym, hdynsym, h⟩ := bind_eq_ok.mp h
      cases dynsym with
      | none => cases h
      | some dynsym =>
        refine ⟨symtab, dynsym, ignoreErr_eq_some.mp hsymtab, ignoreErr_eq_some.mp hdynsym, ?_⟩
        have hkinds := Except.ok.inj h
        unfold tableKinds
        by_cases hs : symtab = [] <;> by_cases hd : dynsym = [] <;>
          simp [hs, hd, SYMBOL_TYPE_ELF_SYMTAB, SYMBOL_TYPE_ELF_DYNSYM] at hkinds ⊢ <;> omega
  · rintro ⟨symtab, dynsym, hsymtab, hdynsym, hne, rfl⟩
    refine ⟨some symtab, ignoreErr_eq_some.mpr hsymtab, ?_⟩
    dsimp only
    rw [ignoreErr_eq_some.mpr hdynsym, ok_bind]
    unfold tableKinds
    by_cases hs : symtab = [] <;> by_cases hd : dynsym = [] <;>
      simp [hs, hd, SYMBOL_TYPE_ELF_SYMTAB, SYMBOL_TYPE_ELF_DYNSYM] at hne ⊢

/-- **A candidate is taken** when its file is accepted. -/
theorem checkCandidate_eq_some {path : Path} {file : File} {kinds : Nat} :
    checkCandidateSymbolFile checks rootFs buildId path = .ok (some (file, kinds)) ↔
      openFileIn rootFs path = some file ∧ ∃ symtab dynsym,
        Accepted checks buildId file symtab dynsym ∧ kinds = tableKinds symtab dynsym := by
  unfold checkCandidateSymbolFile
  cases openFileIn rootFs path with
  | none => exact iff_of_false (fun h => nomatch h) fun h => nomatch h.1
  | some reader =>
    dsimp only
    rw [bind_eq_ok]
    constructor
    · rintro ⟨symBuildId, hid, h⟩
      cases symBuildId with
      | none => cases h
      | some symBuildId =>
        dsimp only at h
        by_cases hmatch : buildIdsMatch buildId symBuildId = true
        · rw [if_pos hmatch] at h
          obtain ⟨types, htypes, h⟩ := bind_eq_ok.mp h
          cases types with
          | none => cases h
          | some types =>
            cases h
            obtain ⟨symtab, dynsym, hsymtab, hdynsym, hne, hkinds⟩ := symbolTypes_eq_some.mp htypes
            refine ⟨rfl, symtab, dynsym, ⟨?_, hsymtab, hdynsym, hne⟩, hkinds⟩
            rw [ignoreErr_eq_some.mp hid, buildIdsMatch_iff.mp hmatch]
        · rw [if_neg hmatch] at h
          cases h
    · rintro ⟨hfile, symtab, dynsym, ⟨hid, hsymtab, hdynsym, hne⟩, rfl⟩
      cases hfile
      refine ⟨some buildId, ignoreErr_eq_some.mpr hid, ?_⟩
      dsimp only
      rw [if_pos (buildIdsMatch_iff.mpr rfl),
        symbolTypes_eq_some.mpr ⟨symtab, dynsym, hsymtab, hdynsym, hne, rfl⟩]
      rfl

/-- What a candidate comes to: a file that is accepted, or nothing. -/
inductive Takes (checks : OverflowChecks) (rootFs : Option RootFs) (buildId : Option Bytes) :
    Option Path → Option (File × Nat) → Prop where
  | skipped : Takes checks rootFs buildId none none
  | taken {path : Path} {file : File} {symtab dynsym : List SectionMetadata}
    (hopen : openFileIn rootFs path = some file)
    (haccepted : Accepted checks buildId file symtab dynsym) :
    Takes checks rootFs buildId (some path) (some (file, tableKinds symtab dynsym))
  | passed {path : Path}
    (hchecked : NoPanic (checkCandidateSymbolFile checks rootFs buildId path))
    (hnone : ∀ file, openFileIn rootFs path = some file →
      ∀ symtab dynsym, ¬ Accepted checks buildId file symtab dynsym) :
    Takes checks rootFs buildId (some path) none

/-- Checking a candidate ends in a value or in a panic. -/
theorem checkCandidate_ok (path : Path)
    (h : NoPanic (checkCandidateSymbolFile checks rootFs buildId path)) :
    ∃ hit, checkCandidateSymbolFile checks rootFs buildId path = .ok hit := by
  have hignore {α : Type} (x : Exec α) : (∃ o, ignoreErr x = .ok o) ∨ ignoreErr x = panicked := by
    match x with
    | .ok a => exact .inl ⟨_, rfl⟩
    | .error (.error text) => exact .inl ⟨_, rfl⟩
    | .error .panic => exact .inr rfl
  have hbind {α β : Type} {x : Exec α} {f : α → Exec β}
      (hx : (∃ a, x = .ok a) ∨ x = panicked) (hf : ∀ a, (∃ b, f a = .ok b) ∨ f a = panicked) :
      (∃ b, (x >>= f) = .ok b) ∨ (x >>= f) = panicked := by
    obtain ⟨a, rfl⟩ | rfl := hx
    · exact hf a
    · exact .inr rfl
  refine Or.resolve_right ?_ h
  unfold checkCandidateSymbolFile
  cases openFileIn rootFs path with
  | none => exact .inl ⟨_, rfl⟩
  | some reader =>
    refine hbind (hignore _) fun symBuildId => ?_
    cases symBuildId with
    | none => exact .inl ⟨_, rfl⟩
    | some symBuildId =>
      dsimp only
      by_cases hmatch : buildIdsMatch buildId symBuildId = true
      · rw [if_pos hmatch]
        refine hbind ?_ fun _ => .inl ⟨_, rfl⟩
        refine hbind (hignore _) fun symtab => ?_
        cases symtab with
        | none => exact .inl ⟨_, rfl⟩
        | some symtab =>
          refine hbind (hignore _) fun dynsym => ?_
          cases dynsym <;> exact .inl ⟨_, rfl⟩
      · rw [if_neg hmatch]
        exact .inl ⟨_, rfl⟩

theorem visit_eq_ok {path : Option Path} {hit : Option (File × Nat)} :
    visit checks rootFs buildId (.ok path) = .ok hit ↔ Takes checks rootFs buildId path hit := by
  cases path with
  | none =>
    constructor
    · intro h
      cases h
      exact .skipped
    · intro h
      cases h
      rfl
  | some path =>
    have hvisit : visit checks rootFs buildId (.ok (some path)) =
      checkCandidateSymbolFile checks rootFs buildId path := rfl
    rw [hvisit]
    constructor
    · intro h
      cases hit with
      | none =>
        refine .passed (h ▸ noPanic_ok none) fun file hopen symtab dynsym haccepted => ?_
        have hsome := checkCandidate_eq_some.mpr ⟨hopen, symtab, dynsym, haccepted, rfl⟩
        cases h.symm.trans hsome
      | some hit =>
        obtain ⟨file, kinds⟩ := hit
        obtain ⟨hopen, symtab, dynsym, haccepted, rfl⟩ := checkCandidate_eq_some.mp h
        exact .taken hopen haccepted
    · intro h
      cases h with
      | taken hopen haccepted =>
        exact checkCandidate_eq_some.mpr ⟨hopen, _, _, haccepted, rfl⟩
      | passed hchecked hnone =>
        obtain ⟨hit, hhit⟩ := checkCandidate_ok path hchecked
        cases hit with
        | none => exact hhit
        | some hit =>
          obtain ⟨hopen, symtab, dynsym, haccepted, -⟩ := checkCandidate_eq_some.mp hhit
          exact absurd haccepted (hnone _ hopen symtab dynsym)

theorem visits_prefix {calls : List (Exec (Option Path))} {hits : List (Option (File × Nat))} :
    hits.map .ok <+: calls.map (visit checks rootFs buildId) ↔
      ∃ tried, tried.map .ok <+: calls ∧
        List.Forall₂ (Takes checks rootFs buildId) tried hits := by
  induction calls generalizing hits with
  | nil =>
    constructor
    · intro h
      obtain rfl : hits = [] := by simpa using h
      exact ⟨[], List.prefix_rfl, .nil⟩
    · rintro ⟨tried, htried, htakes⟩
      obtain rfl : tried = [] := by simpa using htried
      cases htakes
      exact List.prefix_rfl
  | cons call calls ih =>
    rw [List.map_cons, prefix_cons_ok]
    constructor
    · rintro (rfl | ⟨hit, rest, rfl, hcall, hrest⟩)
      · exact ⟨[], List.nil_prefix, .nil⟩
      · obtain ⟨path, rfl, -⟩ := bind_eq_ok.mp hcall
        obtain ⟨tried, htried, htakes⟩ := ih.mp hrest
        exact ⟨path :: tried, List.cons_prefix_cons.mpr ⟨rfl, htried⟩,
          .cons (visit_eq_ok.mp hcall) htakes⟩
    · rintro ⟨tried, htried, htakes⟩
      cases htakes with
      | nil => exact .inl rfl
      | @cons path hit tried hits hhit hrest =>
        obtain ⟨hcall, htried⟩ := List.cons_prefix_cons.mp htried
        exact .inr ⟨hit, hits, rfl, hcall ▸ visit_eq_ok.mpr hhit, ih.mpr ⟨tried, htried, hrest⟩⟩

end Outcomes

def allSymbolTypes : Nat := SYMBOL_TYPE_ELF_SYMTAB ||| SYMBOL_TYPE_ELF_DYNSYM

/-- **The files that are taken.** Candidates are tried in order; of those tried, the files that are
accepted are taken. The search stops with the first file that completes both kinds of tables, or when
every candidate was tried. -/
theorem findSymbolFiles_iff (checks : OverflowChecks) (rootFs : Option RootFs) (binPath : String)
    (metadata : ElfModuleMetadata) (strings : InternedStrings) (files : List File) :
    findSymbolFiles checks rootFs binPath metadata allSymbolTypes strings = .ok files ↔
      ∃ tried hits,
        tried.map .ok <+: symbolCandidates binPath metadata.buildId (metadata.debugLink strings) ∧
        List.Forall₂ (Takes checks rootFs metadata.buildId) tried hits ∧
        files = hits.reduceOption.map Prod.fst ∧
        (∀ n < hits.length, Gathered.kindsWith 0 (hits.take n) ≠ allSymbolTypes) ∧
        (Gathered.kindsWith 0 hits = allSymbolTypes ∨ tried.length =
          (symbolCandidates binPath metadata.buildId (metadata.debugLink strings)).length) := by
  rw [findSymbolFiles_eq_gather, gather_eq_ok (by decide)]
  constructor
  · rintro ⟨hits, hprefix, hfiles, hshort, hend⟩
    obtain ⟨tried, htried, htakes⟩ := visits_prefix.mp hprefix
    refine ⟨tried, hits, htried, htakes, hfiles, hshort, hend.imp id fun hall => ?_⟩
    rw [htakes.length_eq, hall, List.length_map]
  · rintro ⟨tried, hits, htried, htakes, hfiles, hshort, hend⟩
    refine ⟨hits, visits_prefix.mpr ⟨tried, htried, htakes⟩, hfiles, hshort,
      hend.imp id fun hall => ?_⟩
    rw [← htakes.length_eq, hall, List.length_map]

/-- A file that is taken was opened at some path, and is accepted. -/
theorem accepted_of_findSymbolFiles {checks : OverflowChecks} {rootFs : Option RootFs}
    {binPath : String} {metadata : ElfModuleMetadata} {strings : InternedStrings}
    {files : List File}
    (h : findSymbolFiles checks rootFs binPath metadata allSymbolTypes strings = .ok files) :
    ∀ file ∈ files, ∃ path symtab dynsym, openFileIn rootFs path = some file ∧
      Accepted checks metadata.buildId file symtab dynsym := by
  rw [findSymbolFiles_eq_gather, gather_eq_ok (by decide)] at h
  obtain ⟨hits, hprefix, rfl, -⟩ := h
  obtain ⟨tried, -, htakes⟩ := visits_prefix.mp hprefix
  intro file hmem
  rw [List.nil_append, List.mem_map] at hmem
  obtain ⟨hit, hmem, rfl⟩ := hmem
  obtain ⟨path, -, htake⟩ := forall₂_mem_right htakes (List.reduceOption_mem_iff.mp hmem)
  cases htake with
  | taken hopen haccepted => exact ⟨_, _, _, hopen, haccepted⟩

/-- The strings are only asked for the debug link. -/
theorem findSymbolFiles_congr {checks : OverflowChecks} {rootFs : Option RootFs}
    {binPath : String} {metadata : ElfModuleMetadata} {requested : Nat}
    {strings strings' : InternedStrings}
    (h : metadata.debugLink strings = metadata.debugLink strings') :
    findSymbolFiles checks rootFs binPath metadata requested strings =
      findSymbolFiles checks rootFs binPath metadata requested strings' := by
  rw [findSymbolFiles_eq_gather, findSymbolFiles_eq_gather, h]

/-! ## When the search panics -/

/-- The candidates behind a debug link, for a directory with an absolute path. -/
def namedLinks (binPath : Path) : (debugLink : Option Path) → List Path
  | none => []
  | some link =>
    link ::
      match Path.parent binPath with
      | none => []
      | some dir => [Path.push dir link, Path.push (Path.push dir debugSuffix) link,
        Path.push (Path.push usrLibDebug dir.tail) link]

def namedBuildIds : (buildId : Option Bytes) → List Path
  | none => []
  | some id => [buildIdPath ((hexBytes id).take 2) ((hexBytes id).drop 2)]

/-- The candidates of a binary with an absolute path, but for the last. -/
def namedCandidates (binPath : Path) (buildId : Option Bytes) (debugLink : Option Path) :
    List Path :=
  [binPath, binPath ++ ".dbg".toList, binPath ++ debugSuffix] ++ namedLinks binPath debugLink ++
  namedBuildIds buildId ++
  [Path.push usrLibDebug (binPath.tail ++ debugSuffix), Path.push usrLibDebug binPath.tail]

/-- Each kind of table is in a file that one of the paths opens and that is accepted. -/
def BothTables (checks : OverflowChecks) (rootFs : Option RootFs) (buildId : Option Bytes)
    (paths : List Path) : Prop :=
  (∃ path ∈ paths, ∃ file symtab dynsym, openFileIn rootFs path = some file ∧
      Accepted checks buildId file symtab dynsym ∧ symtab ≠ []) ∧
    ∃ path ∈ paths, ∃ file symtab dynsym, openFileIn rootFs path = some file ∧
      Accepted checks buildId file symtab dynsym ∧ dynsym ≠ []

section Panics

variable {checks : OverflowChecks} {rootFs : Option RootFs} {buildId : Option Bytes}

theorem toHex_two (byte : UInt8) : (toHex 2 byte.toNat).length = 2 := by
  have hall : ∀ byte : Fin 256, (toHex 2 byte.val).length = 2 := by decide +kernel
  exact hall ⟨byte.toNat, byte.toNat_lt⟩

/-- The digits of the first byte can be cut off. -/
theorem splitAtByte_hexBytes {id : Bytes} (h : id ≠ []) :
    splitAtByte 2 (hexBytes id) = some ((hexBytes id).take 2, (hexBytes id).drop 2) := by
  obtain ⟨byte, rest, rfl⟩ := List.exists_cons_of_ne_nil h
  have hlen := toHex_two byte
  have hone : ∀ c ∈ toHex 2 byte.toNat, c.utf8Size = 1 := by
    have hdigit : ∀ d < 16, d.digitChar.utf8Size = 1 := by decide
    intro c hc
    obtain ⟨d, hd, rfl⟩ := mem_toHex hc
    exact hdigit d hd
  have hsplit := splitAtByte_append hone (hexBytes rest)
  rw [hlen] at hsplit
  have hcons : hexBytes (byte :: rest) = toHex 2 byte.toNat ++ hexBytes rest := rfl
  rw [hcons, hsplit, List.take_append_of_le_length (by omega), List.take_of_length_le (by omega),
    List.drop_append_of_le_length (by omega), List.drop_of_length_le (by omega), List.nil_append]

theorem cutPath_absolute {text : Path} (h : Path.isAbsolute text = true) (name : Path → Path) :
    cutPath 1 text name = .ok (some (name text.tail)) := by
  rw [cutPath, Path.splitAtByte_of_absolute h]
  rfl

theorem candidates_absolute {binPath : String} (habs : Path.isAbsolute binPath.toList = true)
    (hid : ∀ id, buildId = some id → id ≠ []) (debugLink : Option Path) :
    symbolCandidates binPath buildId debugLink =
      (namedCandidates binPath.toList buildId debugLink).map (fun path => .ok (some path)) ++
        [usrLibCandidate binPath] := by
  have hlink : linkCandidates binPath.toList debugLink =
      (namedLinks binPath.toList debugLink).map fun path => .ok (some path) := by
    unfold linkCandidates namedLinks
    cases debugLink with
    | none => rfl
    | some link =>
      cases hdir : Path.parent binPath.toList with
      | none => rfl
      | some dir =>
        dsimp only
        rw [cutPath_absolute (Path.absolute_parent habs hdir)]
        rfl
  have hbuild : buildIdCandidates buildId =
      (namedBuildIds buildId).map fun path => .ok (some path) := by
    cases buildId with
    | none => rfl
    | some id =>
      rw [buildIdCandidates, splitAtByte_hexBytes (hid id rfl)]
      rfl
  unfold symbolCandidates namedCandidates
  rw [hlink, hbuild, cutPath_absolute habs, cutPath_absolute habs]
  simp only [List.map_append, List.map_cons, List.map_nil, List.append_assoc, List.cons_append,
    List.nil_append]

/-- No reading of a file that fits panics. -/
theorem noPanic_checkCandidate {path : Path} {systemPageMask : Nat}
    (hfit : ∀ file, openFileIn rootFs path = some file → FileFits checks file systemPageMask) :
    NoPanic (checkCandidateSymbolFile checks rootFs buildId path) := by
  unfold checkCandidateSymbolFile
  cases hopen : openFileIn rootFs path with
  | none => exact noPanic_ok _
  | some reader =>
    have hfits := hfit reader hopen
    have hlisted := listed_or_refused hfits
    have hmetadata (secType : Option Nat) (found : List SectionMetadata) :
        NoPanic (Elf.enumSectionMetadata checks reader none secType found) := by
      obtain ⟨offsets, all, hall, -⟩ | ⟨text, -, hrefused⟩ := hlisted
      · rw [hall.metadata]
        exact noPanic_ok _
      · rw [hrefused]
        exact noPanic_fail text
    have hbuildId : NoPanic (getBuildId checks reader) := by
      refine noPanic_bind.mpr ⟨noPanic_getSectionOffsets.mpr hfits.table, fun offsets hoffsets => ?_⟩
      refine noPanic_bind.mpr ⟨hmetadata _ _, fun sections hsections => ?_⟩
      obtain ⟨offsets', all, hall, hread⟩ | ⟨text, -, hrefused⟩ := hlisted
      · cases hall.offsets.symm.trans hoffsets
        cases (hall.metadata _ _).symm.trans hsections
        exact (noPanic_readBuildId fun m hm => hread.names m (List.mem_of_mem_filter hm)).mpr
          (hread.notes _ _ (by simp))
      · cases (hrefused _ _).symm.trans hsections
    refine noPanic_bind.mpr ⟨noPanic_ignoreErr.mpr hbuildId, fun symBuildId _ => ?_⟩
    cases symBuildId with
    | none => exact noPanic_ok _
    | some symBuildId =>
      refine noPanic_ite.mpr ⟨fun _ => ?_, fun _ => noPanic_ok _⟩
      refine noPanic_bind.mpr ⟨?_, fun _ _ => noPanic_ok _⟩
      refine noPanic_bind.mpr ⟨noPanic_ignoreErr.mpr (hmetadata _ _), fun symtab _ => ?_⟩
      cases symtab with
      | none => exact noPanic_ok _
      | some symtab =>
        refine noPanic_bind.mpr ⟨noPanic_ignoreErr.mpr (hmetadata _ _), fun dynsym _ => ?_⟩
        cases dynsym <;> exact noPanic_ok _

theorem usrLibCandidate_panics {binPath : String} : usrLibCandidate binPath = panicked ↔
    binPath.utf8ByteSize > 9 ∧ splitAtByte 9 binPath.toList = none := by
  unfold usrLibCandidate
  by_cases hsize : binPath.utf8ByteSize > 9
  · rw [if_pos hsize, and_iff_right hsize]
    generalize splitAtByte 9 binPath.toList = parts
    cases parts with
    | none => exact iff_of_true rfl rfl
    | some parts => exact iff_of_false (panicked_ne_ok _).symm fun h => nomatch h
  · rw [if_neg hsize]
    exact iff_of_false (panicked_ne_ok _).symm fun h => hsize h.1

theorem testBit_tableKinds (symtab dynsym : List SectionMetadata) :
    ((tableKinds symtab dynsym).testBit 0 = true ↔ symtab ≠ []) ∧
      ((tableKinds symtab dynsym).testBit 1 = true ↔ dynsym ≠ []) ∧
      tableKinds symtab dynsym < 2 ^ 2 := by
  unfold tableKinds
  by_cases hs : symtab = [] <;> by_cases hd : dynsym = [] <;>
    simp [hs, hd, SYMBOL_TYPE_ELF_SYMTAB, SYMBOL_TYPE_ELF_DYNSYM] <;> decide

/-- What the candidates offer together. -/
theorem kindsWith_eq_all {paths : List Path} {hits : List (Option (File × Nat))}
    (h : List.Forall₂ (Takes checks rootFs buildId) (paths.map some) hits) :
    Gathered.kindsWith 0 hits = allSymbolTypes ↔ BothTables checks rootFs buildId paths := by
  unfold BothTables
  have hbit (i : Nat) (Has : List SectionMetadata → List SectionMetadata → Prop)
      (hhas : ∀ symtab dynsym, (tableKinds symtab dynsym).testBit i = true ↔ Has symtab dynsym) :
      (Gathered.kindsWith 0 hits).testBit i = true ↔ ∃ path ∈ paths, ∃ file symtab dynsym,
        openFileIn rootFs path = some file ∧ Accepted checks buildId file symtab dynsym ∧
          Has symtab dynsym := by
    rw [Gathered.testBit_kindsWith, Nat.zero_testBit]
    constructor
    · rintro (hzero | ⟨hit, hmem, hset⟩)
      · cases hzero
      · obtain ⟨path, hpath, htakes⟩ := forall₂_mem_right h hmem
        cases htakes with
        | taken hopen haccepted =>
          obtain ⟨path, hmem, heq⟩ := List.mem_map.mp hpath
          cases heq
          exact ⟨_, hmem, _, _, _, hopen, haccepted, (hhas _ _).mp hset⟩
    · rintro ⟨path, hpath, file, symtab, dynsym, hopen, haccepted, htable⟩
      obtain ⟨hit, hmem, htakes⟩ := forall₂_mem_left h (List.mem_map_of_mem hpath)
      cases htakes with
      | taken hopen' haccepted' =>
        cases hopen.symm.trans hopen'
        cases haccepted.symtab_eq.symm.trans haccepted'.symtab_eq
        cases haccepted.dynsym_eq.symm.trans haccepted'.dynsym_eq
        exact .inr ⟨_, hmem, (hhas _ _).mpr htable⟩
      | passed _ hnone => exact absurd haccepted (hnone _ hopen _ _)
  rw [← hbit 0 (fun symtab _ => symtab ≠ []) fun symtab dynsym =>
      (testBit_tableKinds symtab dynsym).1,
    ← hbit 1 (fun _ dynsym => dynsym ≠ []) fun symtab dynsym =>
      (testBit_tableKinds symtab dynsym).2.1]
  have hlt : Gathered.kindsWith 0 hits < 2 ^ 2 := by
    refine Gathered.kindsWith_lt (by decide) fun hit hmem => ?_
    obtain ⟨path, -, htakes⟩ := forall₂_mem_right h hmem
    cases htakes with
    | taken _ _ => exact (testBit_tableKinds _ _).2.2
  have hall : ∀ kinds < 2 ^ 2, kinds = allSymbolTypes ↔
      kinds.testBit 0 = true ∧ kinds.testBit 1 = true := by decide
  exact hall _ hlt

end Panics

/-- **When the search panics**, for a binary with an absolute path: when the path is longer than nine
bytes, is not cut between two characters behind the ninth, and the candidates with a name do not have
both kinds of tables. Files that fit are read without a panic. -/
theorem findSymbolFiles_noPanic_iff (checks : OverflowChecks) (rootFs : Option RootFs)
    (binPath : String) (metadata : ElfModuleMetadata) (strings : InternedStrings)
    (systemPageMask : Nat) (habs : Path.isAbsolute binPath.toList = true)
    (hid : ∀ id, metadata.buildId = some id → id.length = 20)
    (hfit : ∀ path file, openFileIn rootFs path = some file → FileFits checks file systemPageMask) :
    NoPanic (findSymbolFiles checks rootFs binPath metadata allSymbolTypes strings) ↔
      binPath.utf8ByteSize ≤ 9 ∨ splitAtByte 9 binPath.toList ≠ none ∨
      BothTables checks rootFs metadata.buildId
        (namedCandidates binPath.toList metadata.buildId (metadata.debugLink strings)) := by
  have hne : ∀ id, metadata.buildId = some id → id ≠ [] := fun id h hnil => by
    have hlen := hid id h
    rw [hnil] at hlen
    cases hlen
  have hchecked (path : Path) :
      NoPanic (checkCandidateSymbolFile checks rootFs metadata.buildId path) :=
    noPanic_checkCandidate (hfit path)
  generalize hnamed : namedCandidates binPath.toList metadata.buildId (metadata.debugLink strings) =
    named
  choose outcome houtcome using fun path => checkCandidate_ok path (hchecked path)
  have htakes : List.Forall₂ (Takes checks rootFs metadata.buildId) (named.map some)
      (named.map outcome) := by
    rw [List.forall₂_map_left_iff, List.forall₂_map_right_iff, List.forall₂_same]
    exact fun path _ => visit_eq_ok.mp (houtcome path)
  have hcalls : (symbolCandidates binPath metadata.buildId (metadata.debugLink strings)).map
      (visit checks rootFs metadata.buildId) = (named.map outcome).map .ok ++
        [visit checks rootFs metadata.buildId (usrLibCandidate binPath)] := by
    rw [candidates_absolute habs hne, hnamed, List.map_append, List.map_map, List.map_map]
    refine congrArg₂ _ (List.map_congr_left fun path _ => houtcome path) rfl
  have hlast : visit checks rootFs metadata.buildId (usrLibCandidate binPath) = panicked ↔
      usrLibCandidate binPath = panicked := by
    cases h : usrLibCandidate binPath with
    | error fault =>
      constructor
      · intro h
        cases h
        rfl
      · intro h
        cases h
        rfl
    | ok path =>
      refine iff_of_false ?_ (panicked_ne_ok _).symm
      cases path with
      | none => exact (panicked_ne_ok _).symm
      | some path => exact hchecked path
  have hkinds : ∀ hit, some hit ∈ named.map outcome → allSymbolTypes ||| hit.2 = allSymbolTypes := by
    intro hit hmem
    obtain ⟨path, -, htake⟩ := forall₂_mem_right htakes hmem
    cases htake with
    | taken _ _ =>
      have hbits : ∀ kinds < 2 ^ 2, allSymbolTypes ||| kinds = allSymbolTypes := by decide
      exact hbits _ (testBit_tableKinds _ _).2.2
  rw [← kindsWith_eq_all htakes, NoPanic, findSymbolFiles_eq_gather, Ne,
    gather_eq_panicked (by decide), hcalls]
  simp only [panicked_prefix_iff, hlast, usrLibCandidate_panics]
  constructor
  · intro h
    by_contra hnot
    obtain ⟨hsize, hcut, hopen⟩ : ¬ binPath.utf8ByteSize ≤ 9 ∧
        ¬ splitAtByte 9 binPath.toList ≠ none ∧ ¬ Gathered.kindsWith 0 (named.map outcome) =
          allSymbolTypes := by tauto
    exact h ⟨_, ⟨rfl, by omega, not_not.mp hcut⟩,
      fun n _ hall => hopen (Gathered.kindsWith_of_take hkinds hall), hopen⟩
  · rintro h ⟨found, ⟨rfl, hsize, hcut⟩, -, hopen⟩
    rcases h with hle | hsplit | hall
    · omega
    · exact hsplit hcut
    · exact hopen hall

/-- A binary in a home directory with an accent, and no debug files: its path is cut inside it. -/
theorem findSymbolFiles_cut_accent :
    ¬ NoPanic (findSymbolFiles .on (some fun _ => none) "/home/joé/app" {} allSymbolTypes
      { strings := [""] }) := by
  have hid : ∀ id, ({} : ElfModuleMetadata).buildId = some id → id.length = 20 :=
    fun _ h => (Option.some_ne_none _ h.symm).elim
  have hfit : ∀ path file, openFileIn (some fun _ => none) path = some file →
      FileFits .on file 0 := fun _ _ h => (Option.some_ne_none _ h.symm).elim
  refine mt (findSymbolFiles_noPanic_iff .on _ _ _ _ 0 (by decide +kernel) hid hfit).mp ?_
  rintro (hsize | hcut | ⟨⟨_, _, _, _, _, hopen, _⟩, _⟩)
  · exact absurd hsize (by decide +kernel)
  · exact hcut (by decide +kernel)
  · cases hopen

end OneCollect.Exporting
