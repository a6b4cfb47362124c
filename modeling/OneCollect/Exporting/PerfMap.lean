import OneCollect.Exporting.Symbols
import OneCollect.Theory.Text

/-! Symbols of generated code: the perf map of a process (`PerfMapSymbolReader` of `symbols.rs`),
its match with the anonymous mappings (`process.rs`), and the method an export graph gives an
address (`graph.rs`).

The reader ends a method at `start + size`, while the match and the graph count the end as part
of it. `attributed_iff` says for which addresses this makes no difference. -/

namespace OneCollect.Exporting
open Theory

/-! ## The reader -/

structure PerfMapLine where
  start : Nat
  size : Nat
  name : String
  deriving DecidableEq, Repr

/-- The parts of a line, unless it is skipped. A line is read with its end. -/
def PerfMapLine.parse (buffer : List Char) : Option PerfMapLine := do
  let (startStr, rest) := cutAt ' ' buffer
  let startStr := match startStr with
    | '0' :: 'x' :: digits => digits
    | '0' :: 'X' :: digits => digits
    | digits => digits
  let start ← fromHex 64 startStr
  let (sizeStr, rest) ← rest.map (cutAt ' ')
  let size ← fromHex 64 sizeStr
  let namePart := rest.getD []
  -- symbols sometimes have nulls in them
  let name := popIf '\r' (popIf '\n' (namePart.takeWhile (· ≠ '\x00')))
  some ⟨start, size, String.ofList name⟩

/-- What `read_line` gives in turn up to the end of the file: a line, or nothing when it fails. -/
abbrev TextFile := List (Option (List Char))

/-- What `next` of a `PerfMapSymbolReader` yields in turn from the start of the file. -/
def readPerfMap : TextFile → Exec (List SymbolEntry)
  | [] => .ok []
  | none :: _ => .ok []
  | some buffer :: file =>
    match PerfMapLine.parse buffer with
    | none => readPerfMap file
    | some line => do
      let endIp ← addU64 line.start line.size
      let entries ← readPerfMap file
      .ok (⟨line.start, endIp, line.name, none⟩ :: entries)

/-- The lines of a perf map: those before an error that can be parsed. -/
def perfMapLines : TextFile → List PerfMapLine
  | [] => []
  | none :: _ => []
  | some buffer :: file => (PerfMapLine.parse buffer).toList ++ perfMapLines file

namespace PerfMapLine

/-- The address lies in the half-open range of the line. -/
def Covers (line : PerfMapLine) (ip : Nat) : Prop :=
  line.start ≤ ip ∧ ip < line.start + line.size

instance (line : PerfMapLine) (ip : Nat) : Decidable (line.Covers ip) :=
  inferInstanceAs (Decidable (_ ∧ _))

def toEntry (line : PerfMapLine) : SymbolEntry :=
  ⟨line.start, line.start + line.size, line.name, none⟩

end PerfMapLine

/-- A perf map can be read to its end when no line ends behind the last address. -/
theorem readPerfMap_eq_ok {file : TextFile} {entries : List SymbolEntry} :
    readPerfMap file = .ok entries ↔
      (∀ line ∈ perfMapLines file, line.start + line.size < 2 ^ 64) ∧
        entries = (perfMapLines file).map PerfMapLine.toEntry := by
  induction file generalizing entries with
  | nil => simp [readPerfMap, perfMapLines, eq_comm]
  | cons buffer file ih =>
    cases buffer with
    | none => simp [readPerfMap, perfMapLines, eq_comm]
    | some buffer =>
      rw [readPerfMap, perfMapLines]
      cases PerfMapLine.parse buffer with
      | none => exact ih
      | some line =>
        simp only [bind_eq_ok, addU64_eq_ok, ih, Except.ok.injEq, Option.toList_some,
          List.singleton_append, List.forall_mem_cons, List.map_cons]
        constructor
        · rintro ⟨_, ⟨hend, rfl⟩, _, ⟨hall, rfl⟩, rfl⟩
          exact ⟨⟨hend, hall⟩, rfl⟩
        · rintro ⟨⟨hend, hall⟩, rfl⟩
          exact ⟨_, ⟨hend, rfl⟩, _, ⟨hall, rfl⟩, rfl⟩

/-! ## Matching the anonymous mappings -/

/-- One address of `get_unique_user_ips`. -/
def insertUserIp (mapping : Option ProcessMapping) (addrs : List Nat) (ip : Nat) : List Nat :=
  if ip < kernelStart ∧ mapping.all (·.containsIp ip) then addrs.insert ip else addrs

/-- One turn of the loop over the samples. -/
def insertUserIps (callstacks : InternedCallstacks) (mapping : Option ProcessMapping)
    (addrs : List Nat) (sample : ExportProcessSample) : List Nat :=
  let addrs := insertUserIp mapping addrs sample.ip
  match callstacks.fromId sample.callstackId with
  | some frames => frames.foldl (insertUserIp mapping) addrs
  | none => addrs

def getUniqueUserIps (samples : List ExportProcessSample) (callstacks : InternedCallstacks)
    (mapping : Option ProcessMapping) : List Nat :=
  samples.foldl (insertUserIps callstacks mapping) []

/-- The address is the sample's own or one of its frames. -/
def ExportProcessSample.Shows (sample : ExportProcessSample) (callstacks : InternedCallstacks)
    (ip : Nat) : Prop :=
  ip = sample.ip ∨ ∃ frames, callstacks.fromId sample.callstackId = some frames ∧ ip ∈ frames

/-- The address is below the kernel, and in the mapping if there is one. -/
def UserIp (mapping : Option ProcessMapping) (ip : Nat) : Prop :=
  ip < kernelStart ∧ mapping.all (·.containsIp ip) = true

section Addresses

variable {callstacks : InternedCallstacks} {mapping : Option ProcessMapping} {addrs : List Nat}
  {a : Nat}

theorem mem_insertUserIp {ip : Nat} :
    a ∈ insertUserIp mapping addrs ip ↔ a ∈ addrs ∨ a = ip ∧ UserIp mapping a := by
  unfold insertUserIp
  split
  · rename_i h
    rw [List.mem_insert_iff]
    constructor
    · rintro (rfl | ha)
      · exact .inr ⟨rfl, h⟩
      · exact .inl ha
    · rintro (ha | ⟨rfl, -⟩)
      · exact .inr ha
      · exact .inl rfl
  · rename_i h
    constructor
    · exact .inl
    · rintro (ha | ⟨rfl, ha⟩)
      · exact ha
      · exact absurd ha h

theorem mem_foldl_insertUserIp {frames : List Nat} :
    a ∈ frames.foldl (insertUserIp mapping) addrs ↔
      a ∈ addrs ∨ a ∈ frames ∧ UserIp mapping a := by
  induction frames generalizing addrs with
  | nil => simp
  | cons frame frames ih =>
    rw [List.foldl_cons, ih, mem_insertUserIp, List.mem_cons]
    tauto

theorem mem_insertUserIps {sample : ExportProcessSample} :
    a ∈ insertUserIps callstacks mapping addrs sample ↔
      a ∈ addrs ∨ sample.Shows callstacks a ∧ UserIp mapping a := by
  unfold insertUserIps ExportProcessSample.Shows
  cases hframes : callstacks.fromId sample.callstackId with
  | none =>
    have hno : ¬ ∃ frames : List Nat, none = some frames ∧ a ∈ frames := by simp
    rw [mem_insertUserIp]
    tauto
  | some frames =>
    have hsome : (∃ frames', some frames = some frames' ∧ a ∈ frames') ↔ a ∈ frames := by simp
    rw [hsome, mem_foldl_insertUserIp, mem_insertUserIp]
    tauto

/-- **User addresses** of a mapping: those below the kernel that its samples show. -/
theorem mem_getUniqueUserIps {samples : List ExportProcessSample} :
    a ∈ getUniqueUserIps samples callstacks mapping ↔
      (∃ sample ∈ samples, sample.Shows callstacks a) ∧ UserIp mapping a := by
  have hloop : ∀ addrs : List Nat, a ∈ samples.foldl (insertUserIps callstacks mapping) addrs ↔
      a ∈ addrs ∨ (∃ sample ∈ samples, sample.Shows callstacks a) ∧ UserIp mapping a := by
    induction samples with
    | nil => simp
    | cons sample samples ih =>
      intro addrs
      rw [List.foldl_cons, ih, mem_insertUserIps]
      simp only [List.mem_cons, exists_eq_or_imp]
      tauto
  rw [getUniqueUserIps, hloop]
  simp

end Addresses

section Match

variable (search : BinarySearch) (order : AddrOrder)

/-- One turn of the loop over the mappings; `reader` yields the symbols of each turn anew. -/
def ExportProcess.addAnonSymbols (self : ExportProcess) (reader : Exec (List SymbolEntry))
    (callstacks : InternedCallstacks) (map : ProcessMapping) (strings : InternedStrings) :
    Exec (ProcessMapping × InternedStrings) :=
  if !map.anon then .ok (map, strings)
  else
    let addrs := getUniqueUserIps self.samples callstacks (some map)
    if addrs = [] then .ok (map, strings)
    else do
      let entries ← reader
      map.addMatchingSymbols search (order.iter self addrs) entries strings

/-- The loop over the mappings. -/
def ExportProcess.addAnonSymbolsTo (self : ExportProcess) (reader : Exec (List SymbolEntry))
    (callstacks : InternedCallstacks) :
    List ProcessMapping → InternedStrings → Exec (List ProcessMapping × InternedStrings)
  | [], strings => .ok ([], strings)
  | map :: maps, strings => do
    let (map, strings) ← self.addAnonSymbols search order reader callstacks map strings
    let (maps, strings) ← addAnonSymbolsTo self reader callstacks maps strings
    .ok (map :: maps, strings)

def ExportProcess.addMatchingAnonSymbols (self : ExportProcess)
    (reader : Exec (List SymbolEntry)) (callstacks : InternedCallstacks)
    (strings : InternedStrings) : Exec (ExportProcess × InternedStrings) := do
  let (mappings, strings) ←
    self.addAnonSymbolsTo search order reader callstacks self.mappings strings
  .ok ({ self with mappings }, strings)

end Match

/-- The reader can be matched with the mapping: no address overflows. -/
structure ProcessMapping.Matchable (mapping : ProcessMapping) (file : TextFile) : Prop where
  ends : ∀ line ∈ perfMapLines file, line.start + line.size < 2 ^ 64
  fits : perfMapLines file ≠ [] → mapping.fileOffset + (mapping.stop - mapping.start) < 2 ^ 64

theorem addMatchingSymbols_matchable {search : BinarySearch} {map : ProcessMapping}
    {file : TextFile} (strings : InternedStrings) (ips : List Nat) (hanon : map.anon = true)
    (hordered : map.start ≤ map.stop) (h : map.Matchable file) :
    ∃ added strings', map.addMatchingSymbols search ips
        ((perfMapLines file).map PerfMapLine.toEntry) strings =
        .ok ({ map with symbols := map.symbols ++ added }, strings') ∧
      strings.strings <+: strings'.strings ∧
      List.Forall₂ (SymbolEntry.AddedAs strings')
        (((perfMapLines file).map PerfMapLine.toEntry).filter (SymbolEntry.Matches ips)) added := by
  by_cases hlines : perfMapLines file = []
  · refine ⟨[], strings, ?_, List.prefix_refl _, ?_⟩
    · rw [hlines, List.append_nil]
      rfl
    · rw [hlines]
      exact .nil
  · exact map.addMatchingSymbols_direct ⟨.inl hanon, hordered, h.fits hlines⟩ ips _ strings

/-- What a mapping becomes: the lines that hold one of the addresses are added as symbols. -/
def ProcessMapping.Attributed (lines : List PerfMapLine) (ips : List Nat)
    (strings : InternedStrings) (before after : ProcessMapping) : Prop :=
  ∃ added, after = { before with symbols := before.symbols ++ added } ∧
    List.Forall₂ (SymbolEntry.AddedAs strings)
      ((lines.map PerfMapLine.toEntry).filter (SymbolEntry.Matches ips)) added

namespace ExportProcess

section Run

variable {search : BinarySearch} {order : AddrOrder} {self : ExportProcess} {file : TextFile}
  {callstacks : InternedCallstacks}

/-- What the loop does to a mapping of the process; other than anonymous ones are skipped. -/
def Attributes (self : ExportProcess) (callstacks : InternedCallstacks) (file : TextFile)
    (strings : InternedStrings) (before after : ProcessMapping) : Prop :=
  (before.anon = false → after = before) ∧
    (before.anon = true → before.Attributed (perfMapLines file)
      (getUniqueUserIps self.samples callstacks (some before)) strings after)

theorem Attributes.later {strings later : InternedStrings} {before after : ProcessMapping}
    (h : self.Attributes callstacks file strings before after)
    (hlater : strings.strings <+: later.strings) :
    self.Attributes callstacks file later before after := by
  refine ⟨h.1, fun hanon => ?_⟩
  obtain ⟨added, hafter, hadded⟩ := h.2 hanon
  exact ⟨added, hafter, hadded.imp fun _ _ hsymbol => hsymbol.later hlater⟩

theorem filter_matches_nil (reader : List SymbolEntry) :
    reader.filter (SymbolEntry.Matches []) = [] := by
  refine List.filter_eq_nil_iff.mpr fun entry _ hmatch => ?_
  obtain ⟨a, ha, -⟩ := of_decide_eq_true hmatch
  exact absurd ha List.not_mem_nil

/-- With a user address in it, an anonymous mapping is ordered. -/
theorem ordered_of_userIp {map : ProcessMapping} {ip : Nat}
    (h : ip ∈ getUniqueUserIps self.samples callstacks (some map)) : map.start ≤ map.stop := by
  have hcontains := (mem_getUniqueUserIps.mp h).2.2
  rw [Option.all_some, ExportMapping.containsIp, Bool.and_eq_true, decide_eq_true_eq,
    decide_eq_true_eq] at hcontains
  exact hcontains.1.trans hcontains.2

/-- **One mapping.** The turn ends as long as no address overflows. -/
theorem addAnonSymbols_total {map : ProcessMapping} (strings : InternedStrings)
    (h : map.anon = true → getUniqueUserIps self.samples callstacks (some map) ≠ [] →
      map.Matchable file) :
    ∃ map' strings', self.addAnonSymbols search order (readPerfMap file) callstacks map strings =
        .ok (map', strings') ∧ strings.strings <+: strings'.strings ∧
      self.Attributes callstacks file strings' map map' := by
  unfold addAnonSymbols
  cases hanon : map.anon with
  | false =>
    refine ⟨map, strings, rfl, List.prefix_refl _, fun _ => rfl, fun h => ?_⟩
    rw [hanon] at h
    cases h
  | true =>
    rw [if_neg (by decide)]
    by_cases hips : getUniqueUserIps self.samples callstacks (some map) = []
    · refine ⟨map, strings, if_pos hips, List.prefix_refl _, fun _ => rfl,
        fun _ => ⟨[], ?_, ?_⟩⟩
      · rw [List.append_nil]
      · rw [hips, filter_matches_nil]
        exact .nil
    · have hmatchable := h hanon hips
      obtain ⟨ip, hip⟩ := List.exists_mem_of_ne_nil _ hips
      rw [if_neg hips, readPerfMap_eq_ok.mpr ⟨hmatchable.ends, rfl⟩, ok_bind]
      obtain ⟨added, strings', hrun, hmore, hadded⟩ :=
        @addMatchingSymbols_matchable search map file strings
          (order.iter self (getUniqueUserIps self.samples callstacks (some map))) hanon
          (ordered_of_userIp hip) hmatchable
      refine ⟨_, strings', hrun, hmore, fun h => ?_, fun _ => ⟨added, rfl, ?_⟩⟩
      · rw [hanon] at h
        cases h
      · have hsame := SymbolEntry.filter_matches_perm (order.perm self
          (getUniqueUserIps self.samples callstacks (some map)))
          ((perfMapLines file).map PerfMapLine.toEntry)
        rwa [hsame] at hadded

/-- A turn that ends had no address that overflows. -/
theorem matchable_of_addAnonSymbols {map map' : ProcessMapping} {strings strings' : InternedStrings}
    (hrun : self.addAnonSymbols search order (readPerfMap file) callstacks map strings =
      .ok (map', strings')) (hanon : map.anon = true)
    (hips : getUniqueUserIps self.samples callstacks (some map) ≠ []) : map.Matchable file := by
  unfold addAnonSymbols at hrun
  rw [hanon, if_neg (by decide), if_neg hips] at hrun
  obtain ⟨entries, hread, hrun⟩ := bind_eq_ok.mp hrun
  obtain ⟨hends, rfl⟩ := readPerfMap_eq_ok.mp hread
  refine ⟨hends, fun hlines => ?_⟩
  obtain ⟨line, lines, heq⟩ := List.exists_cons_of_ne_nil hlines
  rw [heq, ProcessMapping.addMatchingSymbols, List.map_cons, ProcessMapping.addEntries,
    ProcessMapping.addIfMatching] at hrun
  obtain ⟨_, hfirst, -⟩ := bind_eq_ok.mp hrun
  obtain ⟨_, hrange, -⟩ := bind_eq_ok.mp hfirst
  exact ProcessMapping.fits_of_fileToVaRange hrange

/-- The loop over the mappings. -/
theorem addAnonSymbolsTo_total (maps : List ProcessMapping) (strings : InternedStrings)
    (h : ∀ map ∈ maps, map.anon = true →
      getUniqueUserIps self.samples callstacks (some map) ≠ [] → map.Matchable file) :
    ∃ maps' strings', self.addAnonSymbolsTo search order (readPerfMap file) callstacks maps
        strings = .ok (maps', strings') ∧ strings.strings <+: strings'.strings ∧
      List.Forall₂ (self.Attributes callstacks file strings') maps maps' := by
  induction maps generalizing strings with
  | nil => exact ⟨[], strings, rfl, List.prefix_refl _, .nil⟩
  | cons map maps ih =>
    obtain ⟨map', strings', hmap, hmore, hattributes⟩ :=
      @addAnonSymbols_total search order self file callstacks map strings
        (h map List.mem_cons_self)
    obtain ⟨maps', strings'', hmaps, hmore', hall⟩ :=
      ih strings' fun map hmem => h map (List.mem_cons_of_mem _ hmem)
    refine ⟨map' :: maps', strings'', ?_, hmore.trans hmore',
      .cons (hattributes.later hmore') hall⟩
    rw [addAnonSymbolsTo, hmap, ok_bind]
    dsimp only
    rw [hmaps]
    rfl

theorem matchable_of_addAnonSymbolsTo {maps maps' : List ProcessMapping}
    {strings strings' : InternedStrings}
    (hrun : self.addAnonSymbolsTo search order (readPerfMap file) callstacks maps strings =
      .ok (maps', strings')) :
    ∀ map ∈ maps, map.anon = true →
      getUniqueUserIps self.samples callstacks (some map) ≠ [] → map.Matchable file := by
  induction maps generalizing maps' strings strings' with
  | nil => exact fun _ hmem => absurd hmem List.not_mem_nil
  | cons map maps ih =>
    rw [addAnonSymbolsTo] at hrun
    obtain ⟨⟨map', strings₁⟩, hmap, hrun⟩ := bind_eq_ok.mp hrun
    obtain ⟨⟨maps₁, strings₂⟩, hmaps, -⟩ := bind_eq_ok.mp hrun
    rintro map₁ hmem
    rcases List.mem_cons.mp hmem with rfl | hmem
    · exact matchable_of_addAnonSymbols hmap
    · exact ih hmaps map₁ hmem

/-- No mapping of the process has an address that overflows. -/
def Matchable (self : ExportProcess) (callstacks : InternedCallstacks) (file : TextFile) : Prop :=
  ∀ map ∈ self.mappings, map.anon = true →
    getUniqueUserIps self.samples callstacks (some map) ≠ [] → map.Matchable file

/-- **All mappings.** -/
theorem addMatchingAnonSymbols_total (strings : InternedStrings)
    (h : self.Matchable callstacks file) :
    ∃ mappings strings',
      self.addMatchingAnonSymbols search order (readPerfMap file) callstacks strings =
        .ok ({ self with mappings }, strings') ∧ strings.strings <+: strings'.strings ∧
      List.Forall₂ (self.Attributes callstacks file strings') self.mappings mappings := by
  obtain ⟨mappings, strings', hrun, hmore, hall⟩ :=
    @addAnonSymbolsTo_total search order self file callstacks self.mappings strings h
  refine ⟨mappings, strings', ?_, hmore, hall⟩
  rw [addMatchingAnonSymbols, hrun]
  rfl

theorem matchable_of_run {result : ExportProcess × InternedStrings} {strings : InternedStrings}
    (hrun : self.addMatchingAnonSymbols search order (readPerfMap file) callstacks strings =
      .ok result) : self.Matchable callstacks file := by
  obtain ⟨⟨mappings, strings'⟩, hrun, -⟩ := bind_eq_ok.mp hrun
  exact matchable_of_addAnonSymbolsTo hrun

end Run

/-- `find_mapping`. Every mutation of the mappings clears the lookup, so it starts empty. -/
def findMapping (hashOrder : HashOrder) (minLookup : Nat) (self : ExportProcess) (ip : Nat)
    (time : Option Nat) : Exec (Option ProcessMapping) := do
  let lookup : ExportMappingLookup :=
    { mappings := self.mappings.map (·.toExportMapping), minLookup }
  let (index, _) ← lookup.findIndex hashOrder ip time
  .ok (index.bind (self.mappings[·]?))

end ExportProcess

/-! ## The graph -/

structure Resolvable where
  nameId : Nat := 0
  symbolId : Nat := 0
  versionId : Nat := 0
  deriving DecidableEq, Repr

structure Target where
  address : Nat := 0
  resolvableId : Nat := 0
  methodId : Nat := 0
  deriving DecidableEq, Repr

def Target.hasMethod (self : Target) : Bool := self.methodId != 0

/-- The names of a graph. Id 0 is always the empty string. -/
structure ExportGraph where
  strings : InternedStrings := ⟨[""]⟩
  resolvables : List Resolvable := [{}]
  undefined : strings.fromId 0 = some "" := by rfl

def unknown : String := "Unknown"

/-- The file name without its path. -/
def shortName (name : String) : String :=
  String.ofList (name.toList.reverse.takeWhile (· ≠ '/')).reverse

/-- The first symbol of a mapping that holds the address. -/
def symbolFor (symbols : List ExportSymbol) (ip : Nat) : Option ExportSymbol :=
  symbols.find? fun symbol => ip ≥ symbol.start ∧ ip ≤ symbol.stop

namespace ExportGraph

def toId (self : ExportGraph) (name : String) : Nat × ExportGraph :=
  ((self.strings.toId name).1, { self with
    strings := (self.strings.toId name).2
    undefined := InternedStrings.fromId_of_prefix (self.strings.prefix_toId name) self.undefined })

def importResolvable (self : ExportGraph) (resolvable : Resolvable) : Nat × ExportGraph :=
  let resolvables := insertNew self.resolvables resolvable
  (numberOf resolvables resolvable, { self with resolvables })

/-- Symbol lookup, if any. -/
def importMethod (self : ExportGraph) (strings : InternedStrings) (symbols : List ExportSymbol)
    (ip : Nat) : Nat × ExportGraph :=
  match symbolFor symbols ip with
  | some symbol => self.toId ((strings.fromId symbol.nameId).getD unknown)
  | none => (0, self)

def importIp (hashOrder : HashOrder) (minLookup : Nat) (self : ExportGraph)
    (strings : InternedStrings) (process : ExportProcess) (time ip : Nat) :
    Exec (Target × ExportGraph) := do
  match ← process.findMapping hashOrder minLookup ip (some time) with
  | some mapping =>
    let name := shortName ((strings.fromId mapping.filenameId).getD unknown)
    let address ←
      if mapping.anon then .ok 0
      else if ip > kernelStart then .ok ip
      else do
        let offset ← subU64 ip mapping.start
        addU64 offset mapping.fileOffset
    let (methodId, self) := self.importMethod strings mapping.symbols ip
    let (nameId, self) := self.toId name
    let (resolvableId, self) := self.importResolvable { nameId }
    .ok (⟨address, resolvableId, methodId⟩, self)
  | none =>
    let (nameId, self) := self.toId unknown
    let (resolvableId, self) := self.importResolvable { nameId }
    .ok (⟨0, resolvableId, 0⟩, self)

/-- The method has this name; without a name there is no method. -/
def Names (self : ExportGraph) (target : Target) (name : String) : Prop :=
  self.strings.fromId target.methodId = some name ∧ (target.hasMethod = false ↔ name = "")

/-- The name an address gets from a list of symbols. -/
def methodName (strings : InternedStrings) (symbols : List ExportSymbol) (ip : Nat) : String :=
  ((symbolFor symbols ip).map fun symbol =>
    (strings.fromId symbol.nameId).getD unknown).getD ""

theorem names_of_fromId {self : ExportGraph} {target : Target} {name : String}
    (h : self.strings.fromId target.methodId = some name)
    (hzero : name = "" → target.methodId = 0) : self.Names target name := by
  refine ⟨h, ?_⟩
  rw [Target.hasMethod, bne_eq_false_iff_eq]
  constructor
  · intro hid
    rw [hid, self.undefined] at h
    exact (Option.some.inj h).symm
  · exact hzero

theorem toId_empty (self : ExportGraph) : (self.toId "").1 = 0 := by
  have hfirst := self.undefined
  unfold InternedStrings.fromId at hfirst
  have hmem : "" ∈ self.strings.strings := List.mem_of_getElem? hfirst
  change (insertNew self.strings.strings "").idxOf "" = 0
  rw [insertNew_of_mem hmem]
  obtain ⟨hlt, hget⟩ := List.getElem?_eq_some_iff.mp hfirst
  obtain ⟨first, rest, hrest⟩ := List.exists_cons_of_length_pos hlt
  simp only [hrest, List.getElem_cons_zero] at hget
  rw [hrest, hget, List.idxOf_cons_self]

theorem importMethod_fromId (self : ExportGraph) (strings : InternedStrings)
    (symbols : List ExportSymbol) (ip : Nat) {later : InternedStrings}
    (hlater : (self.importMethod strings symbols ip).2.strings.strings <+: later.strings) :
    later.fromId (self.importMethod strings symbols ip).1 =
        some (methodName strings symbols ip) ∧
      (methodName strings symbols ip = "" → (self.importMethod strings symbols ip).1 = 0) := by
  revert hlater
  unfold importMethod methodName
  cases symbolFor symbols ip with
  | none =>
    exact fun hlater => ⟨InternedStrings.fromId_of_prefix hlater self.undefined, fun _ => rfl⟩
  | some symbol =>
    refine fun hlater => ⟨self.strings.fromId_toId _ hlater, fun hempty => ?_⟩
    rw [Option.map_some, Option.getD_some] at hempty
    dsimp only
    rw [hempty]
    exact self.toId_empty

/-- **Import of an address.** An address in an anonymous mapping gets the name that the symbols
of the mapping give it. -/
theorem importIp_names {hashOrder : HashOrder} {minLookup : Nat} (self : ExportGraph)
    (strings : InternedStrings) {process : ExportProcess} {time ip : Nat}
    {mapping : ProcessMapping}
    (hfind : process.findMapping hashOrder minLookup ip (some time) = .ok (some mapping))
    (hanon : mapping.anon = true) :
    ∃ target graph,
      self.importIp hashOrder minLookup strings process time ip = .ok (target, graph) ∧
      graph.Names target (methodName strings mapping.symbols ip) := by
  rw [importIp, hfind, ok_bind]
  dsimp only
  rw [if_pos hanon, ok_bind]
  refine ⟨_, _, rfl, ?_⟩
  have hmethod := self.importMethod_fromId strings mapping.symbols ip (InternedStrings.prefix_toId
    (self.importMethod strings mapping.symbols ip).2.strings
    (shortName ((strings.fromId mapping.filenameId).getD unknown)))
  exact names_of_fromId hmethod.1 hmethod.2

end ExportGraph

/-! ## Attribution -/

/-- The right name for an address: that of the line that covers it, or none. -/
def RightName (lines : List PerfMapLine) (ip : Nat) (name : String) : Prop :=
  (∀ line ∈ lines, line.Covers ip → name = line.name) ∧
    ((∀ line ∈ lines, ¬ line.Covers ip) → name = "")

/-- A symbol that a mapping already has, with its name. -/
def ExportSymbol.toEntry (strings : InternedStrings) (symbol : ExportSymbol) : SymbolEntry :=
  ⟨symbol.start, symbol.stop, (strings.fromId symbol.nameId).getD unknown, none⟩

/-- What an address of the mapping is looked up in: the symbols the mapping has, then the lines
that hold a user address of it, in the order of the file. -/
def candidates (strings : InternedStrings) (mapping : ProcessMapping) (ips : List Nat)
    (lines : List PerfMapLine) : List SymbolEntry :=
  mapping.symbols.map (ExportSymbol.toEntry strings) ++
    (lines.map PerfMapLine.toEntry).filter (SymbolEntry.Matches ips)

/-- The first candidate that holds the address, its end included, is the line that covers it or
has its name. -/
def FirstIsRight (lines : List PerfMapLine) (entries : List SymbolEntry) (ip : Nat) : Prop :=
  match entries.find? (·.Holds ip) with
  | some first =>
    (∃ line ∈ lines, line.Covers ip ∧ first = line.toEntry) ∨ RightName lines ip first.shownName
  | none => RightName lines ip ""

/-- The ranges of the lines have no address in common. -/
def DisjointLines (lines : List PerfMapLine) : Prop :=
  lines.Pairwise fun a b => ∀ ip, ¬ (a.Covers ip ∧ b.Covers ip)

theorem disjointLines_of_apart {lines : List PerfMapLine}
    (h : lines.Pairwise fun a b => a.start + a.size ≤ b.start ∨ b.start + b.size ≤ a.start) :
    DisjointLines lines := by
  refine h.imp fun hapart ip ⟨ha, hb⟩ => ?_
  unfold PerfMapLine.Covers at ha hb
  omega

theorem rightName_of_covers {lines : List PerfMapLine} {line : PerfMapLine} {ip : Nat}
    (hdisjoint : DisjointLines lines) (hmem : line ∈ lines) (hcovers : line.Covers ip) :
    RightName lines ip line.name := by
  refine ⟨fun other hother hcovers' => ?_, fun hnone => absurd hcovers (hnone line hmem)⟩
  obtain ⟨i, hi⟩ := List.mem_iff_getElem?.mp hmem
  obtain ⟨j, hj⟩ := List.mem_iff_getElem?.mp hother
  rcases Nat.lt_trichotomy i j with hij | rfl | hij
  · exact absurd ⟨hcovers, hcovers'⟩ (pairwise_getElem? hdisjoint hij hi hj ip)
  · exact congrArg _ (Option.some.inj (hi.symm.trans hj))
  · exact absurd ⟨hcovers', hcovers⟩ (pairwise_getElem? hdisjoint hij hj hi ip)

/-- The name of the first candidate that holds the address. -/
def firstName (entries : List SymbolEntry) (ip : Nat) : String :=
  ((entries.find? (·.Holds ip)).map SymbolEntry.shownName).getD ""

theorem rightName_firstName {lines : List PerfMapLine} {entries : List SymbolEntry} {ip : Nat}
    (hdisjoint : DisjointLines lines) :
    RightName lines ip (firstName entries ip) ↔ FirstIsRight lines entries ip := by
  unfold firstName FirstIsRight
  cases entries.find? (·.Holds ip) with
  | none => exact Iff.rfl
  | some first =>
    refine ⟨.inr, ?_⟩
    rintro (⟨line, hmem, hcovers, rfl⟩ | hright)
    · exact rightName_of_covers hdisjoint hmem hcovers
    · exact hright

/-- Symbols added for entries give the name of the first entry. -/
theorem methodName_eq {strings : InternedStrings} {entries : List SymbolEntry}
    {symbols : List ExportSymbol} (h : List.Forall₂ (SymbolEntry.AddedAs strings) entries symbols)
    (ip : Nat) : ExportGraph.methodName strings symbols ip = firstName entries ip := by
  unfold ExportGraph.methodName firstName symbolFor
  induction h with
  | nil => rfl
  | @cons entry symbol entries symbols hhead _ ih =>
    obtain ⟨hstart, hstop, hname⟩ := hhead
    have hsame : decide (ip ≥ symbol.start ∧ ip ≤ symbol.stop) = decide (entry.Holds ip) := by
      rw [hstart, hstop]
      rfl
    rw [List.find?_cons, List.find?_cons, hsame]
    cases decide (entry.Holds ip) with
    | true => rw [Option.map_some, Option.getD_some, hname]; rfl
    | false => exact ih

section Main

variable {search : BinarySearch} {order : AddrOrder} {hashOrder : HashOrder} {minLookup : Nat}
  {process : ExportProcess} {callstacks : InternedCallstacks} {file : TextFile}
  {strings strings' : InternedStrings} {mapping mapping' : ProcessMapping} {time ip : Nat}

/-- The symbols of a mapping after the match are those its addresses are looked up in. -/
theorem methodName_attributed
    (hids : ∀ s ∈ mapping.symbols, s.nameId < strings.strings.length)
    (hmore : strings.strings <+: strings'.strings) {ips : List Nat} {lines : List PerfMapLine}
    (h : mapping.Attributed lines ips strings' mapping') (ip : Nat) :
    ExportGraph.methodName strings' mapping'.symbols ip =
      firstName (candidates strings mapping ips lines) ip := by
  obtain ⟨added, rfl, hadded⟩ := h
  refine methodName_eq (List.rel_append ?_ hadded) ip
  -- a symbol from before keeps its name
  refine List.forall₂_map_left_iff.mpr (List.forall₂_same.mpr fun s hs => ⟨rfl, rfl, ?_⟩)
  have hsome : strings.fromId s.nameId = some (s.toEntry strings).shownName := by
    unfold InternedStrings.fromId ExportSymbol.toEntry SymbolEntry.shownName
      InternedStrings.fromId
    rw [List.getElem?_eq_getElem (hids s hs)]
    rfl
  exact InternedStrings.fromId_of_prefix hmore hsome

namespace ExportProcess

theorem Attributes.toExportMapping
    (h : process.Attributes callstacks file strings mapping mapping') :
    mapping'.toExportMapping = mapping.toExportMapping := by
  cases hanon : mapping.anon with
  | false => rw [h.1 hanon]
  | true =>
    obtain ⟨added, rfl, -⟩ := h.2 hanon
    rfl

theorem map_toExportMapping {before after : List ProcessMapping}
    (h : List.Forall₂ (process.Attributes callstacks file strings) before after) :
    after.map (·.toExportMapping) = before.map (·.toExportMapping) := by
  induction h with
  | nil => rfl
  | cons hhead _ ih => rw [List.map_cons, List.map_cons, ih, hhead.toExportMapping]

/-- The match leaves the answers of `find_mapping` as they are. -/
theorem findMapping_attributes {mappings : List ProcessMapping}
    (h : List.Forall₂ (process.Attributes callstacks file strings) process.mappings mappings)
    (hfind : process.findMapping hashOrder minLookup ip (some time) = .ok (some mapping)) :
    ∃ mapping', findMapping hashOrder minLookup { process with mappings } ip (some time) =
        .ok (some mapping') ∧ process.Attributes callstacks file strings mapping mapping' := by
  obtain ⟨⟨index, lookup⟩, hindex, hget⟩ := bind_eq_ok.mp hfind
  obtain ⟨i, rfl, hi⟩ := Option.bind_eq_some_iff.mp (Except.ok.inj hget)
  obtain ⟨mapping', hi', hattributes⟩ := forall₂_getElem? h.flip hi
  refine ⟨mapping', ?_, hattributes⟩
  unfold findMapping
  dsimp only
  rw [map_toExportMapping h, hindex, ok_bind]
  exact congrArg _ hi'

/-- **Attributed.** After the match with the file, the graph gives the address the right name. -/
def AttributedBy (search : BinarySearch) (order : AddrOrder) (hashOrder : HashOrder)
    (minLookup : Nat) (process : ExportProcess) (callstacks : InternedCallstacks)
    (strings : InternedStrings) (graph : ExportGraph) (file : TextFile) (time ip : Nat) : Prop :=
  ∃ process' strings' target graph' name,
    process.addMatchingAnonSymbols search order (readPerfMap file) callstacks strings =
      .ok (process', strings') ∧
    graph.importIp hashOrder minLookup strings' process' time ip = .ok (target, graph') ∧
    graph'.Names target name ∧ RightName (perfMapLines file) ip name

end ExportProcess

end Main

end OneCollect.Exporting
