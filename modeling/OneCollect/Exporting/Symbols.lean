import OneCollect.Exporting.Machine
import OneCollect.Theory.Pointwise
import OneCollect.Theory.Search

/-! Matching symbols to a mapping (`mappings.rs`): a symbol is added when its range holds one of
the sampled addresses.

For an anonymous or a kernel mapping the ranges of the reader are those of the symbols, and
`addMatchingSymbols_direct` says which symbols are added. For a mapping of a file a range is cut at
the ends of the mapping and moved to it (`fileToVaRange_image`); `addMatchingSymbols_hits` is about
all mappings. -/

namespace OneCollect.Exporting
open Theory

/-- The order in which a `HashSet` of addresses is iterated: any order, free to depend on the
process it is collected for. -/
structure AddrOrder where
  iter : ExportProcess → List Nat → List Nat
  perm : ∀ process set, (iter process set).Perm set

/-- What an `ExportSymbolReader` yields in one turn. -/
structure SymbolEntry where
  start : Nat
  stop : Nat
  name : String
  demangled : Option String := none
  deriving DecidableEq, Repr

namespace ProcessMapping

def addSymbol (self : ProcessMapping) (symbol : ExportSymbol) : ProcessMapping :=
  { self with symbols := self.symbols ++ [symbol] }

def fileToVaRange (self : ProcessMapping) (fileStart fileEnd : Nat) : Exec (Option (Nat × Nat)) := do
  let mapFileStart := self.fileOffset
  let len ← subU64 self.stop self.start
  let mapFileEnd ← addU64 mapFileStart len
  if self.anon ∨ self.start ≥ kernelStart then .ok (some (fileStart, fileEnd))
  else if fileEnd < mapFileStart ∨ fileStart > mapFileEnd then .ok none
  else do
    let fileStart := if fileStart < mapFileStart then mapFileStart else fileStart
    let fileEnd := if fileEnd > mapFileEnd then mapFileEnd else fileEnd
    let fileLen ← subU64 fileEnd fileStart
    let fileOffset ← subU64 fileStart mapFileStart
    let vaOffsetStart ← addU64 fileOffset self.start
    let vaOffsetEnd ← addU64 vaOffsetStart fileLen
    .ok (some (vaOffsetStart, vaOffsetEnd))

section Match

variable (search : BinarySearch)

/-- One turn of the loop over the symbols; `uniqueIps` is sorted. -/
def addIfMatching (uniqueIps : List Nat) (self : ProcessMapping) (strings : InternedStrings)
    (entry : SymbolEntry) : Exec (ProcessMapping × InternedStrings) := do
  match ← self.fileToVaRange entry.start entry.stop with
  | some (startIp, endIp) =>
    if search.hit uniqueIps startIp (· ≤ endIp) then
      let (nameId, strings) := strings.toId (entry.demangled.getD entry.name)
      .ok (self.addSymbol ⟨nameId, startIp, endIp⟩, strings)
    else .ok (self, strings)
  | none => .ok (self, strings)

def addEntries (uniqueIps : List Nat) :
    ProcessMapping → InternedStrings → List SymbolEntry → Exec (ProcessMapping × InternedStrings)
  | self, strings, [] => .ok (self, strings)
  | self, strings, entry :: entries => do
    let (self, strings) ← self.addIfMatching search uniqueIps strings entry
    addEntries uniqueIps self strings entries

def addMatchingSymbols (self : ProcessMapping) (uniqueIps : List Nat) (reader : List SymbolEntry)
    (strings : InternedStrings) : Exec (ProcessMapping × InternedStrings) :=
  self.addEntries search (uniqueIps.insertionSort (· ≤ ·)) strings reader

end Match

/-! ## Mappings whose symbols are given by address -/

/-- The mapping is anonymous or of the kernel, and its end is within the words of the machine. -/
structure Direct (mapping : ProcessMapping) : Prop where
  direct : mapping.anon = true ∨ mapping.start ≥ kernelStart
  ordered : mapping.start ≤ mapping.stop
  fits : mapping.fileOffset + (mapping.stop - mapping.start) < 2 ^ 64

theorem fileToVaRange_direct {self : ProcessMapping} (h : self.Direct) (fileStart fileEnd : Nat) :
    self.fileToVaRange fileStart fileEnd = .ok (some (fileStart, fileEnd)) := by
  rw [fileToVaRange, subU64_eq_ok.mpr ⟨h.ordered, rfl⟩, ok_bind,
    addU64_eq_ok.mpr ⟨h.fits, rfl⟩, ok_bind, if_pos h.direct]

theorem fits_of_fileToVaRange {self : ProcessMapping} {fileStart fileEnd : Nat}
    {range : Option (Nat × Nat)} (h : self.fileToVaRange fileStart fileEnd = .ok range) :
    self.fileOffset + (self.stop - self.start) < 2 ^ 64 := by
  obtain ⟨len, hlen, h⟩ := bind_eq_ok.mp h
  obtain ⟨mapFileEnd, hend, -⟩ := bind_eq_ok.mp h
  obtain ⟨-, rfl⟩ := subU64_eq_ok.mp hlen
  exact (addU64_eq_ok.mp hend).1

end ProcessMapping

/-- Some address is the start of the range, or lies behind it up to its end. -/
def SymbolEntry.Matches (ips : List Nat) (entry : SymbolEntry) : Prop :=
  ∃ a ∈ ips, a = entry.start ∨ (entry.start < a ∧ a ≤ entry.stop)

instance (ips : List Nat) : DecidablePred (SymbolEntry.Matches ips) := fun entry => by
  unfold SymbolEntry.Matches
  infer_instance

theorem SymbolEntry.filter_matches_perm {ips ips' : List Nat} (h : ips.Perm ips')
    (reader : List SymbolEntry) :
    reader.filter (SymbolEntry.Matches ips) = reader.filter (SymbolEntry.Matches ips') := by
  refine List.filter_congr fun entry _ => ?_
  simp only [SymbolEntry.Matches, h.mem_iff]

/-- The address lies in the range, its end included. -/
def SymbolEntry.Holds (entry : SymbolEntry) (ip : Nat) : Prop :=
  entry.start ≤ ip ∧ ip ≤ entry.stop

/-- A range that holds one of the addresses matches. -/
theorem SymbolEntry.Holds.matches {entry : SymbolEntry} {ip : Nat} {ips : List Nat}
    (h : entry.Holds ip) (hip : ip ∈ ips) : entry.Matches ips := by
  refine ⟨ip, hip, ?_⟩
  rcases Nat.eq_or_lt_of_le h.1 with heq | hlt
  · exact .inl heq.symm
  · exact .inr ⟨hlt, h.2⟩

instance (entry : SymbolEntry) (ip : Nat) : Decidable (entry.Holds ip) :=
  inferInstanceAs (Decidable (_ ∧ _))

def ProcessMapping.Resolves (mapping : ProcessMapping) (ip : Nat) : Prop :=
  ∃ s ∈ mapping.symbols, s.start ≤ ip ∧ ip ≤ s.stop

/-- The name a symbol is added under. -/
def SymbolEntry.shownName (entry : SymbolEntry) : String := entry.demangled.getD entry.name

/-- The symbol was added for the entry; its name is read back from the table. -/
def SymbolEntry.AddedAs (strings : InternedStrings) (entry : SymbolEntry) (symbol : ExportSymbol) :
    Prop :=
  symbol.start = entry.start ∧ symbol.stop = entry.stop ∧
    strings.fromId symbol.nameId = some entry.shownName

/-- The symbol was added for the entry, at the range that goes with it. -/
def SymbolEntry.AddedAt (strings : InternedStrings) (hit : SymbolEntry × Nat × Nat)
    (symbol : ExportSymbol) : Prop :=
  symbol.start = hit.2.1 ∧ symbol.stop = hit.2.2 ∧
    strings.fromId symbol.nameId = some hit.1.shownName

theorem SymbolEntry.AddedAs.later {strings later : InternedStrings} {entry : SymbolEntry}
    {symbol : ExportSymbol} (h : entry.AddedAs strings symbol)
    (hlater : strings.strings <+: later.strings) : entry.AddedAs later symbol :=
  ⟨h.1, h.2.1, InternedStrings.fromId_of_prefix hlater h.2.2⟩

namespace ProcessMapping

variable {search : BinarySearch}

/-- The search finds an address at the start of a range, or behind it up to its end. -/
theorem hit_iff_matches (search : BinarySearch) {ips : List Nat} (hs : ips.Pairwise (· ≤ ·))
    (start stop : Nat) : search.hit ips start (· ≤ stop) = true ↔
      ∃ a ∈ ips, a = start ∨ (start < a ∧ a ≤ stop) := by
  rw [search.hit_iff hs fun a b hab hb => decide_eq_true (hab.trans (of_decide_eq_true hb))]
  simp only [decide_eq_true_eq]

/-- **One pass.** The symbols added are those of the entries whose ranges are hit, in order. -/
theorem addEntries_ranges {ips : List Nat} {self : ProcessMapping}
    {ranges : SymbolEntry → Option (Nat × Nat)} {reader : List SymbolEntry}
    (hranges : ∀ e ∈ reader, self.fileToVaRange e.start e.stop = .ok (ranges e))
    (strings : InternedStrings) :
    ∃ added strings', self.addEntries search ips strings reader =
        .ok ({ self with symbols := self.symbols ++ added }, strings') ∧
      strings.strings <+: strings'.strings ∧
      List.Forall₂ (SymbolEntry.AddedAt strings')
        (reader.filterMap fun e => ((ranges e).filter fun range =>
          search.hit ips range.1 (· ≤ range.2)).map (e, ·)) added := by
  induction reader generalizing self strings with
  | nil =>
    refine ⟨[], strings, ?_, List.prefix_refl _, .nil⟩
    rw [addEntries, List.append_nil]
  | cons entry reader ih =>
    obtain ⟨hentry, hreader⟩ := List.forall_mem_cons.mp hranges
    rw [addEntries, addIfMatching, hentry, ok_bind, List.filterMap_cons]
    cases hrange : ranges entry with
    | none => exact ih hreader strings
    | some range =>
      by_cases hhit : search.hit ips range.1 (· ≤ range.2) = true
      · -- the range of an entry does not depend on the symbols already there
        obtain ⟨added, strings', hrun, hprefix, hadded⟩ :=
          @ih (self.addSymbol ⟨(strings.toId entry.shownName).1, range.1, range.2⟩) hreader
            (strings.toId entry.shownName).2
        refine ⟨⟨(strings.toId entry.shownName).1, range.1, range.2⟩ :: added, strings', ?_,
          (strings.prefix_toId _).trans hprefix, ?_⟩
        · dsimp only
          rw [if_pos hhit, ok_bind]
          refine hrun.trans ?_
          rw [addSymbol, List.append_assoc]
          rfl
        · rw [Option.filter_some, if_pos hhit]
          exact .cons ⟨rfl, rfl, strings.fromId_toId _ hprefix⟩ hadded
      · obtain ⟨added, strings', hrun, hprefix, hadded⟩ := ih hreader strings
        refine ⟨added, strings', ?_, hprefix, ?_⟩
        · dsimp only
          rw [if_neg hhit, ok_bind]
          exact hrun
        · rw [Option.filter_some, if_neg hhit]
          exact hadded

/-- **Symbols by address.** The symbols added are those of the matching entries, in order. -/
theorem addEntries_direct {ips : List Nat} (hs : ips.Pairwise (· ≤ ·)) {self : ProcessMapping}
    (h : self.Direct) (strings : InternedStrings) (reader : List SymbolEntry) :
    ∃ added strings', self.addEntries search ips strings reader =
        .ok ({ self with symbols := self.symbols ++ added }, strings') ∧
      strings.strings <+: strings'.strings ∧
      List.Forall₂ (SymbolEntry.AddedAs strings') (reader.filter (SymbolEntry.Matches ips))
        added := by
  obtain ⟨added, strings', hrun, hprefix, hadded⟩ := @addEntries_ranges search ips self
    (fun e => some (e.start, e.stop)) reader (fun e _ => fileToVaRange_direct h e.start e.stop)
    strings
  refine ⟨added, strings', hrun, hprefix, ?_⟩
  have hhits : (reader.filterMap fun e => ((some (e.start, e.stop)).filter fun range =>
      search.hit ips range.1 (· ≤ range.2)).map (e, ·)) =
        (reader.filter (SymbolEntry.Matches ips)).map fun e => (e, e.start, e.stop) := by
    rw [← List.filterMap_eq_map, ← List.filterMap_eq_filter, List.filterMap_filterMap]
    refine List.filterMap_congr fun e _ => ?_
    have hhit := hit_iff_matches search hs e.start e.stop
    by_cases hmatch : e.Matches ips
    · simp [Option.filter_some, hhit.mpr hmatch, hmatch, Option.guard]
    · simp [Option.filter_some, mt hhit.mp hmatch, hmatch, Option.guard]
  rw [hhits, List.forall₂_map_left_iff] at hadded
  exact hadded

theorem addMatchingSymbols_direct {self : ProcessMapping} (h : self.Direct) (ips : List Nat)
    (reader : List SymbolEntry) (strings : InternedStrings) :
    ∃ added strings', self.addMatchingSymbols search ips reader strings =
        .ok ({ self with symbols := self.symbols ++ added }, strings') ∧
      strings.strings <+: strings'.strings ∧
      List.Forall₂ (SymbolEntry.AddedAs strings') (reader.filter (SymbolEntry.Matches ips))
        added := by
  have hperm := List.perm_insertionSort (· ≤ ·) ips
  obtain ⟨added, strings', hrun, hprefix, hadded⟩ :=
    @addEntries_direct search _ (List.pairwise_insertionSort (· ≤ ·) ips) self h strings reader
  refine ⟨added, strings', hrun, hprefix, ?_⟩
  rwa [SymbolEntry.filter_matches_perm hperm] at hadded

/-- Of the addresses matched, those in the range of an entry are resolved. -/
theorem addMatchingSymbols_resolves {self : ProcessMapping} (h : self.Direct)
    (hnone : self.symbols = []) {ips : List Nat} {ip : Nat} (hip : ip ∈ ips)
    (reader : List SymbolEntry) (strings : InternedStrings) :
    (∃ mapping strings', self.addMatchingSymbols search ips reader strings =
        .ok (mapping, strings') ∧ mapping.Resolves ip) ↔ ∃ e ∈ reader, e.Holds ip := by
  obtain ⟨added, strings', hrun, -, hadded⟩ :=
    @addMatchingSymbols_direct search self h ips reader strings
  rw [hnone, List.nil_append] at hrun
  constructor
  · rintro ⟨mapping, strings'', hrun', s, hs, hrange⟩
    rw [hrun, Except.ok.injEq, Prod.mk.injEq] at hrun'
    rw [← hrun'.1] at hs
    obtain ⟨entry, hentry, hstart, hstop, -⟩ := forall₂_mem_right hadded hs
    exact ⟨entry, (List.mem_filter.mp hentry).1, hstart ▸ hrange.1, hstop ▸ hrange.2⟩
  · rintro ⟨entry, hentry, hholds⟩
    have hmem : entry ∈ reader.filter (SymbolEntry.Matches ips) :=
      List.mem_filter.mpr ⟨hentry, decide_eq_true (hholds.matches hip)⟩
    obtain ⟨s, hs, hstart, hstop, -⟩ := forall₂_mem_left hadded hmem
    exact ⟨_, strings', hrun, s, hs, hstart ▸ hholds.1, hstop ▸ hholds.2⟩

/-! ## Mappings of a file -/

/-- The mapping is no longer than the words of the machine, where it is and in the file. -/
structure InWords (mapping : ProcessMapping) : Prop where
  ordered : mapping.start ≤ mapping.stop
  fits : mapping.fileOffset + (mapping.stop - mapping.start) < 2 ^ 64

/-- The addresses of the range are those of the positions of the entry that are mapped. -/
def IsImage (mapping : ProcessMapping) (entry : SymbolEntry) (range : Option (Nat × Nat)) : Prop :=
  ∀ address, (∃ r, range = some r ∧ r.1 ≤ address ∧ address ≤ r.2) ↔
    ∃ position, (entry.start ≤ position ∧ position ≤ entry.stop) ∧
      (mapping.fileOffset ≤ position ∧
        position ≤ mapping.fileOffset + (mapping.stop - mapping.start)) ∧
      address = position - mapping.fileOffset + mapping.start

/-- The entries that are hit, with their ranges. -/
def hits (self : ProcessMapping) (ips : List Nat) (reader : List SymbolEntry) :
    List (SymbolEntry × Nat × Nat) :=
  reader.filterMap fun entry =>
    match self.fileToVaRange entry.start entry.stop with
    | .ok (some range) => if ∃ ip ∈ ips, range.1 ≤ ip ∧ ip ≤ range.2 then some (entry, range) else none
    | _ => none

section FileRanges

variable {self : ProcessMapping} {fileStart fileEnd : Nat} {range : Option (Nat × Nat)}

/-- The range in the file, cut at the ends of the mapping, and moved to the mapping. -/
theorem fileToVaRange_user (h : self.InWords) (hstop : self.stop < 2 ^ 64) (hanon : self.anon = false)
    (huser : self.start < kernelStart) (hrange : fileStart ≤ fileEnd) :
    self.fileToVaRange fileStart fileEnd =
      .ok (if fileEnd < self.fileOffset ∨ fileStart > self.fileOffset + (self.stop - self.start) then none
        else some (max fileStart self.fileOffset - self.fileOffset + self.start,
          min fileEnd (self.fileOffset + (self.stop - self.start)) - self.fileOffset + self.start)) := by
  obtain ⟨hordered, hfits⟩ := h
  have hdirect : ¬ (self.anon ∨ self.start ≥ kernelStart) := by
    rw [hanon]
    exact fun hdirect => hdirect.elim (fun h => nomatch h) fun hkernel => by omega
  rw [fileToVaRange, subU64_eq_ok.mpr ⟨hordered, rfl⟩, ok_bind, addU64_eq_ok.mpr ⟨hfits, rfl⟩, ok_bind,
    if_neg hdirect]
  by_cases hout : fileEnd < self.fileOffset ∨
      fileStart > self.fileOffset + (self.stop - self.start)
  · rw [if_pos hout, if_pos hout]
  · rw [if_neg hout, if_neg hout]
    have hstart : (if fileStart < self.fileOffset then self.fileOffset else fileStart) =
        max fileStart self.fileOffset := by
      split <;> omega
    have hend : (if fileEnd > self.fileOffset + (self.stop - self.start) then
        self.fileOffset + (self.stop - self.start) else fileEnd) =
          min fileEnd (self.fileOffset + (self.stop - self.start)) := by
      split <;> omega
    rw [hstart, hend]
    dsimp only
    rw [subU64_eq_ok.mpr ⟨by omega, rfl⟩, ok_bind, subU64_eq_ok.mpr ⟨by omega, rfl⟩,
      ok_bind, addU64_eq_ok.mpr ⟨by omega, rfl⟩, ok_bind, addU64_eq_ok.mpr ⟨by omega, rfl⟩, ok_bind]
    congr 3
    omega

theorem inWords_of_fileToVaRange (h : self.fileToVaRange fileStart fileEnd = .ok range) :
    self.InWords := by
  refine ⟨?_, fits_of_fileToVaRange h⟩
  obtain ⟨len, hlen, -⟩ := bind_eq_ok.mp h
  exact (subU64_eq_ok.mp hlen).1

theorem fileToVaRange_isOk (hstop : self.stop < 2 ^ 64) (hrange : fileStart ≤ fileEnd) :
    (∃ range, self.fileToVaRange fileStart fileEnd = .ok range) ↔ self.InWords := by
  refine ⟨fun ⟨range, h⟩ => inWords_of_fileToVaRange h, fun h => ?_⟩
  by_cases hdirect : self.anon = true ∨ self.start ≥ kernelStart
  · exact ⟨_, fileToVaRange_direct ⟨hdirect, h.ordered, h.fits⟩ fileStart fileEnd⟩
  · obtain ⟨hanon, huser⟩ := not_or.mp hdirect
    exact ⟨_, fileToVaRange_user h hstop (by simpa using hanon) (by omega) hrange⟩

theorem fileToVaRange_image (hstop : self.stop < 2 ^ 64) (hanon : self.anon = false)
    (huser : self.start < kernelStart) {entry : SymbolEntry} (hentry : entry.start ≤ entry.stop)
    (h : self.fileToVaRange entry.start entry.stop = .ok range) : self.IsImage entry range := by
  have hwords := inWords_of_fileToVaRange h
  rw [fileToVaRange_user hwords hstop hanon huser hentry] at h
  cases h
  intro address
  split
  · refine iff_of_false (fun ⟨_, hnone, _⟩ => nomatch hnone) ?_
    rintro ⟨position, hentry, hmapped, -⟩
    omega
  · constructor
    · rintro ⟨r, hr, hfrom, hto⟩
      cases hr
      dsimp only at hfrom hto
      exact ⟨address - self.start + self.fileOffset, by omega, by omega, by omega⟩
    · rintro ⟨position, hentry, hmapped, rfl⟩
      refine ⟨_, rfl, ?_, ?_⟩ <;> dsimp only <;> omega

/-- A range that is given starts before it ends. -/
theorem ordered_of_fileToVaRange (hstop : self.stop < 2 ^ 64) (hrange : fileStart ≤ fileEnd)
    {r : Nat × Nat} (h : self.fileToVaRange fileStart fileEnd = .ok (some r)) : r.1 ≤ r.2 := by
  have hwords := inWords_of_fileToVaRange h
  by_cases hdirect : self.anon = true ∨ self.start ≥ kernelStart
  · rw [fileToVaRange_direct ⟨hdirect, hwords.ordered, hwords.fits⟩] at h
    cases h
    exact hrange
  · obtain ⟨hanon, huser⟩ := not_or.mp hdirect
    rw [fileToVaRange_user hwords hstop (by simpa using hanon) (by omega) hrange] at h
    split at h
    · cases h
    · cases h
      dsimp only
      omega

end FileRanges

section Hits

variable {self : ProcessMapping} {reader : List SymbolEntry}

/-- The pass over the entries takes those that are hit. -/
theorem addMatchingSymbols_ok (hstop : self.stop < 2 ^ 64)
    (hreader : ∀ entry ∈ reader, entry.start ≤ entry.stop) (hwords : reader = [] ∨ self.InWords)
    (ips : List Nat) (strings : InternedStrings) :
    ∃ added strings', self.addMatchingSymbols search ips reader strings =
        .ok ({ self with symbols := self.symbols ++ added }, strings') ∧
      List.Forall₂ (SymbolEntry.AddedAt strings') (self.hits ips reader) added := by
  have hranges : ∀ e ∈ reader, ∃ range, self.fileToVaRange e.start e.stop = .ok range := by
    intro e he
    obtain rfl | hwords := hwords
    · cases he
    · exact (fileToVaRange_isOk hstop (hreader e he)).mpr hwords
  let ranges (e : SymbolEntry) : Option (Nat × Nat) :=
    match self.fileToVaRange e.start e.stop with
    | .ok range => range
    | .error _ => none
  have hok : ∀ e ∈ reader, self.fileToVaRange e.start e.stop = .ok (ranges e) := by
    intro e he
    obtain ⟨range, hrange⟩ := hranges e he
    simp only [ranges, hrange]
  obtain ⟨added, strings', hrun, -, hadded⟩ := @addEntries_ranges search
    (ips.insertionSort (· ≤ ·)) self ranges reader hok strings
  refine ⟨added, strings', hrun, ?_⟩
  convert hadded using 1
  refine List.filterMap_congr fun e he => ?_
  rw [hok e he]
  cases hrange : ranges e with
  | none => rfl
  | some range =>
    have hordered := ordered_of_fileToVaRange hstop (hreader e he) (hrange ▸ hok e he)
    have hhit : search.hit (ips.insertionSort (· ≤ ·)) range.1 (· ≤ range.2) = true ↔
        ∃ ip ∈ ips, range.1 ≤ ip ∧ ip ≤ range.2 := by
      rw [hit_iff_matches search (List.pairwise_insertionSort (· ≤ ·) ips)]
      simp only [(List.perm_insertionSort (· ≤ ·) ips).mem_iff]
      refine exists_congr fun ip => and_congr_right fun _ => ?_
      omega
    by_cases hin : ∃ ip ∈ ips, range.1 ≤ ip ∧ ip ≤ range.2
    · simp only [if_pos hin, Option.filter_some, if_pos (hhit.mpr hin)]
      rfl
    · simp only [if_neg hin, Option.filter_some, if_neg (mt hhit.mp hin)]
      rfl

/-- **Symbols are matched by address.** The call returns where there is nothing to read or the mapping
is within words. The symbols added are those of the entries that are hit, in order, each with its
range; for a mapping of a file the range is where the mapped part of the entry is. -/
theorem addMatchingSymbols_hits (self : ProcessMapping) (hstop : self.stop < 2 ^ 64) (ips : List Nat)
    (reader : List SymbolEntry) (hreader : ∀ entry ∈ reader, entry.start ≤ entry.stop)
    (search : BinarySearch) (strings : InternedStrings) :
    ((∃ out, self.addMatchingSymbols search ips reader strings = .ok out) ↔
        reader = [] ∨ self.InWords) ∧
      (∀ mapping strings', self.addMatchingSymbols search ips reader strings =
        .ok (mapping, strings') → ∃ added,
          mapping = { self with symbols := self.symbols ++ added } ∧
          List.Forall₂ (SymbolEntry.AddedAt strings') (self.hits ips reader) added) ∧
      (self.anon = false → self.start < kernelStart → ∀ entry ∈ reader, ∀ range,
        self.fileToVaRange entry.start entry.stop = .ok range → self.IsImage entry range) := by
  have hreturns : (∃ out, self.addMatchingSymbols search ips reader strings = .ok out) →
      reader = [] ∨ self.InWords := by
    rintro ⟨out, hrun⟩
    cases reader with
    | nil => exact Or.inl rfl
    | cons entry reader =>
      obtain ⟨_, hentry, -⟩ := bind_eq_ok.mp hrun
      obtain ⟨range, hrange, -⟩ := bind_eq_ok.mp hentry
      exact Or.inr (inWords_of_fileToVaRange hrange)
  refine ⟨⟨hreturns, fun hwords => ?_⟩, fun mapping strings' hrun => ?_, fun hanon huser entry hentry
    range hrange => fileToVaRange_image hstop hanon huser (hreader entry hentry) hrange⟩
  · obtain ⟨added, strings', hrun, -⟩ := @addMatchingSymbols_ok search self reader hstop hreader
      hwords ips strings
    exact ⟨_, hrun⟩
  · obtain ⟨added, strings'', hrun', hadded⟩ := @addMatchingSymbols_ok search self reader hstop hreader
      (hreturns ⟨_, hrun⟩) ips strings
    cases hrun.symm.trans hrun'
    exact ⟨added, rfl, hadded⟩

/-- A page of a file, from its second kilobyte on. -/
def fileMapping : ProcessMapping :=
  { time := 0, start := 4096, stop := 8192, fileOffset := 1024, anon := false, id := 0,
    unwindType := .Prolog }

def symbolAtEnd : SymbolEntry := { start := 1828, stop := 1927, name := "symbol_at_end" }

/-- A symbol that only an address at its last byte hits. -/
theorem addMatchingSymbols_hits_atEnd :
    (∃ out, fileMapping.addMatchingSymbols .first [8500, 4999] [symbolAtEnd] {} = .ok out) ∧
      fileMapping.hits [8500, 4999] [symbolAtEnd] = [(symbolAtEnd, 4900, 4999)] :=
  ⟨(addMatchingSymbols_hits fileMapping (by decide) _ _ (by decide) .first {}).1.mpr
    (.inr ⟨by decide, by decide⟩), by decide +kernel⟩

end Hits

end ProcessMapping

end OneCollect.Exporting
