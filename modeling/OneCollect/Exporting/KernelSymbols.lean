import OneCollect.Exporting.Symbols

/-! Kernel symbols of all processes at once: `os_add_kernel_mappings_with` of `linux.rs`. The
symbols that hold a collected address are kept, and each process looks its addresses up in them.

A symbol is looked up as if its end were not part of it. `kernelMappings_iff` says for which
addresses this makes no difference to a match of every process on its own. -/

namespace OneCollect.Exporting
open Theory

/-! ## The addresses -/

/-- The loop over the frames of a sample, up to the first one in user mode. -/
def insertKernelFrames (addrs : List Nat) : List Nat → List Nat
  | [] => addrs
  | frame :: frames =>
    if frame < kernelStart then addrs else insertKernelFrames (addrs.insert frame) frames

/-- One turn of the loop over the samples. -/
def insertKernelIps (callstacks : InternedCallstacks) (addrs : List Nat)
    (sample : ExportProcessSample) : List Nat :=
  if sample.ip < kernelStart then addrs
  else
    let addrs := addrs.insert sample.ip
    match callstacks.fromId sample.callstackId with
    | some frames => insertKernelFrames addrs frames
    | none => addrs

def ExportProcess.getUniqueKernelIps (self : ExportProcess) (callstacks : InternedCallstacks) :
    List Nat :=
  self.samples.foldl (insertKernelIps callstacks) []

/-! ## The three phases -/

structure CachedKernelSymbol where
  start : Nat
  stop : Nat
  nameId : Nat
  deriving DecidableEq, Repr

/-- Phase 1: the addresses of all processes. -/
def collectAddrs (procs : List ExportProcess) (callstacks : InternedCallstacks) : List Nat :=
  procs.foldl (fun all proc => (proc.getUniqueKernelIps callstacks).foldl (·.insert ·) all) []

section Phases

variable (search : BinarySearch)

/-- Phase 2: the symbols that hold one of the sorted addresses, their ends left out. -/
def matchSymbols (allAddrs : List Nat) :
    InternedStrings → List SymbolEntry → List CachedKernelSymbol × InternedStrings
  | strings, [] => ([], strings)
  | strings, entry :: entries =>
    if search.hit allAddrs entry.start (· < entry.stop) then
      let (nameId, strings) := strings.toId entry.name
      let (matched, strings) := matchSymbols allAddrs strings entries
      (⟨entry.start, entry.stop, nameId⟩ :: matched, strings)
    else matchSymbols allAddrs strings entries

/-- Phase 3, for one address: the symbol whose start is at or below it. -/
def assignSymbol (matched : List CachedKernelSymbol) (state : List Bool × ProcessMapping)
    (addr : Nat) : Exec (List Bool × ProcessMapping) :=
  match search.floor (matched.map (·.start)) addr with
  | none => .ok state
  | some idx => do
    let sym ← getAt matched idx
    let seen ← getAt state.1 idx
    if addr ≥ sym.start ∧ addr < sym.stop ∧ seen = false then
      .ok (state.1.set idx true, state.2.addSymbol ⟨sym.nameId, sym.start, sym.stop⟩)
    else .ok state

/-- The new mapping of a process, without its symbols. -/
def kernelMapping (filenameId id : Nat) : ProcessMapping where
  time := 0
  filenameId := filenameId
  start := kernelStart
  stop := kernelEnd
  id := id

/-- Phase 3: a mapping for each process with a kernel address. -/
def assignSymbols (order : AddrOrder) (callstacks : InternedCallstacks)
    (matched : List CachedKernelSymbol) :
    InternedStrings → Nat → List ExportProcess →
      Exec (List ExportProcess × InternedStrings × Nat)
  | strings, mapIndex, [] => .ok ([], strings, mapIndex)
  | strings, mapIndex, proc :: procs => do
    let addrs := proc.getUniqueKernelIps callstacks
    if addrs = [] then
      let (procs, result) ← assignSymbols order callstacks matched strings mapIndex procs
      .ok (proc :: procs, result)
    else
      let (filenameId, strings) := strings.toId "vmlinux"
      let (_, kernel) ← (order.iter proc addrs).foldlM (assignSymbol search matched)
        (List.replicate matched.length false, kernelMapping filenameId mapIndex)
      let proc := { proc with mappings := proc.mappings ++ [kernel] }
      let (procs, result) ←
        assignSymbols order callstacks matched strings (mapIndex + 1) procs
      .ok (proc :: procs, result)

/-- `os_add_kernel_mappings_with`: the processes, the strings and the map index it leaves. -/
def ExportMachine.osAddKernelMappingsWith (order : AddrOrder) (self : ExportMachine)
    (kernelSymbols : List SymbolEntry) : Exec (List ExportProcess × InternedStrings × Nat) :=
  let allAddrs := collectAddrs self.procs self.callstacks
  if allAddrs = [] then .ok (self.procs, self.strings, self.mapIndex)
  else
    let (matched, strings) := matchSymbols search (allAddrs.insertionSort (· ≤ ·)) self.strings
      kernelSymbols
    assignSymbols search order self.callstacks matched strings self.mapIndex self.procs

end Phases

/-! ## Phase 2 -/

/-- Some collected address is the start of the symbol, or lies behind it before its end. -/
def SymbolEntry.Kept (all : List Nat) (entry : SymbolEntry) : Prop :=
  ∃ a ∈ all, a = entry.start ∨ (entry.start < a ∧ a < entry.stop)

instance (all : List Nat) : DecidablePred (SymbolEntry.Kept all) := fun entry => by
  unfold SymbolEntry.Kept
  infer_instance

/-- The cached symbol of an entry. -/
def SymbolEntry.CachedAs (entry : SymbolEntry) (cached : CachedKernelSymbol) : Prop :=
  cached.start = entry.start ∧ cached.stop = entry.stop

theorem mem_collectAddrs {procs : List ExportProcess} {callstacks : InternedCallstacks} {a : Nat} :
    a ∈ collectAddrs procs callstacks ↔ ∃ p ∈ procs, a ∈ p.getUniqueKernelIps callstacks := by
  have hinsert : ∀ (xs all : List Nat), a ∈ xs.foldl (·.insert ·) all ↔ a ∈ all ∨ a ∈ xs := by
    intro xs
    induction xs with
    | nil => simp
    | cons x xs ih =>
      intro all
      rw [List.foldl_cons, ih, List.mem_insert_iff, List.mem_cons]
      tauto
  have hloop : ∀ (procs : List ExportProcess) (all : List Nat),
      a ∈ procs.foldl (fun all proc =>
        (proc.getUniqueKernelIps callstacks).foldl (·.insert ·) all) all ↔
        a ∈ all ∨ ∃ p ∈ procs, a ∈ p.getUniqueKernelIps callstacks := by
    intro procs
    induction procs with
    | nil => simp
    | cons p procs ih =>
      intro all
      rw [List.foldl_cons, ih, hinsert, or_assoc]
      simp only [List.mem_cons, exists_eq_or_imp]
  rw [collectAddrs, hloop]
  simp

variable {search : BinarySearch}

theorem matchSymbols_kept {all : List Nat} (hs : all.Pairwise (· ≤ ·)) (strings : InternedStrings)
    (entries : List SymbolEntry) :
    List.Forall₂ SymbolEntry.CachedAs (entries.filter (SymbolEntry.Kept all))
      (matchSymbols search all strings entries).1 := by
  induction entries generalizing strings with
  | nil => exact .nil
  | cons entry entries ih =>
    have hhit : search.hit all entry.start (· < entry.stop) = true ↔ entry.Kept all := by
      rw [search.hit_iff hs fun a b hab hb =>
        decide_eq_true (hab.trans_lt (of_decide_eq_true hb))]
      simp only [decide_eq_true_eq]
      rfl
    rw [matchSymbols]
    by_cases hkept : entry.Kept all
    · have hfilter : (entry :: entries).filter (SymbolEntry.Kept all) =
          entry :: entries.filter (SymbolEntry.Kept all) :=
        List.filter_cons_of_pos (decide_eq_true hkept)
      rw [if_pos (hhit.mpr hkept), hfilter]
      exact .cons ⟨rfl, rfl⟩ (ih _)
    · have hfilter : (entry :: entries).filter (SymbolEntry.Kept all) =
          entries.filter (SymbolEntry.Kept all) :=
        List.filter_cons_of_neg fun heq => hkept (of_decide_eq_true heq)
      rw [if_neg (mt hhit.mp hkept), hfilter]
      exact ih _

/-! ## Phase 3 -/

/-- The kept symbol that an address finds. -/
def pick (search : BinarySearch) (matched : List CachedKernelSymbol) (addr : Nat) : Option Nat :=
  (search.floor (matched.map (·.start)) addr).filter fun i =>
    matched[i]?.any fun sym => sym.start ≤ addr && addr < sym.stop

/-- The symbol added for a position. -/
def symbolAt (matched : List CachedKernelSymbol) (i : Nat) : ExportSymbol :=
  match matched[i]? with
  | some sym => ⟨sym.nameId, sym.start, sym.stop⟩
  | none => ⟨0, 0, 0⟩

/-- `seen`, when the positions added are `ids`. -/
def seenOf (n : Nat) (ids : List Nat) : List Bool := (List.range n).map fun i => decide (i ∈ ids)

theorem getElem?_seenOf {n i : Nat} (h : i < n) (ids : List Nat) :
    (seenOf n ids)[i]? = some (decide (i ∈ ids)) := by
  rw [seenOf, List.getElem?_map, List.getElem?_range h]
  rfl

theorem seenOf_set {n i : Nat} (ids : List Nat) :
    (seenOf n ids).set i true = seenOf n (ids ++ [i]) := by
  refine List.ext_getElem? fun j => ?_
  rw [List.getElem?_set]
  by_cases hj : j < n
  · rw [getElem?_seenOf hj, getElem?_seenOf hj]
    by_cases hij : i = j
    · subst hij
      simp [seenOf, hj]
    · have hji : j ≠ i := fun h => hij h.symm
      simp [hij, hji]
  · have hnone : ∀ ids, (seenOf n ids)[j]? = none := fun ids => by
      rw [seenOf, List.getElem?_eq_none]
      simpa using hj
    rw [hnone, hnone]
    split
    next heq =>
      subst heq
      simpa [seenOf] using hj
    next => rfl

section Loop

variable {matched : List CachedKernelSymbol}

theorem pick_eq_some {addr i : Nat} :
    pick search matched addr = some i ↔
      search.floor (matched.map (·.start)) addr = some i ∧
        ∃ sym, matched[i]? = some sym ∧ sym.start ≤ addr ∧ addr < sym.stop := by
  rw [pick, Option.filter_eq_some_iff]
  cases matched[i]? with
  | none => simp
  | some sym => simp

/-- A mapping with the symbols at the positions `ids`. -/
def withSymbols (matched : List CachedKernelSymbol) (base : ProcessMapping) (ids : List Nat) :
    ProcessMapping :=
  { base with symbols := ids.map (symbolAt matched) }

/-- One address adds the symbol it finds, unless it is there. -/
theorem assignSymbol_eq (hs : (matched.map (·.start)).Pairwise (· ≤ ·)) (addr : Nat)
    (ids : List Nat) (base : ProcessMapping) :
    assignSymbol search matched (seenOf matched.length ids, withSymbols matched base ids) addr =
      .ok (seenOf matched.length ((pick search matched addr).toList.foldl insertNew ids),
        withSymbols matched base ((pick search matched addr).toList.foldl insertNew ids)) := by
  unfold assignSymbol
  cases hfloor : search.floor (matched.map (·.start)) addr with
  | none =>
    rw [pick, hfloor]
    rfl
  | some idx =>
    obtain ⟨start, hget, -⟩ := (search.floor_eq_some hs).mp hfloor
    rw [List.getElem?_map, Option.map_eq_some_iff] at hget
    obtain ⟨sym, hsym, -⟩ := hget
    have hlt := (List.getElem?_eq_some_iff.mp hsym).1
    have hsymbol : symbolAt matched idx = ⟨sym.nameId, sym.start, sym.stop⟩ := by
      rw [symbolAt, hsym]
    dsimp only
    rw [getAt_eq_ok.mpr hsym, ok_bind, getAt_eq_ok.mpr (getElem?_seenOf hlt ids), ok_bind]
    by_cases hfound : sym.start ≤ addr ∧ addr < sym.stop
    · have hpick : pick search matched addr = some idx :=
        pick_eq_some.mpr ⟨hfloor, sym, hsym, hfound⟩
      rw [hpick, Option.toList_some, List.foldl_cons, List.foldl_nil]
      by_cases hmem : idx ∈ ids
      · rw [if_neg (by simp [hmem]), insertNew_of_mem hmem]
      · rw [if_pos ⟨hfound.1, hfound.2, decide_eq_false hmem⟩, insertNew_of_not_mem hmem,
          seenOf_set, withSymbols, withSymbols, List.map_append, List.map_singleton, hsymbol]
        rfl
    · have hpick : pick search matched addr = none := by
        refine Option.eq_none_iff_forall_ne_some.mpr fun i hi => hfound ?_
        obtain ⟨hfloor', sym', hsym', hrange⟩ := pick_eq_some.mp hi
        rw [hfloor, Option.some.injEq] at hfloor'
        rw [← hfloor', hsym, Option.some.injEq] at hsym'
        exact hsym' ▸ hrange
      rw [if_neg fun h => hfound ⟨h.1, h.2.1⟩, hpick]
      rfl

/-- **Phase 3.** The symbols added are those found, each once. -/
theorem foldlM_assignSymbol (hs : (matched.map (·.start)).Pairwise (· ≤ ·)) (addrs ids : List Nat)
    (base : ProcessMapping) :
    addrs.foldlM (assignSymbol search matched)
        (seenOf matched.length ids, withSymbols matched base ids) =
      .ok (seenOf matched.length ((addrs.filterMap (pick search matched)).foldl insertNew ids),
        withSymbols matched base
          ((addrs.filterMap (pick search matched)).foldl insertNew ids)) := by
  induction addrs generalizing ids with
  | nil => rfl
  | cons addr addrs ih =>
    have hsplit : (addr :: addrs).filterMap (pick search matched) =
        (pick search matched addr).toList ++ addrs.filterMap (pick search matched) := by
      rw [List.filterMap_cons]
      cases pick search matched addr <;> rfl
    rw [List.foldlM_cons, assignSymbol_eq hs, hsplit, List.foldl_append]
    exact ih _

end Loop

/-! ## The main result -/

/-- The address finds the symbol at position `i` of those kept: the address lies in it but is not
its last one, and it is the last kept symbol from there down; where several start at the address,
it is the one the search answers. -/
structure Finds (search : BinarySearch) (kept : List SymbolEntry) (a i : Nat)
    (entry : SymbolEntry) : Prop where
  entryAt : kept[i]? = some entry
  start_le : entry.start ≤ a
  lt_stop : a < entry.stop
  answered : entry.start = a → search.search (kept.map (·.start)) a = .ok i
  last : entry.start < a → ∀ j e, i < j → kept[j]? = some e → a < e.start

/-- Every address of the process that lies in a symbol lies in one that some address finds. -/
def AllFound (search : BinarySearch) (all ips : List Nat) (reader : List SymbolEntry) : Prop :=
  ∀ ip ∈ ips, (∃ e ∈ reader, e.Holds ip) →
    ∃ a ∈ ips, ∃ i e, Finds search (reader.filter (SymbolEntry.Kept all)) a i e ∧ e.Holds ip

/-- The symbols of the new mapping are those of a match of its process alone, as far as the
process can tell. -/
structure Agrees (search : BinarySearch) (ips : List Nat) (reader : List SymbolEntry)
    (kernel : ProcessMapping) : Prop where
  resolved : ∀ ip ∈ ips, (∃ e ∈ reader, e.Holds ip) → kernel.Resolves ip
  used : ∀ s ∈ kernel.symbols, ∃ ip ∈ ips, s.start ≤ ip ∧ ip ≤ s.stop
  once : (kernel.symbols.map fun s => (s.start, s.stop)).Subperm
    (reader.map fun e => (e.start, e.stop))
  same : ∀ ip ∈ ips, ∀ strings, kernel.Resolves ip ↔
    ∃ mapping strings', ProcessMapping.addMatchingSymbols search { kernel with symbols := [] } ips
      reader strings = .ok (mapping, strings') ∧ mapping.Resolves ip

section Main

variable {reader kept : List SymbolEntry} {matched : List CachedKernelSymbol} {a i : Nat}

theorem map_start_eq (h : List.Forall₂ SymbolEntry.CachedAs kept matched) :
    matched.map (·.start) = kept.map (·.start) := by
  induction h with
  | nil => rfl
  | cons hentry _ ih => rw [List.map_cons, List.map_cons, ih, hentry.1]

theorem map_range_eq (h : List.Forall₂ SymbolEntry.CachedAs kept matched) :
    (List.range matched.length).map (fun i =>
        ((symbolAt matched i).start, (symbolAt matched i).stop)) =
      kept.map fun e => (e.start, e.stop) := by
  refine List.ext_getElem? fun i => ?_
  rw [List.getElem?_map, List.getElem?_map]
  cases hget : matched[i]? with
  | some sym =>
    obtain ⟨entry, hentry, hstart, hstop⟩ := forall₂_getElem? h hget
    have hsymbol : symbolAt matched i = ⟨sym.nameId, sym.start, sym.stop⟩ := by
      rw [symbolAt, hget]
    rw [List.getElem?_range (List.getElem?_eq_some_iff.mp hget).1, hentry, Option.map_some,
      Option.map_some, hsymbol, ← hstart, ← hstop]
  | none =>
    have hlen := List.getElem?_eq_none_iff.mp hget
    rw [List.getElem?_eq_none (by rwa [List.length_range]),
      List.getElem?_eq_none (h.length_eq ▸ hlen)]
    rfl

/-- What is picked is what is found. -/
theorem pick_iff_finds (h : List.Forall₂ SymbolEntry.CachedAs kept matched)
    (hs : (kept.map (·.start)).Pairwise (· ≤ ·)) :
    pick search matched a = some i ↔ ∃ e, Finds search kept a i e := by
  rw [pick_eq_some, map_start_eq h, search.floor_eq_some hs]
  constructor
  · rintro ⟨⟨x, hx, hfound⟩, sym, hsym, hle, hlt⟩
    obtain ⟨entry, hentry, hstart, hstop⟩ := forall₂_getElem? h hsym
    rw [List.getElem?_map, hentry, Option.map_some, Option.some.injEq] at hx
    rw [hstart] at hle
    rw [hstop] at hlt
    refine ⟨entry, hentry, hle, hlt, fun heq => ?_, fun hbelow j e hj he => ?_⟩
    · rcases hfound with ⟨-, hok⟩ | ⟨hne, -⟩
      · exact hok
      · omega
    · rcases hfound with ⟨heq, -⟩ | ⟨-, hlast⟩
      · omega
      · exact hlast j e.start hj (by rw [List.getElem?_map, he]; rfl)
  · rintro ⟨entry, hentry, hle, hlt, hanswered, hlast⟩
    obtain ⟨sym, hsym, hstart, hstop⟩ := forall₂_getElem? h.flip hentry
    refine ⟨⟨entry.start, by rw [List.getElem?_map, hentry]; rfl, ?_⟩, sym, hsym, ?_, ?_⟩
    · rcases Nat.eq_or_lt_of_le hle with heq | hbelow
      · exact .inl ⟨heq, hanswered heq⟩
      · refine .inr ⟨hbelow, fun j y hj hy => ?_⟩
        rw [List.getElem?_map, Option.map_eq_some_iff] at hy
        obtain ⟨e, he, rfl⟩ := hy
        exact hlast hbelow j e hj he
    · rwa [hstart]
    · rwa [hstop]

/-- The symbols of a mapping that was filled by the addresses. -/
theorem mem_withSymbols {addrs : List Nat} {base : ProcessMapping} {s : ExportSymbol}
    (h : List.Forall₂ SymbolEntry.CachedAs kept matched)
    (hs : (kept.map (·.start)).Pairwise (· ≤ ·)) :
    s ∈ (withSymbols matched base (distinct (addrs.filterMap (pick search matched)))).symbols →
      ∃ a ∈ addrs, ∃ i e, Finds search kept a i e ∧ s.start = e.start ∧ s.stop = e.stop := by
  intro hmem
  obtain ⟨i, hi, rfl⟩ := List.mem_map.mp hmem
  obtain ⟨a, ha, hpick⟩ := List.mem_filterMap.mp (mem_distinct.mp hi)
  obtain ⟨entry, hfinds⟩ := (pick_iff_finds h hs).mp hpick
  obtain ⟨sym, hsym, hstart, hstop⟩ := forall₂_getElem? h.flip hfinds.entryAt
  refine ⟨a, ha, i, entry, hfinds, ?_⟩
  rw [symbolAt, hsym]
  exact ⟨hstart, hstop⟩

theorem exists_withSymbols {addrs : List Nat} {base : ProcessMapping} {entry : SymbolEntry}
    (h : List.Forall₂ SymbolEntry.CachedAs kept matched)
    (hs : (kept.map (·.start)).Pairwise (· ≤ ·)) (ha : a ∈ addrs)
    (hfinds : Finds search kept a i entry) :
    ∃ s ∈ (withSymbols matched base (distinct (addrs.filterMap (pick search matched)))).symbols,
      s.start = entry.start ∧ s.stop = entry.stop := by
  obtain ⟨sym, hsym, hstart, hstop⟩ := forall₂_getElem? h.flip hfinds.entryAt
  have hpick := (pick_iff_finds h hs).mpr ⟨entry, hfinds⟩
  refine ⟨symbolAt matched i, List.mem_map.mpr ⟨i, mem_distinct.mpr
    (List.mem_filterMap.mpr ⟨a, ha, hpick⟩), rfl⟩, ?_⟩
  rw [symbolAt, hsym]
  exact ⟨hstart, hstop⟩

/-- **One process.** -/
theorem agrees_iff {all ips addrs : List Nat} {base : ProcessMapping} (hbase : base.Direct)
    (hreader : reader.Pairwise fun a b => a.start ≤ b.start) (hperm : addrs.Perm ips)
    (h : List.Forall₂ SymbolEntry.CachedAs (reader.filter (SymbolEntry.Kept all)) matched) :
    Agrees search ips reader
        (withSymbols matched base (distinct (addrs.filterMap (pick search matched)))) ↔
      AllFound search all ips reader := by
  have hs : ((reader.filter (SymbolEntry.Kept all)).map (·.start)).Pairwise (· ≤ ·) :=
    List.pairwise_map.mpr (hreader.sublist List.filter_sublist)
  have hmem : ∀ {i e}, (reader.filter (SymbolEntry.Kept all))[i]? = some e → e ∈ reader :=
    fun he => (List.mem_filter.mp (List.mem_of_getElem? he)).1
  have hsame : ∀ {ip}, ip ∈ ips → ∀ strings, (∃ mapping strings',
      ProcessMapping.addMatchingSymbols search { base with symbols := [] } ips reader strings =
        .ok (mapping, strings') ∧ mapping.Resolves ip) ↔ ∃ e ∈ reader, e.Holds ip :=
    fun hip strings => @ProcessMapping.addMatchingSymbols_resolves search
      { base with symbols := [] } ⟨hbase.direct, hbase.ordered, hbase.fits⟩ rfl ips _ hip reader
      strings
  constructor
  · intro hagrees ip hip hheld
    obtain ⟨s, hsmem, hrange⟩ := hagrees.resolved ip hip hheld
    obtain ⟨a, ha, i, entry, hfinds, hstart, hstop⟩ := mem_withSymbols h hs hsmem
    exact ⟨a, hperm.mem_iff.mp ha, i, entry, hfinds, hstart ▸ hrange.1, hstop ▸ hrange.2⟩
  · intro hall
    have hresolved : ∀ ip ∈ ips, (∃ e ∈ reader, e.Holds ip) →
        (withSymbols matched base
          (distinct (addrs.filterMap (pick search matched)))).Resolves ip := by
      intro ip hip hheld
      obtain ⟨a, ha, i, entry, hfinds, hholds⟩ := hall ip hip hheld
      obtain ⟨s, hsmem, hstart, hstop⟩ := @exists_withSymbols search (reader.filter _) matched a i
        addrs base entry h hs (hperm.mem_iff.mpr ha) hfinds
      exact ⟨s, hsmem, hstart ▸ hholds.1, hstop ▸ hholds.2⟩
    refine ⟨hresolved, fun s hsmem => ?_, ?_, fun ip hip strings => ?_⟩
    · obtain ⟨a, ha, i, entry, hfinds, hstart, hstop⟩ := mem_withSymbols h hs hsmem
      exact ⟨a, hperm.mem_iff.mp ha, hstart ▸ hfinds.start_le, hstop ▸ le_of_lt hfinds.lt_stop⟩
    · have hsub : distinct (addrs.filterMap (pick search matched)) ⊆
          List.range matched.length := by
        intro i hi
        obtain ⟨a, -, hpick⟩ := List.mem_filterMap.mp (mem_distinct.mp hi)
        obtain ⟨-, sym, hsym, -⟩ := pick_eq_some.mp hpick
        exact List.mem_range.mpr (List.getElem?_eq_some_iff.mp hsym).1
      obtain ⟨positions, hpositions, hsublist⟩ :=
        List.subperm_of_subset (nodup_distinct (addrs.filterMap (pick search matched))) hsub
      have hranges := hsublist.map fun i =>
        ((symbolAt matched i).start, (symbolAt matched i).stop)
      rw [map_range_eq h] at hranges
      rw [withSymbols, List.map_map]
      exact ⟨_, hpositions.map _, hranges.trans (List.filter_sublist.map _)⟩
    · refine Iff.trans ?_ (hsame hip strings).symm
      constructor
      · rintro ⟨s, hsmem, hrange⟩
        obtain ⟨a, -, i, entry, hfinds, hstart, hstop⟩ := mem_withSymbols h hs hsmem
        exact ⟨entry, hmem hfinds.entryAt, hstart ▸ hrange.1, hstop ▸ hrange.2⟩
      · exact hresolved ip hip

end Main

/-- The process after the call. -/
def KernelMapped (search : BinarySearch) (all ips : List Nat) (reader : List SymbolEntry)
    (before after : ExportProcess) : Prop :=
  (ips = [] → after = before) ∧
    (ips ≠ [] → ∃ kernel : ProcessMapping,
      after = { before with mappings := before.mappings ++ [kernel] } ∧
        kernel.start = kernelStart ∧ kernel.stop = kernelEnd ∧
        (Agrees search ips reader kernel ↔ AllFound search all ips reader))

theorem kernelMapping_direct (filenameId id : Nat) : (kernelMapping filenameId id).Direct :=
  ⟨.inr (le_refl _), show kernelStart ≤ kernelEnd by decide,
    show 0 + (kernelEnd - kernelStart) < 2 ^ 64 by decide⟩

/-- The third phase goes through all processes. -/
theorem assignSymbols_mapped {all : List Nat} {reader : List SymbolEntry}
    {matched : List CachedKernelSymbol} (order : AddrOrder) (callstacks : InternedCallstacks)
    (hreader : reader.Pairwise fun a b => a.start ≤ b.start)
    (h : List.Forall₂ SymbolEntry.CachedAs (reader.filter (SymbolEntry.Kept all)) matched)
    (strings : InternedStrings) (mapIndex : Nat) (procs : List ExportProcess) :
    ∃ procs' result,
      assignSymbols search order callstacks matched strings mapIndex procs =
        .ok (procs', result) ∧
      List.Forall₂ (fun before after => KernelMapped search all
        (before.getUniqueKernelIps callstacks) reader before after) procs procs' := by
  have hs : (matched.map (·.start)).Pairwise (· ≤ ·) := by
    rw [map_start_eq h]
    exact List.pairwise_map.mpr (hreader.sublist List.filter_sublist)
  induction procs generalizing strings mapIndex with
  | nil => exact ⟨[], _, rfl, .nil⟩
  | cons proc procs ih =>
    rw [assignSymbols]
    dsimp only
    by_cases hips : proc.getUniqueKernelIps callstacks = []
    · obtain ⟨procs', result, hrun, hmapped⟩ := ih strings mapIndex
      refine ⟨proc :: procs', result, ?_, .cons ⟨fun _ => rfl, fun hne => absurd hips hne⟩
        hmapped⟩
      rw [if_pos hips, hrun]
      rfl
    · obtain ⟨procs', result, hrun, hmapped⟩ := ih (strings.toId "vmlinux").2 (mapIndex + 1)
      have hloop := @foldlM_assignSymbol search matched hs
        (order.iter proc (proc.getUniqueKernelIps callstacks)) []
        (kernelMapping (strings.toId "vmlinux").1 mapIndex)
      have hseen : seenOf matched.length [] = List.replicate matched.length false := by
        rw [seenOf, List.eq_replicate_iff]
        simp
      have hstart : withSymbols matched (kernelMapping (strings.toId "vmlinux").1 mapIndex) [] =
          kernelMapping (strings.toId "vmlinux").1 mapIndex := rfl
      rw [hseen, hstart] at hloop
      rw [if_neg hips, hloop]
      change ∃ procs' result, (assignSymbols search order callstacks matched
        (strings.toId "vmlinux").2 (mapIndex + 1) procs >>= _) = _ ∧ _
      rw [hrun]
      refine ⟨_, _, rfl, .cons ⟨fun heq => absurd heq hips, fun _ => ⟨_, rfl, rfl, rfl, ?_⟩⟩
        hmapped⟩
      exact agrees_iff (kernelMapping_direct _ _) hreader (order.perm _ _) h

end OneCollect.Exporting
