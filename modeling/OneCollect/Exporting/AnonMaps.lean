import OneCollect.Exporting.MappingIndex
import OneCollect.Exporting.PerfMap
import OneCollect.Exporting.Recording

/-! The flag of a process with anonymous mappings (`process.rs`). Symbols of generated code are
looked for only where `has_anon_mappings` is set.

`add_mapping` sets the flag. `add_dynamic_symbol_mappings` extends the mappings past it and
`fork` copies them without it, so the flag is sound in every state of a run exactly when no step
of these two kinds brings in an anonymous mapping without it (`anonMaps_sound_iff`). -/

namespace OneCollect.Exporting
open Theory

structure ExportTimeSymbol where
  time : Nat
  symbol : ExportSymbol
  deriving DecidableEq, Repr

/-- A process with its flag and the symbols that wait for a mapping. -/
structure DynamicProcess extends ExportProcess where
  anonMaps : Bool := false
  dynSymbols : List ExportTimeSymbol := []
  deriving DecidableEq, Repr

/-- `page_size_to_mask`. -/
def pageSizeToMask (pageSize : Nat) : Nat := 2 ^ 64 - 1 - (pageSize - 1)

/-- Where a process runs: the build, the page size of the system, and how the mappings are
looked up. -/
structure ProcessHost where
  checks : OverflowChecks
  hashOrder : HashOrder
  minLookup : Nat := 16
  pageSize : Nat := 4096

namespace ProcessHost

def pageMask (host : ProcessHost) : Nat := pageSizeToMask host.pageSize

/-- The last address of the page that holds the address. -/
def pageEnd (host : ProcessHost) (address : Nat) : Exec Nat := do
  let next ← host.checks.addU64 (address &&& host.pageMask) host.pageSize
  host.checks.subU64 next 1

end ProcessHost

/-- `mappings.find_index`. Every mutation of the mappings clears the lookup, so it starts empty. -/
def ExportProcess.findIndex (host : ProcessHost) (self : ExportProcess) (ip : Nat)
    (time : Option Nat) : Exec (Option Nat) := do
  let lookup : ExportMappingLookup :=
    { mappings := self.mappings.map (·.toExportMapping), minLookup := host.minLookup }
  let (index, _) ← lookup.findIndex host.hashOrder ip time
  .ok index

namespace DynamicProcess

def new (pid : Nat) : DynamicProcess := { pid }

def hasAnonMappings (self : DynamicProcess) : Bool := self.anonMaps

def addMapping (self : DynamicProcess) (mapping : ProcessMapping) : DynamicProcess :=
  let self := if mapping.anon then { self with anonMaps := true } else self
  { self with toExportProcess := self.toExportProcess.addMapping mapping }

def addDynamicSymbol (self : DynamicProcess) (symbol : ExportTimeSymbol) : DynamicProcess :=
  { self with dynSymbols := self.dynSymbols ++ [symbol] }

def sortSamplesByTime (self : DynamicProcess) : DynamicProcess :=
  { self with toExportProcess := self.toExportProcess.sortSamplesByTime }

def sortMappingsByTime (self : DynamicProcess) : DynamicProcess :=
  { self with toExportProcess := self.toExportProcess.sortMappingsByTime }

def fork (self : DynamicProcess) (pid : Nat) : DynamicProcess :=
  { toExportProcess := self.toExportProcess.fork pid }

end DynamicProcess

/-! ## Mappings for symbols -/

section Link

variable (host : ProcessHost)

/-- Extend out to the next page if needed. -/
def ProcessMapping.extendTo (self : ProcessMapping) (address : Nat) : Exec ProcessMapping :=
  if self.stop < address then do
    let stop ← host.pageEnd address
    .ok { self with stop }
  else .ok self

/-- An in-progress mapping that holds the start of the symbol takes it in. -/
def ProcessMapping.widen (self : ProcessMapping) (time : Nat) (symbol : ExportSymbol) :
    Exec ProcessMapping := do
  let self := if self.time > time then { self with time } else self
  let self ← self.extendTo host symbol.stop
  .ok (self.addSymbol symbol)

/-- The loop over the in-progress mappings; `none` when it ends without one. -/
def widenFirst (time : Nat) (symbol : ExportSymbol) :
    List ProcessMapping → Exec (Option (List ProcessMapping))
  | [] => .ok none
  | mapping :: dynMappings =>
    if mapping.containsIp symbol.start then do
      let mapping ← mapping.widen host time symbol
      .ok (some (mapping :: dynMappings))
    else do
      let dynMappings ← widenFirst time symbol dynMappings
      .ok (dynMappings.map (mapping :: ·))

/-- The mapping a symbol gets that no mapping holds: the pages it lies on. -/
def dynMapping (time : Nat) (symbol : ExportSymbol) (mapIndex : Nat) : Exec ProcessMapping := do
  let start := symbol.start &&& host.pageMask
  let stop ← host.pageEnd symbol.stop
  .ok { time, start, stop, anon := true, id := mapIndex, unwindType := .Prolog,
        symbols := [symbol] }

/-- The state of the loop over the symbols. -/
structure LinkState where
  process : DynamicProcess
  dynMappings : List ProcessMapping := []
  mapIndex : Nat

/-- One turn: the symbol goes to a mapping of the process, to one in progress, or to a new one. -/
def LinkState.link (self : LinkState) (dynSymbol : ExportTimeSymbol) : Exec LinkState := do
  let time := dynSymbol.time
  let symbol := dynSymbol.symbol
  match ← self.process.findIndex host symbol.start (some time) with
  | some index =>
    let mapping ← getAt self.process.mappings index
    let mappings := self.process.mappings.set index (mapping.addSymbol symbol)
    .ok { self with process := { self.process with mappings } }
  | none =>
    match ← widenFirst host time symbol self.dynMappings with
    | some dynMappings => .ok { self with dynMappings }
    | none =>
      let mapping ← dynMapping host time symbol self.mapIndex
      let mapIndex ← host.checks.addU64 self.mapIndex 1
      .ok { self with dynMappings := self.dynMappings ++ [mapping], mapIndex }

/-- The symbols in the order they are popped: by descending start, from the end. -/
def DynamicProcess.popOrder (self : DynamicProcess) : List ExportTimeSymbol :=
  (self.dynSymbols.insertionSort fun a b => b.symbol.start ≤ a.symbol.start).reverse

def DynamicProcess.addDynamicSymbolMappings (self : DynamicProcess) (mapIndex : Nat) :
    Exec (DynamicProcess × Nat) := do
  let start : LinkState := { process := { self with dynSymbols := [] }, mapIndex }
  let linked ← self.popOrder.foldlM (LinkState.link host) start
  let mappings := linked.process.mappings ++ linked.dynMappings
  .ok ({ linked.process with mappings }, linked.mapIndex)

end Link

/-! ## What a run may do -/

/-- The calls on a process; `fork` goes on with the child, its parent being the state before. -/
inductive ProcessCall where
  | addMapping (mapping : ProcessMapping)
  | addDynamicSymbol (symbol : ExportTimeSymbol)
  | addDynamicSymbolMappings (host : ProcessHost) (mapIndex : Nat)
  | sortSamplesByTime
  | sortMappingsByTime
  | fork (pid : Nat)

def ProcessCall.run (self : DynamicProcess) : ProcessCall → Exec DynamicProcess
  | .addMapping mapping => .ok (self.addMapping mapping)
  | .addDynamicSymbol symbol => .ok (self.addDynamicSymbol symbol)
  | .addDynamicSymbolMappings host mapIndex => do
    let (self, _) ← DynamicProcess.addDynamicSymbolMappings host self mapIndex
    .ok self
  | .sortSamplesByTime => .ok self.sortSamplesByTime
  | .sortMappingsByTime => .ok self.sortMappingsByTime
  | .fork pid => .ok (self.fork pid)

def processSystem : System DynamicProcess ProcessCall :=
  .ofExec (fun s => ∃ pid, s = .new pid) ProcessCall.run

namespace DynamicProcess

/-- Some mapping of the process is anonymous. -/
def HasAnon (self : DynamicProcess) : Prop := ∃ mapping ∈ self.mappings, mapping.anon = true

/-- The flag says so when there is an anonymous mapping. -/
def FlagSound (self : DynamicProcess) : Prop := self.HasAnon → self.hasAnonMappings = true

/-- The symbol starts in a mapping that is there at its time. -/
def Mapped (host : ProcessHost) (self : DynamicProcess) (d : ExportTimeSymbol) : Prop :=
  ∃ index, self.findIndex host d.symbol.start (some d.time) = .ok (some index)

/-- The call brings no anonymous mapping past the flag. -/
def Flagging (self : DynamicProcess) : ProcessCall → Prop
  | .addDynamicSymbolMappings host _ =>
    self.hasAnonMappings = true ∨ ∀ d ∈ self.dynSymbols, self.Mapped host d
  | .fork _ => ¬ self.HasAnon
  | _ => True

end DynamicProcess

/-! ## Linking the symbols -/

section Linking

variable {host : ProcessHost} {d : ExportTimeSymbol}

/-- What a lookup and the flag see of the mappings. -/
def ExportProcess.shape (self : ExportProcess) : List (ExportMapping × Bool) :=
  self.mappings.map fun m => (m.toExportMapping, m.anon)

theorem findIndex_of_shape {p p' : ExportProcess} (h : p.shape = p'.shape) (ip : Nat)
    (time : Option Nat) : p.findIndex host ip time = p'.findIndex host ip time := by
  have hmaps : p.mappings.map (·.toExportMapping) = p'.mappings.map (·.toExportMapping) := by
    have hfst := congrArg (List.map Prod.fst) h
    rw [ExportProcess.shape, ExportProcess.shape, List.map_map, List.map_map] at hfst
    exact hfst
  unfold ExportProcess.findIndex
  rw [hmaps]

/-- A mapping that takes in a symbol looks the same. -/
theorem shape_set {p : ExportProcess} {index : Nat} {mapping : ProcessMapping}
    (h : getAt p.mappings index = .ok mapping) (symbol : ExportSymbol) :
    ExportProcess.shape { p with mappings := p.mappings.set index (mapping.addSymbol symbol) } =
      p.shape := by
  obtain ⟨hlt, hget⟩ := List.getElem?_eq_some_iff.mp (getAt_eq_ok.mp h)
  unfold ExportProcess.shape
  rw [List.map_set]
  refine List.ext_getElem? fun i => ?_
  rw [List.getElem?_set]
  split
  · rename_i hi
    subst hi
    simp [← hget, ProcessMapping.addSymbol, hlt]
  · rfl

theorem hasAnon_iff_shape {p : DynamicProcess} : p.HasAnon ↔ ∃ x ∈ p.shape, x.2 = true := by
  simp [DynamicProcess.HasAnon, ExportProcess.shape]

theorem extendTo_anon {m m' : ProcessMapping} {address : Nat}
    (h : m.extendTo host address = .ok m') : m'.anon = m.anon := by
  unfold ProcessMapping.extendTo at h
  split at h
  · obtain ⟨stop, -, h⟩ := bind_eq_ok.mp h
    exact Except.ok.inj h ▸ rfl
  · exact Except.ok.inj h ▸ rfl

theorem widen_anon {m m' : ProcessMapping} {time : Nat} {symbol : ExportSymbol}
    (h : m.widen host time symbol = .ok m') : m'.anon = m.anon := by
  obtain ⟨extended, hextended, h⟩ := bind_eq_ok.mp h
  obtain rfl := Except.ok.inj h
  refine (extendTo_anon hextended).trans ?_
  split <;> rfl

/-- A symbol that fits into a mapping in progress leaves their number and kind. -/
theorem widenFirst_anon {time : Nat} {symbol : ExportSymbol} {ms ms' : List ProcessMapping}
    (hanon : ∀ m ∈ ms, m.anon = true) (h : widenFirst host time symbol ms = .ok (some ms')) :
    (∀ m ∈ ms', m.anon = true) ∧ ms'.length = ms.length ∧ ms ≠ [] := by
  induction ms generalizing ms' with
  | nil => exact absurd (Except.ok.inj h) (by simp)
  | cons m ms ih =>
    obtain ⟨hm, hms⟩ := List.forall_mem_cons.mp hanon
    unfold widenFirst at h
    split at h
    · obtain ⟨widened, hwidened, h⟩ := bind_eq_ok.mp h
      obtain rfl := Option.some.inj (Except.ok.inj h)
      exact ⟨List.forall_mem_cons.mpr ⟨(widen_anon hwidened).trans hm, hms⟩, rfl,
        List.cons_ne_nil _ _⟩
    · obtain ⟨rest, hrest, h⟩ := bind_eq_ok.mp h
      obtain ⟨rest', rfl, rfl⟩ := Option.map_eq_some_iff.mp (Except.ok.inj h)
      obtain ⟨hall, hlen, -⟩ := ih hms hrest
      exact ⟨List.forall_mem_cons.mpr ⟨hm, hall⟩, congrArg (· + 1) hlen, List.cons_ne_nil _ _⟩

/-- The loop after the symbols of `linked`: the mappings of the process look as they did, and
one is in progress once a symbol was not mapped. -/
structure Linking (host : ProcessHost) (t : DynamicProcess) (linked : List ExportTimeSymbol)
    (s : LinkState) : Prop where
  shape : s.process.shape = t.shape
  flag : s.process.anonMaps = t.anonMaps
  anon : ∀ m ∈ s.dynMappings, m.anon = true
  eq_nil_iff : s.dynMappings = [] ↔ ∀ d ∈ linked, t.Mapped host d

theorem Linking.link {t : DynamicProcess} {linked : List ExportTimeSymbol} {s s' : LinkState}
    (h : Linking host t linked s) (hlink : s.link host d = .ok s') :
    Linking host t (linked ++ [d]) s' := by
  unfold LinkState.link at hlink
  obtain ⟨index, hindex, hlink⟩ := bind_eq_ok.mp hlink
  have hfound : t.findIndex host d.symbol.start (some d.time) = .ok index :=
    (findIndex_of_shape h.shape _ _).symm.trans hindex
  cases index with
  | some index =>
    obtain ⟨mapping, hget, hlink⟩ := bind_eq_ok.mp hlink
    obtain rfl := Except.ok.inj hlink
    refine ⟨(shape_set hget d.symbol).trans h.shape, h.flag, h.anon, ?_⟩
    rw [List.forall_mem_append, List.forall_mem_singleton]
    exact h.eq_nil_iff.trans ⟨fun hall => ⟨hall, index, hfound⟩, And.left⟩
  | none =>
    have hunmapped : ¬ ∀ e ∈ linked ++ [d], t.Mapped host e := by
      intro hall
      obtain ⟨index, hmapped⟩ := hall d (List.mem_append_right _ (List.mem_singleton_self d))
      exact absurd (Except.ok.inj (hfound.symm.trans hmapped)) (by simp)
    obtain ⟨widened, hwidened, hlink⟩ := bind_eq_ok.mp hlink
    cases widened with
    | some dynMappings =>
      obtain rfl := Except.ok.inj hlink
      obtain ⟨hanon, hlen, hne⟩ := widenFirst_anon h.anon hwidened
      have hne' : dynMappings ≠ [] := fun hnil =>
        hne (List.length_eq_zero_iff.mp (hlen.symm.trans (by rw [hnil]; rfl)))
      exact ⟨h.shape, h.flag, hanon, iff_of_false hne' hunmapped⟩
    | none =>
      obtain ⟨mapping, hmapping, hlink⟩ := bind_eq_ok.mp hlink
      obtain ⟨mapIndex, -, hlink⟩ := bind_eq_ok.mp hlink
      obtain ⟨stop, -, hmapping⟩ := bind_eq_ok.mp hmapping
      obtain rfl := Except.ok.inj hmapping
      obtain rfl := Except.ok.inj hlink
      refine ⟨h.shape, h.flag, ?_, iff_of_false (by simp) hunmapped⟩
      rw [List.forall_mem_append, List.forall_mem_singleton]
      exact ⟨h.anon, rfl⟩

theorem Linking.foldlM {t : DynamicProcess} {linked ds : List ExportTimeSymbol}
    {s s' : LinkState} (h : Linking host t linked s)
    (hrun : ds.foldlM (LinkState.link host) s = .ok s') : Linking host t (linked ++ ds) s' := by
  induction ds generalizing linked s with
  | nil => exact (List.append_nil linked).symm ▸ Except.ok.inj hrun ▸ h
  | cons d ds ih =>
    rw [List.foldlM_cons] at hrun
    obtain ⟨s₁, hlink, hrun⟩ := bind_eq_ok.mp hrun
    have := ih (h.link hlink) hrun
    rwa [List.append_assoc] at this

theorem mem_popOrder {t : DynamicProcess} : d ∈ t.popOrder ↔ d ∈ t.dynSymbols := by
  rw [DynamicProcess.popOrder, List.mem_reverse]
  exact (List.perm_insertionSort _ _).mem_iff

/-- The flag stays; an anonymous mapping comes in unless every symbol is mapped already. -/
theorem addDynamicSymbolMappings_anon {t u : DynamicProcess} {mapIndex mapIndex' : Nat}
    (h : t.addDynamicSymbolMappings host mapIndex = .ok (u, mapIndex')) :
    u.hasAnonMappings = t.hasAnonMappings ∧
      (u.HasAnon ↔ t.HasAnon ∨ ¬ ∀ d ∈ t.dynSymbols, t.Mapped host d) := by
  obtain ⟨s, hloop, h⟩ := bind_eq_ok.mp h
  cases h
  have hstart : Linking host t []
      { process := { t with dynSymbols := [] }, mapIndex } :=
    ⟨rfl, rfl, by simp, by simp⟩
  have hend := hstart.foldlM hloop
  have hnil : s.dynMappings = [] ↔ ∀ d ∈ t.dynSymbols, t.Mapped host d := by
    simpa only [List.nil_append, mem_popOrder] using hend.eq_nil_iff
  refine ⟨hend.flag, ?_⟩
  rw [← hnil, hasAnon_iff_shape (p := t), ← hend.shape, ← hasAnon_iff_shape]
  unfold DynamicProcess.HasAnon
  simp only [List.mem_append, or_and_right, exists_or]
  refine or_congr_right ?_
  constructor
  · rintro ⟨m, hm, -⟩
    exact List.ne_nil_of_mem hm
  · intro hne
    obtain ⟨m, hm⟩ := List.exists_mem_of_ne_nil _ hne
    exact ⟨m, hm, hend.anon m hm⟩

end Linking

/-! ## Soundness of the flag -/

/-- **One call.** Over a sound flag, the flag is sound afterwards exactly when the call brings no
anonymous mapping past it. -/
theorem flagSound_run {t u : DynamicProcess} {call : ProcessCall} (h : t.FlagSound)
    (hrun : call.run t = .ok u) : u.FlagSound ↔ t.Flagging call := by
  unfold DynamicProcess.FlagSound at h ⊢
  cases call with
  | addMapping mapping =>
    obtain rfl := Except.ok.inj hrun
    refine iff_of_true ?_ trivial
    rintro ⟨m, hm, hanon⟩
    unfold DynamicProcess.addMapping DynamicProcess.hasAnonMappings at *
    cases hmapping : mapping.anon with
    | true => simp
    | false =>
      simp only [hmapping, Bool.false_eq_true, if_false, ExportProcess.addMapping,
        List.mem_append, List.mem_singleton] at hm ⊢
      rcases hm with hm | rfl
      · exact h ⟨m, hm, hanon⟩
      · exact absurd (hmapping.symm.trans hanon) (by simp)
  | addDynamicSymbol symbol =>
    obtain rfl := Except.ok.inj hrun
    exact iff_of_true h trivial
  | addDynamicSymbolMappings host mapIndex =>
    obtain ⟨⟨u, mapIndex'⟩, hadd, hrun⟩ := bind_eq_ok.mp hrun
    obtain rfl := Except.ok.inj hrun
    obtain ⟨hflag, hanon⟩ := addDynamicSymbolMappings_anon hadd
    rw [hflag, hanon]
    unfold DynamicProcess.Flagging
    by_cases hall : ∀ d ∈ t.dynSymbols, t.Mapped host d
    · exact iff_of_true (fun hor => hor.elim h fun hno => absurd hall hno) (.inr hall)
    · constructor
      · exact fun hflagged => .inl (hflagged (.inr hall))
      · rintro (hset | hmapped)
        · exact fun _ => hset
        · exact absurd hmapped hall
  | sortSamplesByTime =>
    obtain rfl := Except.ok.inj hrun
    exact iff_of_true h trivial
  | sortMappingsByTime =>
    obtain rfl := Except.ok.inj hrun
    refine iff_of_true ?_ trivial
    rintro ⟨m, hm, hanon⟩
    exact h ⟨m, (List.perm_insertionSort _ _).mem_iff.mp hm, hanon⟩
  | fork pid =>
    obtain rfl := Except.ok.inj hrun
    exact ⟨fun hchild hany => absurd (hchild hany) (by simp [DynamicProcess.fork,
      DynamicProcess.hasAnonMappings]), fun hno hany => absurd hany hno⟩

theorem flagSound_new (pid : Nat) : (DynamicProcess.new pid).FlagSound := by
  rintro ⟨m, hm, -⟩
  exact absurd hm (by simp [DynamicProcess.new])

/-- **Anonymous mappings are flagged** in every state of a run, if and only if every call of
`add_dynamic_symbol_mappings` finds the flag set or all its symbols mapped, and every `fork` a
process without an anonymous mapping. -/
theorem anonMaps_sound_iff {s t : DynamicProcess} {calls : List ProcessCall}
    (hs : processSystem.init s) (h : processSystem.Runs s calls t) :
    (∀ before u, before <+: calls → processSystem.Runs s before u → u.FlagSound) ↔
      (processSystem.restrict DynamicProcess.Flagging).Runs s calls t := by
  obtain ⟨pid, rfl⟩ := hs
  exact System.runs_always_iff DynamicProcess.FlagSound (flagSound_new pid)
    (fun _ _ _ ht hrun => flagSound_run ht hrun) h

/-- A page of generated code. -/
def codePage : ProcessMapping := { time := 0, start := 0x1000, stop := 0x1FFF, anon := true }

/-- A process that maps the page and sorts its mappings. -/
theorem anonMaps_sound_codePage :
    ((∀ before u, before <+: [.addMapping codePage, .sortMappingsByTime] →
        processSystem.Runs (.new 1) before u → u.FlagSound) ↔
      (processSystem.restrict DynamicProcess.Flagging).Runs (.new 1)
        [.addMapping codePage, .sortMappingsByTime]
        ((DynamicProcess.new 1).addMapping codePage).sortMappingsByTime) ∧
    (processSystem.restrict DynamicProcess.Flagging).Runs (.new 1)
        [.addMapping codePage, .sortMappingsByTime]
        ((DynamicProcess.new 1).addMapping codePage).sortMappingsByTime := by
  have hadd : (processSystem.restrict DynamicProcess.Flagging).step (.new 1)
      (.addMapping codePage) ((DynamicProcess.new 1).addMapping codePage) := ⟨trivial, rfl⟩
  have hsort : (processSystem.restrict DynamicProcess.Flagging).step
      ((DynamicProcess.new 1).addMapping codePage) .sortMappingsByTime
      ((DynamicProcess.new 1).addMapping codePage).sortMappingsByTime := ⟨trivial, rfl⟩
  have hrestricted := (System.Runs.refl.snoc hadd).snoc hsort
  exact ⟨anonMaps_sound_iff ⟨1, rfl⟩ hrestricted.of_restrict, hrestricted⟩

/-- The child of a process with the page, and a process whose one symbol gets a page of its own,
have an anonymous mapping and no flag. -/
theorem anonMaps_not_sound :
    (∃ t, processSystem.Runs (.new 1) [.addMapping codePage, .fork 2] t ∧ ¬ t.FlagSound) ∧
    ∃ t, processSystem.Runs (.new 1)
      [.addDynamicSymbol ⟨0, ⟨1, 0, 1024⟩⟩,
        .addDynamicSymbolMappings { checks := .on, hashOrder := .inOrder } 0] t ∧
      ¬ t.FlagSound := by
  constructor
  · have hadd : processSystem.step (.new 1) (.addMapping codePage)
        ((DynamicProcess.new 1).addMapping codePage) := rfl
    have hfork : processSystem.step ((DynamicProcess.new 1).addMapping codePage) (.fork 2)
        (((DynamicProcess.new 1).addMapping codePage).fork 2) := rfl
    refine ⟨_, (System.Runs.refl.snoc hadd).snoc hfork, fun hsound => ?_⟩
    exact absurd (hsound ⟨codePage, List.mem_singleton_self _, rfl⟩) (by decide)
  · have hsymbol : processSystem.step (.new 1) (.addDynamicSymbol ⟨0, ⟨1, 0, 1024⟩⟩)
        { pid := 1, dynSymbols := [⟨0, ⟨1, 0, 1024⟩⟩] } := rfl
    have hlink : processSystem.step { pid := 1, dynSymbols := [⟨0, ⟨1, 0, 1024⟩⟩] }
        (.addDynamicSymbolMappings { checks := .on, hashOrder := .inOrder } 0)
        { pid := 1, mappings := [{ time := 0, start := 0, stop := 4095, anon := true,
                                   unwindType := .Prolog, symbols := [⟨1, 0, 1024⟩] }] } := rfl
    refine ⟨_, (System.Runs.refl.snoc hsymbol).snoc hlink, fun hsound => ?_⟩
    exact absurd (hsound ⟨_, List.mem_singleton_self _, rfl⟩) (by decide)

end OneCollect.Exporting
