import OneCollect.Ruwind.ElfTables
import OneCollect.Theory.Attempts
import OneCollect.Theory.Text

/-! The symbols of an ELF file, both as `get_symbols` passes them to its callback and as an
`ElfSymbolIterator` shows them one by one.

Either tries the entries of the symbol sections in turn (`tries`). Beyond that `get_symbols` lists
all sections, and places their names; a name that cannot be placed stops it in a build with overflow
checks (`symbolIterator_iff`). -/

namespace OneCollect.Ruwind.Elf
open Theory

def STT_FUNC : Nat := 2

structure ElfLoadHeader where
  p_offset : Nat
  p_vaddr : Nat
  deriving DecidableEq, Repr

/-- A symbol with the name that is read off its buffer. -/
structure ElfSymbol where
  start : Nat
  end_ : Nat
  name : String
  deriving DecidableEq, Repr

def ElfSymbol.new : ElfSymbol where
  start := 0
  end_ := 0
  name := ""

/-- The size of a symbol of a class and the positions of its fields. -/
structure SymbolLayout where
  size : Nat
  st_name : Nat × Nat
  st_value : Nat × Nat
  st_size : Nat × Nat
  st_info : Nat × Nat

def symbol32 : SymbolLayout where
  size := 16
  st_name := (0, 4)
  st_value := (4, 4)
  st_size := (8, 4)
  st_info := (12, 1)

def symbol64 : SymbolLayout where
  size := 24
  st_name := (0, 4)
  st_info := (4, 1)
  st_value := (8, 8)
  st_size := (16, 8)

def isFunction (layout : SymbolLayout) (sym : Bytes) : Prop :=
  field sym layout.st_info &&& 0xf = STT_FUNC

instance (layout : SymbolLayout) (sym : Bytes) : Decidable (isFunction layout sym) :=
  inferInstanceAs (Decidable (_ = _))

/-- `get_str`: the text up to a NUL, and nothing where it is not text. -/
def getStr (buffer : Bytes) : String := (decodeUtf8 (buffer.takeWhile (· ≠ 0))).getD ""

def assert (c : Prop) [Decidable c] : Exec Unit := if c then .ok () else panicked

/-- `a / b`. -/
def divU64 (a b : Nat) : Exec Nat := if b = 0 then panicked else .ok (a / b)

section Symbols

variable (checks : OverflowChecks)

def symbolRva (value : Nat) (loadHeader : ElfLoadHeader) (systemPageMask : Nat) : Exec Nat := do
  assert (loadHeader.p_vaddr &&& systemPageMask = loadHeader.p_vaddr)
  assert (loadHeader.p_offset &&& systemPageMask = loadHeader.p_offset)
  let rva ← checks.subU64 value loadHeader.p_vaddr
  checks.addU64 rva loadHeader.p_offset

/-- `get_symbol32` and `get_symbol64`. -/
def getSymbolOf (layout : SymbolLayout) (reader : File) (metadata : SectionMetadata)
    (symIndex strOffset : Nat) (loadHeader : ElfLoadHeader) (systemPageMask : Nat) :
    Exec ElfSymbol := do
  let distance ← checks.mulU64 symIndex metadata.entrySize
  let pos ← checks.addU64 metadata.offset distance
  reader.seek pos
  let sym ← reader.readExact pos layout.size
  if ¬ isFunction layout sym ∨ field sym layout.st_value = 0 ∨ field sym layout.st_size = 0 then
    fail "Invalid symbol"
  let start ← symbolRva checks (field sym layout.st_value) loadHeader systemPageMask
  let end_ ← checks.addU64 start (field sym layout.st_size - 1)
  let strPos ← checks.addU64 (field sym layout.st_name) strOffset
  reader.seek strPos
  let nameBuf ← reader.read strPos 1024
  .ok { start, end_, name := getStr nameBuf }

def getSymbol32 := getSymbolOf checks symbol32

def getSymbol64 := getSymbolOf checks symbol64

/-- `get_symbol`: a section of another class leaves the symbol as it is. -/
def getSymbol (reader : File) (metadata : SectionMetadata) (symIndex strOffset : Nat)
    (loadHeader : ElfLoadHeader) (systemPageMask : Nat) (symbol : ElfSymbol) : Exec ElfSymbol :=
  if metadata.class_ = ELFCLASS32 then
    getSymbol32 checks reader metadata symIndex strOffset loadHeader systemPageMask
  else if metadata.class_ = ELFCLASS64 then
    getSymbol64 checks reader metadata symIndex strOffset loadHeader systemPageMask
  else
    .ok symbol

/-- The offset of the strings of a section, by its link. -/
def linkedOffset (offsets : List Nat) (m : SectionMetadata) : Nat :=
  if m.link < offsets.length % 2 ^ 32 then offsets.getD m.link 0 else 0

/-! ## The loops of `get_symbols` -/

variable (reader : File) (loadHeader : ElfLoadHeader) (systemPageMask : Nat)

def getSymbols32 (metadata : SectionMetadata) (count strOffset : Nat) (passed : List ElfSymbol) :
    List ElfSymbol × Exec Unit :=
  tryEach
    (fun i => getSymbol32 checks reader metadata i strOffset loadHeader systemPageMask)
    (List.range count) passed

def getSymbols64 (metadata : SectionMetadata) (count strOffset : Nat) (passed : List ElfSymbol) :
    List ElfSymbol × Exec Unit :=
  tryEach
    (fun i => getSymbol64 checks reader metadata i strOffset loadHeader systemPageMask)
    (List.range count) passed

/-- One turn over the sections. -/
def getSectionSymbols (offsets : List Nat) (m : SectionMetadata) (passed : List ElfSymbol) :
    List ElfSymbol × Exec Unit :=
  match divU64 m.size m.entrySize with
  | .error fault => (passed, .error fault)
  | .ok count =>
    let strOffset := linkedOffset offsets m
    if m.class_ = ELFCLASS32 then
      getSymbols32 checks reader loadHeader systemPageMask m count strOffset passed
    else if m.class_ = ELFCLASS64 then
      getSymbols64 checks reader loadHeader systemPageMask m count strOffset passed
    else
      (passed, .ok ())

def symbolsLoop (offsets : List Nat) :
    List SectionMetadata → (passed : List ElfSymbol) → List ElfSymbol × Exec Unit
  | [], passed => (passed, .ok ())
  | m :: rest, passed =>
    match getSectionSymbols checks reader loadHeader systemPageMask offsets m passed with
    | (passed, .ok ()) => symbolsLoop offsets rest passed
    | (passed, .error fault) => (passed, .error fault)

/-- The symbols that `get_symbols` passes to its callback, and how it ends. -/
def getSymbols (metadata : List SectionMetadata) : List ElfSymbol × Exec Unit :=
  let tables := do
    let _ ← enumSectionMetadata checks reader none none []
    getSectionOffsets checks reader none []
  match tables with
  | .error fault => ([], .error fault)
  | .ok offsets => symbolsLoop checks reader loadHeader systemPageMask offsets metadata []

def symbolSections : Exec (List SectionMetadata) := do
  let sections ← getSectionMetadata checks reader none SHT_SYMTAB []
  getSectionMetadata checks reader none SHT_DYNSYM sections

/-- `get_symbols` over the symbol sections, as its callers have it. -/
def enumSymbols : List ElfSymbol × Exec Unit :=
  match symbolSections checks reader with
  | .error fault => ([], .error fault)
  | .ok sections => getSymbols checks reader loadHeader systemPageMask sections

end Symbols

/-! ## The iterator -/

structure ElfSymbolIterator where
  reader : File
  sections : List SectionMetadata
  sectionIndex : Nat
  sectionOffsets : List Nat
  sectionStrOffset : Nat
  loadHeader : ElfLoadHeader
  systemPageMask : Nat
  entryCount : Nat
  entryIndex : Nat
  reset_ : Bool

/-- How a turn of the loop in `next` goes on. -/
inductive Turn where
  | done (it : ElfSymbolIterator)
  | skip (it : ElfSymbolIterator)
  | yield (it : ElfSymbolIterator) (symbol : ElfSymbol)

namespace ElfSymbolIterator

variable (checks : OverflowChecks)

def clear (self : ElfSymbolIterator) : ElfSymbolIterator :=
  { self with
    sections := []
    sectionIndex := 0
    sectionOffsets := []
    sectionStrOffset := 0
    entryCount := 0
    entryIndex := 0
    reset_ := true }

/-- `initialize`. -/
def initSections (self : ElfSymbolIterator) : Exec ElfSymbolIterator := do
  self.reader.seek 0
  let sections ← getSectionMetadata checks self.reader none SHT_SYMTAB self.sections
  let sections ← getSectionMetadata checks self.reader none SHT_DYNSYM sections
  let sectionOffsets ← getSectionOffsets checks self.reader none self.sectionOffsets
  .ok { self with sections, sectionOffsets }

def reset (self : ElfSymbolIterator) : Exec ElfSymbolIterator :=
  match self.clear.initSections checks with
  | .ok it => .ok it
  | .error (.error _) => .ok self.clear
  | .error .panic => panicked

/-- Loads the next section, if there is one. -/
def loadSection (self : ElfSymbolIterator) : Exec (Bool × ElfSymbolIterator) :=
  let it :=
    if self.reset_ then { self with reset_ := false }
    else { self with sectionIndex := self.sectionIndex + 1 }
  match it.sections[it.sectionIndex]? with
  | none => .ok (false, it)
  | some section_ => do
    let sectionStrOffset := linkedOffset it.sectionOffsets section_
    let entryCount ← divU64 section_.size section_.entrySize
    .ok (true, { it with sectionStrOffset, entryCount, entryIndex := 0 })

/-- Tries the entry at hand. -/
def tryEntry (self : ElfSymbolIterator) (symbol : ElfSymbol) : Exec Turn := do
  let section_ ← getAt self.sections self.sectionIndex
  let it := { self with entryIndex := self.entryIndex + 1 }
  match getSymbol checks self.reader section_ self.entryIndex self.sectionStrOffset self.loadHeader
      self.systemPageMask symbol with
  | .ok symbol => .ok (.yield it symbol)
  | .error (.error _) => .ok (.skip it)
  | .error .panic => panicked

/-- A turn of the loop; a section without symbols is skipped. -/
def turn (self : ElfSymbolIterator) (symbol : ElfSymbol) : Exec Turn :=
  if self.entryIndex ≥ self.entryCount then do
    let (more, it) ← self.loadSection
    if more then
      if it.entryIndex ≥ it.entryCount then .ok (.skip it) else it.tryEntry checks symbol
    else .ok (.done it)
  else self.tryEntry checks symbol

/-- What every turn that goes on makes less: the sections to load, then the entries of this one. -/
def remaining (self : ElfSymbolIterator) : Nat × Nat :=
  ((if self.reset_ then 1 else 0) + (self.sections.length - self.sectionIndex),
    self.entryCount - self.entryIndex)

theorem remaining_loadSection {it it' : ElfSymbolIterator} (h : it.loadSection = .ok (true, it')) :
    it'.remaining.1 < it.remaining.1 := by
  unfold loadSection at h
  by_cases hreset : it.reset_ = true
  · simp only [hreset, if_true] at h
    cases hsec : it.sections[it.sectionIndex]? with
    | none =>
      rw [hsec] at h
      cases h
    | some section_ =>
      rw [hsec] at h
      obtain ⟨count, -, h⟩ := bind_eq_ok.mp h
      cases h
      simp [remaining, hreset]
  · simp only [hreset, if_false, Bool.false_eq_true] at h
    cases hsec : it.sections[it.sectionIndex + 1]? with
    | none =>
      rw [hsec] at h
      cases h
    | some section_ =>
      have hlt := (List.getElem?_eq_some_iff.mp hsec).1
      rw [hsec] at h
      obtain ⟨count, -, h⟩ := bind_eq_ok.mp h
      cases h
      simp only [remaining, hreset, if_false, Bool.false_eq_true]
      omega

theorem tryEntry_skip {it it' : ElfSymbolIterator} {symbol : ElfSymbol}
    (h : it.tryEntry checks symbol = .ok (.skip it')) :
    it' = { it with entryIndex := it.entryIndex + 1 } := by
  obtain ⟨section_, -, h⟩ := bind_eq_ok.mp h
  split at h
  · cases h
  · cases h
    rfl
  · cases h

theorem remaining_turn {it it' : ElfSymbolIterator} {symbol : ElfSymbol}
    (h : it.turn checks symbol = .ok (.skip it')) :
    Prod.Lex (· < ·) (· < ·) it'.remaining it.remaining := by
  unfold turn at h
  by_cases hload : it.entryIndex ≥ it.entryCount
  · rw [if_pos hload] at h
    obtain ⟨⟨more, loaded⟩, hnext, h⟩ := bind_eq_ok.mp h
    cases more with
    | false => cases h
    | true =>
      have hlt := remaining_loadSection hnext
      dsimp only at h
      rw [if_pos rfl] at h
      by_cases hempty : loaded.entryIndex ≥ loaded.entryCount
      · rw [if_pos hempty] at h
        cases h
        exact Prod.Lex.left _ _ hlt
      · rw [if_neg hempty] at h
        rw [tryEntry_skip checks h]
        exact Prod.Lex.left _ _ hlt
  · rw [if_neg hload] at h
    rw [tryEntry_skip checks h]
    refine Prod.Lex.right _ ?_
    dsimp only
    omega

/-- The loop in `next`. -/
def nextLoop (self : ElfSymbolIterator) (symbol : ElfSymbol) :
    Exec (Bool × ElfSymbolIterator × ElfSymbol) :=
  match _hturn : self.turn checks symbol with
  | .error fault => .error fault
  | .ok (.done it) => .ok (false, it, symbol)
  | .ok (.yield it symbol) => .ok (true, it, symbol)
  | .ok (.skip it) => nextLoop it symbol
termination_by self.remaining
decreasing_by exact remaining_turn checks _hturn

def next (self : ElfSymbolIterator) (symbol : ElfSymbol) :
    Exec (Bool × ElfSymbolIterator × ElfSymbol) :=
  if self.sectionIndex ≥ self.sections.length then .ok (false, self, symbol)
  else self.nextLoop checks symbol

end ElfSymbolIterator

/-! ## What is left to be tried -/

def KnownClass (m : SectionMetadata) : Prop := m.class_ = ELFCLASS32 ∨ m.class_ = ELFCLASS64

section Tries

variable (checks : OverflowChecks) (reader : File) (loadHeader : ElfLoadHeader)
  (systemPageMask : Nat)

def tried (m : SectionMetadata) (strOffset i : Nat) : Exec ElfSymbol :=
  getSymbolOf checks (if m.class_ = ELFCLASS32 then symbol32 else symbol64) reader m i strOffset
    loadHeader systemPageMask

/-- The entries of a section in turn. -/
def tries (offsets : List Nat) (m : SectionMetadata) : List (Exec ElfSymbol) :=
  if m.entrySize = 0 then [panicked]
  else (List.range (m.size / m.entrySize)).map
    (tried checks reader loadHeader systemPageMask m (linkedOffset offsets m))

variable {checks reader loadHeader systemPageMask}

theorem getSymbol_eq_tried {m : SectionMetadata} (hclass : KnownClass m) (i strOffset : Nat)
    (symbol : ElfSymbol) :
    getSymbol checks reader m i strOffset loadHeader systemPageMask symbol =
      tried checks reader loadHeader systemPageMask m strOffset i := by
  unfold getSymbol tried getSymbol32 getSymbol64
  by_cases h32 : m.class_ = ELFCLASS32
  · rw [if_pos h32, if_pos h32]
  · rw [if_neg h32, if_neg h32, if_pos (hclass.resolve_left h32)]

theorem getSectionSymbols_eq {m : SectionMetadata} (hclass : KnownClass m) (offsets : List Nat)
    (passed : List ElfSymbol) :
    getSectionSymbols checks reader loadHeader systemPageMask offsets m passed =
      (passed ++ (Outcome.ofTries
          (tries checks reader loadHeader systemPageMask offsets m)).items,
        endOf (Outcome.ofTries
          (tries checks reader loadHeader systemPageMask offsets m)).panics) := by
  unfold getSectionSymbols divU64 tries
  by_cases hsize : m.entrySize = 0
  · rw [if_pos hsize, if_pos hsize]
    simp [panicked, Outcome.ofTries, endOf]
  · rw [if_neg hsize, if_neg hsize]
    dsimp only
    rw [← tryEach_eq]
    unfold getSymbols32 getSymbols64 getSymbol32 getSymbol64
    have hsame : tried checks reader loadHeader systemPageMask m (linkedOffset offsets m) = fun i =>
        getSymbolOf checks (if m.class_ = ELFCLASS32 then symbol32 else symbol64) reader m i
          (linkedOffset offsets m) loadHeader systemPageMask := rfl
    rw [hsame]
    by_cases h32 : m.class_ = ELFCLASS32
    · rw [if_pos h32, if_pos h32]
    · rw [if_neg h32, if_neg h32, if_pos (hclass.resolve_left h32)]

/-- The loops of `get_symbols` try the entries of all sections in turn. -/
theorem symbolsLoop_eq (offsets : List Nat) {ms : List SectionMetadata}
    (hclass : ∀ m ∈ ms, KnownClass m) (passed : List ElfSymbol) :
    symbolsLoop checks reader loadHeader systemPageMask offsets ms passed =
      (passed ++ (Outcome.ofTries
          (ms.flatMap (tries checks reader loadHeader systemPageMask offsets))).items,
        endOf (Outcome.ofTries
          (ms.flatMap (tries checks reader loadHeader systemPageMask offsets))).panics) := by
  induction ms generalizing passed with
  | nil => simp [symbolsLoop, Outcome.ofTries, endOf]
  | cons m ms ih =>
    obtain ⟨hm, hms⟩ := List.forall_mem_cons.mp hclass
    rw [symbolsLoop, getSectionSymbols_eq hm, List.flatMap_cons, Outcome.ofTries_append,
      Outcome.append]
    cases hp : (Outcome.ofTries (tries checks reader loadHeader systemPageMask offsets m)).panics with
    | true => simp [endOf, hp, panicked]
    | false => simp [endOf, ih hms]

end Tries

namespace ElfSymbolIterator

variable (checks : OverflowChecks)

/-- The rest of the section at hand. -/
def current (self : ElfSymbolIterator) : List (Exec ElfSymbol) :=
  match self.sections[self.sectionIndex]? with
  | none => []
  | some m => (List.range' self.entryIndex (self.entryCount - self.entryIndex)).map
    (tried checks self.reader self.loadHeader self.systemPageMask m self.sectionStrOffset)

/-- The sections that are not loaded yet. -/
def later (self : ElfSymbolIterator) : List SectionMetadata :=
  self.sections.drop (if self.reset_ then self.sectionIndex else self.sectionIndex + 1)

def pending (self : ElfSymbolIterator) : List (Exec ElfSymbol) :=
  self.current checks ++
    self.later.flatMap
      (tries checks self.reader self.loadHeader self.systemPageMask self.sectionOffsets)

structure Valid (it : ElfSymbolIterator) : Prop where
  known : ∀ m ∈ it.sections, KnownClass m
  inside : it.entryIndex < it.entryCount → it.sectionIndex < it.sections.length

variable {checks} {it : ElfSymbolIterator} {symbol : ElfSymbol}

theorem current_of_done (h : it.entryIndex ≥ it.entryCount) : it.current checks = [] := by
  unfold current
  rw [Nat.sub_eq_zero_of_le h]
  cases it.sections[it.sectionIndex]? <;> rfl

theorem pending_of_done (h : it.entryIndex ≥ it.entryCount) :
    it.pending checks = it.later.flatMap
      (tries checks it.reader it.loadHeader it.systemPageMask it.sectionOffsets) := by
  rw [pending, current_of_done h, List.nil_append]

/-- A turn against what is left. -/
def Explains (checks : OverflowChecks) (it : ElfSymbolIterator) : Exec Turn → Prop
  | .ok (.done after) => after.Valid ∧ it.pending checks = [] ∧ after.pending checks = []
  | .ok (.skip after) =>
    after.Valid ∧ Outcome.ofTries (it.pending checks) = Outcome.ofTries (after.pending checks)
  | .ok (.yield after symbol) => after.Valid ∧ it.pending checks = .ok symbol :: after.pending checks
  | .error fault => fault = .panic ∧ Outcome.ofTries (it.pending checks) = ⟨[], true⟩

/-- Loading a section against what is left. -/
def ExplainsLoad (checks : OverflowChecks) (it : ElfSymbolIterator) :
    Exec (Bool × ElfSymbolIterator) → Prop
  | .ok (false, after) => after.Valid ∧ it.pending checks = [] ∧ after.pending checks = []
  | .ok (true, after) => after.Valid ∧ it.pending checks = after.pending checks
  | .error fault => fault = .panic ∧ Outcome.ofTries (it.pending checks) = ⟨[], true⟩

/-- What follows where the next section is at `index`. -/
theorem explainsLoad_at {index : Nat} (hvalid : it.Valid) (hdone : it.entryIndex ≥ it.entryCount)
    (hlater : it.later = it.sections.drop index) :
    ExplainsLoad checks it
      (match it.sections[index]? with
      | none => .ok (false, { it with sectionIndex := index, reset_ := false })
      | some section_ => do
        let sectionStrOffset := linkedOffset it.sectionOffsets section_
        let entryCount ← divU64 section_.size section_.entrySize
        .ok (true, { it with
          sectionIndex := index, reset_ := false, sectionStrOffset, entryCount, entryIndex := 0 })) := by
  have hpending : it.pending checks = it.later.flatMap
      (tries checks it.reader it.loadHeader it.systemPageMask it.sectionOffsets) :=
    pending_of_done hdone
  rw [hlater] at hpending
  cases hsec : it.sections[index]? with
  | none =>
    have hlen := List.getElem?_eq_none_iff.mp hsec
    refine ⟨⟨hvalid.known, fun hlt => absurd hlt (Nat.not_lt.mpr hdone)⟩, ?_, ?_⟩
    · rw [hpending, List.drop_of_length_le hlen]
      rfl
    · rw [pending_of_done (by exact hdone), later, if_neg Bool.false_ne_true,
        List.drop_of_length_le (Nat.le_succ_of_le hlen)]
      rfl
  | some m =>
    obtain ⟨hindex, hm⟩ := List.getElem?_eq_some_iff.mp hsec
    rw [List.drop_eq_getElem_cons hindex, hm, List.flatMap_cons] at hpending
    dsimp only
    rw [divU64]
    by_cases hsize : m.entrySize = 0
    · rw [if_pos hsize]
      refine ⟨rfl, ?_⟩
      rw [hpending, tries, if_pos hsize]
      rfl
    · rw [if_neg hsize]
      refine ⟨⟨hvalid.known, fun _ => hindex⟩, ?_⟩
      rw [hpending, pending, tries, if_neg hsize, later, if_neg Bool.false_ne_true, current]
      dsimp only
      rw [hsec, List.range_eq_range']
      rfl

theorem explains_loadSection (hvalid : it.Valid) (hdone : it.entryIndex ≥ it.entryCount) :
    ExplainsLoad checks it it.loadSection := by
  unfold loadSection
  cases hreset : it.reset_ with
  | true =>
    rw [if_pos rfl]
    exact explainsLoad_at hvalid hdone (by rw [later, if_pos hreset])
  | false =>
    have hlater : it.later = it.sections.drop (it.sectionIndex + 1) := by
      rw [later, hreset, if_neg Bool.false_ne_true]
    have hload := @explainsLoad_at checks it _ hvalid hdone hlater
    rw [if_neg Bool.false_ne_true]
    exact hload

theorem explains_tryEntry (hvalid : it.Valid) (hlt : it.entryIndex < it.entryCount) :
    Explains checks it (it.tryEntry checks symbol) := by
  have hindex := hvalid.inside hlt
  have hsec : it.sections[it.sectionIndex]? = some it.sections[it.sectionIndex] :=
    List.getElem?_eq_getElem hindex
  generalize it.sections[it.sectionIndex] = m at hsec
  have hclass := hvalid.known m (List.mem_of_getElem? hsec)
  have hafter : ({ it with entryIndex := it.entryIndex + 1 } : ElfSymbolIterator).Valid :=
    ⟨hvalid.known, fun _ => hindex⟩
  have hpending : it.pending checks =
      tried checks it.reader it.loadHeader it.systemPageMask m it.sectionStrOffset it.entryIndex ::
        ({ it with entryIndex := it.entryIndex + 1 } : ElfSymbolIterator).pending checks := by
    have hcount : it.entryCount - it.entryIndex = it.entryCount - (it.entryIndex + 1) + 1 := by
      omega
    unfold pending current later
    dsimp only
    rw [hsec, hcount]
    rfl
  rw [tryEntry, getAt_eq_ok.mpr hsec, ok_bind]
  dsimp only
  rw [getSymbol_eq_tried hclass]
  match htried : tried checks it.reader it.loadHeader it.systemPageMask m it.sectionStrOffset
      it.entryIndex with
  | .ok symbol => exact ⟨hafter, by rw [hpending, htried]⟩
  | .error (.error text) =>
    refine ⟨hafter, ?_⟩
    rw [hpending, htried]
    rfl
  | .error .panic =>
    refine ⟨rfl, ?_⟩
    rw [hpending, htried]
    rfl

/-- A step that changes nothing of what is left, and then a turn. -/
theorem Explains.of_eq {after : ElfSymbolIterator} {result : Exec Turn}
    (h : Explains checks after result) (hsame : it.pending checks = after.pending checks) :
    Explains checks it result := by
  match result with
  | .ok (.done _) => exact ⟨h.1, hsame.trans h.2.1, h.2.2⟩
  | .ok (.skip _) => exact ⟨h.1, hsame ▸ h.2⟩
  | .ok (.yield _ _) => exact ⟨h.1, hsame.trans h.2⟩
  | .error _ => exact ⟨h.1, hsame ▸ h.2⟩

theorem explains_turn (hvalid : it.Valid) : Explains checks it (it.turn checks symbol) := by
  unfold turn
  by_cases hdone : it.entryIndex ≥ it.entryCount
  · rw [if_pos hdone]
    have hload : ExplainsLoad checks it it.loadSection := explains_loadSection hvalid hdone
    match hloaded : it.loadSection with
    | .error fault =>
      rw [hloaded] at hload
      exact hload
    | .ok (false, after) =>
      rw [hloaded] at hload
      exact hload
    | .ok (true, after) =>
      rw [hloaded] at hload
      obtain ⟨hafter, hsame⟩ := hload
      rw [ok_bind]
      dsimp only
      rw [if_pos rfl]
      by_cases hempty : after.entryIndex ≥ after.entryCount
      · rw [if_pos hempty]
        exact ⟨hafter, congrArg _ hsame⟩
      · rw [if_neg hempty]
        exact (explains_tryEntry hafter (Nat.not_le.mp hempty)).of_eq hsame
  · rw [if_neg hdone]
    exact explains_tryEntry hvalid (Nat.not_le.mp hdone)

/-- A call of `next` against what is left. -/
def ExplainsNext (checks : OverflowChecks) (it : ElfSymbolIterator) :
    Exec (Bool × ElfSymbolIterator × ElfSymbol) → Prop
  | .ok (false, after, _) =>
    after.Valid ∧ Outcome.ofTries (it.pending checks) = ⟨[], false⟩ ∧
      Outcome.ofTries (after.pending checks) = ⟨[], false⟩
  | .ok (true, after, symbol) =>
    after.Valid ∧
      Outcome.ofTries (it.pending checks) = (Outcome.ofTries (after.pending checks)).cons symbol
  | .error fault => fault = .panic ∧ Outcome.ofTries (it.pending checks) = ⟨[], true⟩

/-- By induction on the turns: one that skips leaves what is shown. -/
theorem explains_nextLoop (hvalid : it.Valid) :
    ExplainsNext checks it (it.nextLoop checks symbol) := by
  induction it using nextLoop.induct_unfolding checks symbol with
  | case1 it fault hturn =>
    have hexplains : Explains checks it (it.turn checks symbol) := explains_turn hvalid
    rw [hturn] at hexplains
    exact hexplains
  | case2 it after hturn =>
    have hexplains : Explains checks it (it.turn checks symbol) := explains_turn hvalid
    rw [hturn] at hexplains
    obtain ⟨hafter, hpending, hempty⟩ := hexplains
    exact ⟨hafter, congrArg _ hpending, congrArg _ hempty⟩
  | case3 it after shown hturn =>
    have hexplains : Explains checks it (it.turn checks symbol) := explains_turn hvalid
    rw [hturn] at hexplains
    exact ⟨hexplains.1, congrArg _ hexplains.2⟩
  | case4 it after hturn ih =>
    have hexplains : Explains checks it (it.turn checks symbol) := explains_turn hvalid
    rw [hturn] at hexplains
    obtain ⟨hafter, hsame⟩ := hexplains
    have hnext := ih hafter
    match hloop : after.nextLoop checks symbol with
    | .error fault =>
      rw [hloop] at hnext
      exact ⟨hnext.1, hsame.trans hnext.2⟩
    | .ok (false, last, _) =>
      rw [hloop] at hnext
      exact ⟨hnext.1, hsame.trans hnext.2.1, hnext.2.2⟩
    | .ok (true, last, shown) =>
      rw [hloop] at hnext
      exact ⟨hnext.1, hsame.trans hnext.2⟩

theorem explains_next (hvalid : it.Valid) : ExplainsNext checks it (it.next checks symbol) := by
  unfold next
  by_cases hend : it.sectionIndex ≥ it.sections.length
  · rw [if_pos hend]
    have hdone : it.entryIndex ≥ it.entryCount :=
      Nat.not_lt.mp fun hlt => absurd (hvalid.inside hlt) (Nat.not_lt.mpr hend)
    have hlater : it.later = [] := by
      unfold later
      split
      · exact List.drop_of_length_le hend
      · exact List.drop_of_length_le (Nat.le_succ_of_le hend)
    have hpending : Outcome.ofTries (it.pending checks) = ⟨[], false⟩ := by
      rw [pending_of_done hdone, hlater]
      rfl
    exact ⟨hvalid, hpending, hpending⟩
  · rw [if_neg hend]
    exact explains_nextLoop hvalid

end ElfSymbolIterator

/-- The iterator with the symbol that its caller has. -/
def symbolsOf (checks : OverflowChecks) : Iterator (ElfSymbolIterator × ElfSymbol) ElfSymbol where
  next := fun state => state.1.next checks state.2
  item := fun state => state.2

section Runs

variable {checks : OverflowChecks} {it : ElfSymbolIterator} {symbol : ElfSymbol}

theorem symbolsOf_answers {state : ElfSymbolIterator × ElfSymbol} (hvalid : state.1.Valid) :
    (symbolsOf checks).Answers (fun state => state.1.pending checks) (fun state => state.1.Valid)
      state := by
  obtain ⟨it, symbol⟩ := state
  have hexplains : it.ExplainsNext checks (it.next checks symbol) :=
    ElfSymbolIterator.explains_next hvalid
  match hnext : it.next checks symbol with
  | .error fault =>
    rw [hnext] at hexplains
    obtain ⟨rfl, hpending⟩ := hexplains
    exact .panic hnext hpending
  | .ok (false, after, last) =>
    rw [hnext] at hexplains
    obtain ⟨hafter, hpending, hempty⟩ := hexplains
    exact .done (after, last) hnext hafter hpending hempty
  | .ok (true, after, shown) =>
    rw [hnext] at hexplains
    obtain ⟨hafter, hpending⟩ := hexplains
    exact .yield (after, shown) hnext hafter hpending

/-- The calls from a state on show what is left to be tried. -/
theorem runs_pending (hvalid : it.Valid) :
    (symbolsOf checks).Runs (it, symbol) (Outcome.ofTries (it.pending checks)) :=
  @Iterator.runs_of_answers _ _ (symbolsOf checks) (it, symbol)
    (fun state => state.1.pending checks) (fun state => state.1.Valid)
    (fun _ => symbolsOf_answers) hvalid

end Runs

/-! ## The tables of a file -/

section FileTables

variable {checks : OverflowChecks} {reader : File}

/-- The name of every section has a place. -/
def NamesPlaced (checks : OverflowChecks) (reader : File) : Prop :=
  checks = .on → ∀ class_ layout header secs, getClass reader none = .ok class_ →
    layoutOf class_ = some layout → walked checks layout reader = .ok (header, secs) →
    ∀ m ∈ secs.map (sectionEntry layout class_),
      m.nameOffset + stringOffset layout header (secs.map (sectionEntry layout class_)) < 2 ^ 64

theorem knownClass_of_layout {class_ : UInt8} {layout : ElfLayout}
    (h : layoutOf class_ = some layout) : class_ = ELFCLASS32 ∨ class_ = ELFCLASS64 := by
  unfold layoutOf at h
  by_cases h32 : class_ = ELFCLASS32
  · exact Or.inl h32
  · rw [if_neg h32] at h
    by_cases h64 : class_ = ELFCLASS64
    · exact Or.inr h64
    · rw [if_neg h64] at h
      cases h

theorem known_of_enumSectionMetadata {secType : Option Nat} {metadata ms : List SectionMetadata}
    (h : enumSectionMetadata checks reader none secType metadata = .ok ms)
    (hknown : ∀ m ∈ metadata, KnownClass m) : ∀ m ∈ ms, KnownClass m := by
  rw [enumSectionMetadata_eq] at h
  obtain ⟨class_, -, h⟩ := bind_eq_ok.mp h
  cases hlayout : layoutOf class_ with
  | none =>
    rw [hlayout] at h
    cases h
    exact hknown
  | some layout =>
    rw [hlayout] at h
    dsimp only at h
    rw [getSectionMetadataOf_eq] at h
    obtain ⟨found, -, h⟩ := bind_eq_ok.mp h
    obtain ⟨added, hadded, h⟩ := bind_eq_ok.mp h
    cases h
    intro m hm
    rcases List.mem_append.mp hm with hold | hnew
    · exact hknown m hold
    · obtain ⟨entry, hentry, hplaced⟩ := forall₂_mem_right (mapM_eq_ok_iff.mp hadded) hnew
      obtain ⟨sec, -, rfl⟩ := List.mem_map.mp (List.mem_of_mem_filter hentry)
      obtain ⟨nameOffset, -, hplaced⟩ := bind_eq_ok.mp hplaced
      cases hplaced
      exact knownClass_of_layout hlayout

theorem known_symbolSections {sections : List SectionMetadata}
    (h : symbolSections checks reader = .ok sections) : ∀ m ∈ sections, KnownClass m := by
  obtain ⟨symtab, hsymtab, hdynsym⟩ := bind_eq_ok.mp h
  exact known_of_enumSectionMetadata hdynsym
    (known_of_enumSectionMetadata hsymtab fun m hm => absurd hm List.not_mem_nil)

/-- Where some sections are listed, the offsets of all are. -/
theorem getSectionOffsets_of_enum {secType : Option Nat} {metadata ms : List SectionMetadata}
    (h : enumSectionMetadata checks reader none secType metadata = .ok ms) :
    ∃ offsets, getSectionOffsets checks reader none [] = .ok offsets := by
  rw [enumSectionMetadata_eq] at h
  obtain ⟨class_, hclass, h⟩ := bind_eq_ok.mp h
  rw [getSectionOffsets_eq, hclass, ok_bind]
  cases hlayout : layoutOf class_ with
  | none => exact ⟨[], rfl⟩
  | some layout =>
    rw [hlayout] at h
    dsimp only at h ⊢
    rw [getSectionMetadataOf_eq] at h
    obtain ⟨found, hwalked, -⟩ := bind_eq_ok.mp h
    rw [getSectionOffsetsOf_eq, hwalked]
    exact ⟨_, rfl⟩

theorem placeNames_off (strOffset : Nat) (metadata added : List SectionMetadata) :
    ∃ ms, placeNames .off strOffset metadata added = .ok ms := by
  have hadded : added.mapM (addNameOffset .off strOffset) =
      .ok (added.map fun m => { m with nameOffset := (m.nameOffset + strOffset) % 2 ^ 64 }) := by
    rw [mapM_eq_ok_iff, List.forall₂_map_right_iff]
    exact List.forall₂_same.mpr fun m _ => rfl
  rw [placeNames, hadded]
  exact ⟨_, rfl⟩

/-- A name without a place stops the listing. -/
theorem placeNames_panicked {strOffset : Nat} (metadata : List SectionMetadata)
    {added : List SectionMetadata} {m : SectionMetadata} (hm : m ∈ added)
    (h : ¬ m.nameOffset + strOffset < 2 ^ 64) :
    placeNames .on strOffset metadata added = panicked := by
  have hadded : added.mapM (addNameOffset .on strOffset) = panicked := by
    induction added with
    | nil => exact absurd hm List.not_mem_nil
    | cons first added ih =>
      rw [List.mapM_cons]
      by_cases hfirst : first.nameOffset + strOffset < 2 ^ 64
      · have hrest : m ∈ added := by
          rcases List.mem_cons.mp hm with rfl | hrest
          · exact absurd hfirst h
          · exact hrest
        rw [addNameOffset_named hfirst, ok_bind, ih hrest]
        rfl
      · rw [addNameOffset, OverflowChecks.addU64, addU64, if_neg hfirst]
        rfl
  rw [placeNames, hadded]
  rfl

theorem placeNames_ends (checks : OverflowChecks) (strOffset : Nat)
    (metadata added : List SectionMetadata) :
    (∃ ms, placeNames checks strOffset metadata added = .ok ms) ∨
      placeNames checks strOffset metadata added = panicked := by
  cases checks with
  | off => exact Or.inl (placeNames_off _ _ _)
  | on =>
    by_cases hfit : ∀ m ∈ added, m.nameOffset + strOffset < 2 ^ 64
    · exact Or.inl ⟨_, placeNames_of_fit hfit⟩
    · obtain ⟨m, hm⟩ := Classical.not_forall.mp hfit
      obtain ⟨hmem, hlt⟩ := Classical.not_imp.mp hm
      exact Or.inr (placeNames_panicked metadata hmem hlt)

/-- Where the headers can be read, listing sections does not end in an `Err`. -/
theorem symbolSections_ends {class_ : UInt8} {layout : ElfLayout} {header : Bytes}
    {secs : List Bytes} (hclass : getClass reader none = .ok class_)
    (hlayout : layoutOf class_ = some layout)
    (hwalked : walked checks layout reader = .ok (header, secs)) :
    (∃ sections, symbolSections checks reader = .ok sections) ∨
      symbolSections checks reader = panicked := by
  unfold symbolSections getSectionMetadata
  simp only [enumSectionMetadata_of_walked hclass hlayout hwalked]
  obtain ⟨symtab, hsymtab⟩ | hpanic := placeNames_ends checks
    (stringOffset layout header (secs.map (sectionEntry layout class_))) []
    ((secs.map (sectionEntry layout class_)).filter (wanted (some SHT_SYMTAB)))
  · rw [hsymtab, ok_bind]
    exact placeNames_ends checks _ symtab _
  · rw [hpanic]
    exact Or.inr rfl

/-- Where some sections are listed, all of them are exactly where their names have places. -/
theorem enumSectionMetadata_all {secType : Option Nat} {metadata ms : List SectionMetadata}
    (h : enumSectionMetadata checks reader none secType metadata = .ok ms) :
    (NamesPlaced checks reader ∧ ∃ all, enumSectionMetadata checks reader none none [] = .ok all) ∨
      (¬ NamesPlaced checks reader ∧ enumSectionMetadata checks reader none none [] = panicked) := by
  rw [enumSectionMetadata_eq] at h
  obtain ⟨class_, hclass, h⟩ := bind_eq_ok.mp h
  cases hlayout : layoutOf class_ with
  | none =>
    refine Or.inl ⟨fun _ class' layout' header secs hclass' hlayout' => ?_, ?_⟩
    · rw [hclass] at hclass'
      cases hclass'
      rw [hlayout] at hlayout'
      cases hlayout'
    · rw [enumSectionMetadata_eq, hclass, ok_bind, hlayout]
      exact ⟨[], rfl⟩
  | some layout =>
    rw [hlayout] at h
    dsimp only at h
    rw [getSectionMetadataOf_eq] at h
    obtain ⟨⟨header, secs⟩, hwalked, -⟩ := bind_eq_ok.mp h
    rw [enumSectionMetadata_of_walked hclass hlayout hwalked, filter_wanted_none]
    cases hchecks : checks with
    | off => exact Or.inl ⟨fun hon => (nomatch hon), placeNames_off _ _ _⟩
    | on =>
      by_cases hfit : ∀ m ∈ secs.map (sectionEntry layout class_), m.nameOffset +
          stringOffset layout header (secs.map (sectionEntry layout class_)) < 2 ^ 64
      · refine Or.inl ⟨fun _ class' layout' header' secs' hclass' hlayout' hwalked' => ?_,
          _, placeNames_of_fit hfit⟩
        rw [hclass] at hclass'
        cases hclass'
        rw [hlayout] at hlayout'
        cases hlayout'
        rw [hchecks] at hwalked
        rw [hwalked] at hwalked'
        cases hwalked'
        exact hfit
      · rw [hchecks] at hwalked
        refine Or.inr ⟨fun hplaced => hfit (hplaced rfl class_ layout header secs hclass hlayout
          hwalked), ?_⟩
        obtain ⟨m, hm⟩ := Classical.not_forall.mp hfit
        obtain ⟨hmem, hlt⟩ := Classical.not_imp.mp hm
        exact placeNames_panicked [] hmem hlt

end FileTables

/-! ## The iterator against `get_symbols` -/

section Same

variable {checks : OverflowChecks} {it : ElfSymbolIterator} {symbol : ElfSymbol}

/-- What the calls of `next` show from a reset on, up to `false` or a panic. -/
def Shows (checks : OverflowChecks) (it : ElfSymbolIterator) (symbol : ElfSymbol)
    (o : Outcome ElfSymbol) : Prop :=
  match it.reset checks with
  | .ok it => (symbolsOf checks).Runs (it, symbol) o
  | .error _ => o = ⟨[], true⟩

/-- What `get_symbols` passes on over the symbol sections of the same file. -/
def passedOf (checks : OverflowChecks) (it : ElfSymbolIterator) : Outcome ElfSymbol :=
  let passed := enumSymbols checks it.reader it.loadHeader it.systemPageMask
  .ofCall passed.1 passed.2

theorem initSections_clear (it : ElfSymbolIterator) :
    it.clear.initSections checks = (do
      let sections ← symbolSections checks it.reader
      let sectionOffsets ← getSectionOffsets checks it.reader none []
      .ok { it.clear with sections, sectionOffsets }) := by
  have hreader : it.clear.reader = it.reader := rfl
  unfold ElfSymbolIterator.initSections symbolSections
  rw [hreader, bind_assoc]
  cases hseek : it.reader.seek 0 with
  | error fault =>
    have henum : getSectionMetadata checks it.reader none SHT_SYMTAB [] = .error fault := by
      rw [getSectionMetadata, enumSectionMetadata_eq, getClass, hseek]
      rfl
    rw [henum]
    rfl
  | ok _ => rfl

theorem ofCall_endOf (items : List ElfSymbol) (panics : Bool) :
    Outcome.ofCall items (endOf panics) = ⟨items, panics⟩ := by
  cases panics <;> rfl

/-- Both where the symbol sections cannot be listed. -/
theorem shows_of_error {fault : Fault} (h : symbolSections checks it.reader = .error fault)
    (o : Outcome ElfSymbol) : Shows checks it symbol o ↔ passedOf checks it = o := by
  have hinit : it.clear.initSections checks = .error fault := by
    rw [initSections_clear, h]
    rfl
  have hpassed : passedOf checks it = Outcome.ofCall [] (.error fault) := by
    unfold passedOf enumSymbols
    rw [h]
  rw [hpassed]
  unfold Shows ElfSymbolIterator.reset
  rw [hinit]
  match fault with
  | .error text =>
    have hruns : (symbolsOf checks).Runs (it.clear, symbol) ⟨[], false⟩ := .stop rfl
    exact ⟨fun h => hruns.unique h, fun h => h ▸ hruns⟩
  | .panic => exact eq_comm

/-- The iterator where they can: all entries in turn. -/
theorem shows_of_sections {sections : List SectionMetadata} {offsets : List Nat}
    (hsections : symbolSections checks it.reader = .ok sections)
    (hoffsets : getSectionOffsets checks it.reader none [] = .ok offsets) (o : Outcome ElfSymbol) :
    Shows checks it symbol o ↔ Outcome.ofTries (sections.flatMap
      (tries checks it.reader it.loadHeader it.systemPageMask offsets)) = o := by
  have hinit : it.clear.initSections checks =
      .ok { it.clear with sections, sectionOffsets := offsets } := by
    rw [initSections_clear, hsections, ok_bind, hoffsets]
    rfl
  have hvalid : ({ it.clear with sections, sectionOffsets := offsets } : ElfSymbolIterator).Valid :=
    ⟨known_symbolSections hsections, fun hlt => absurd hlt (Nat.not_lt_zero 0)⟩
  have hpending : ({ it.clear with sections, sectionOffsets := offsets } :
      ElfSymbolIterator).pending checks = sections.flatMap
        (tries checks it.reader it.loadHeader it.systemPageMask offsets) :=
    ElfSymbolIterator.pending_of_done (Nat.le_refl 0)
  have hruns : (symbolsOf checks).Runs (_, symbol) _ := runs_pending hvalid
  rw [hpending] at hruns
  unfold Shows ElfSymbolIterator.reset
  rw [hinit]
  exact ⟨fun h => hruns.unique h, fun h => h ▸ hruns⟩

/-- `get_symbols` where all sections can be listed: the same entries. -/
theorem passedOf_of_sections {sections all : List SectionMetadata} {offsets : List Nat}
    (hsections : symbolSections checks it.reader = .ok sections)
    (hall : enumSectionMetadata checks it.reader none none [] = .ok all)
    (hoffsets : getSectionOffsets checks it.reader none [] = .ok offsets) :
    passedOf checks it = Outcome.ofTries (sections.flatMap
      (tries checks it.reader it.loadHeader it.systemPageMask offsets)) := by
  unfold passedOf enumSymbols getSymbols
  rw [hsections, hall, ok_bind, hoffsets]
  dsimp only
  rw [symbolsLoop_eq offsets (known_symbolSections hsections)]
  exact ofCall_endOf _ _

/-- Where some name has no place, nothing is passed on. -/
theorem passedOf_of_panic {sections : List SectionMetadata}
    (hsections : symbolSections checks it.reader = .ok sections)
    (hall : enumSectionMetadata checks it.reader none none [] = panicked) :
    passedOf checks it = ⟨[], true⟩ := by
  unfold passedOf enumSymbols getSymbols
  rw [hsections, hall]
  rfl

/-- **The iterator and `get_symbols`.** Where every section's name has a place, any reset is followed
by the symbols that `get_symbols` passes on over the symbol sections, and both panic or neither does.
Of calls that come to their end, this is the case exactly then. -/
theorem symbolIterator_iff (checks : OverflowChecks) (it : ElfSymbolIterator) (symbol : ElfSymbol) :
    (NamesPlaced checks it.reader → ∀ o, Shows checks it symbol o ↔ passedOf checks it = o) ∧
      ∀ items, Shows checks it symbol ⟨items, false⟩ →
        (passedOf checks it = ⟨items, false⟩ ↔ NamesPlaced checks it.reader) := by
  cases hsections : symbolSections checks it.reader with
  | error fault =>
    refine ⟨fun _ => shows_of_error hsections, fun items hshows => iff_of_true ?_ ?_⟩
    · exact (shows_of_error hsections _).mp hshows
    · intro _ class_ layout header secs hclass hlayout hwalked
      obtain ⟨sections, hok⟩ | hpanic := symbolSections_ends hclass hlayout hwalked
      · exact nomatch hsections.symm.trans hok
      · -- listing panics, but the calls have come to their end
        have hpassed := (shows_of_error hsections _).mp hshows
        unfold passedOf enumSymbols at hpassed
        rw [hpanic] at hpassed
        cases hpassed
  | ok sections =>
    obtain ⟨symtab, hsymtab, -⟩ := bind_eq_ok.mp hsections
    obtain ⟨offsets, hoffsets⟩ := getSectionOffsets_of_enum hsymtab
    have hshows (o : Outcome ElfSymbol) := @shows_of_sections checks it symbol _ _ hsections hoffsets o
    obtain ⟨hplaced, all, hall⟩ | ⟨hplaced, hall⟩ := enumSectionMetadata_all hsymtab
    · have hpassed := passedOf_of_sections hsections hall hoffsets
      refine ⟨fun _ o => ?_, fun items hitems => iff_of_true ?_ hplaced⟩
      · rw [hshows, hpassed]
      · rw [hpassed]
        exact (hshows _).mp hitems
    · have hpassed := passedOf_of_panic hsections hall
      refine ⟨fun h => absurd h hplaced, fun items _ => iff_of_false ?_ hplaced⟩
      rw [hpassed]
      simp

end Same

/-! ### A file with a symbol

Its section of names is at `strings`, its symbol section has one function. -/

def symbolFile (strings : Nat) : Bytes :=
  [127, 69, 76, 70, 2, 1, 1, 0] ++ toLe 8 0 ++
  toLe 24 0 ++ toLe 8 64 ++ toLe 10 0 ++ toLe 2 64 ++ toLe 2 3 ++ toLe 2 1 ++
  toLe 64 0 ++
  toLe 4 1 ++ toLe 4 3 ++ toLe 16 0 ++ toLe 8 strings ++ toLe 32 0 ++
  toLe 4 0 ++ toLe 4 SHT_SYMTAB ++ toLe 16 0 ++ toLe 8 256 ++ toLe 8 24 ++ toLe 16 0 ++ toLe 8 24 ++
  toLe 4 280 ++ toLe 4 STT_FUNC ++ toLe 8 4096 ++ toLe 8 1 ++
  [102, 0]

def symbolFileIterator (strings : Nat) : ElfSymbolIterator where
  reader := File.ofBytes (symbolFile strings)
  sections := []
  sectionIndex := 0
  sectionOffsets := []
  sectionStrOffset := 0
  loadHeader := { p_offset := 0, p_vaddr := 0 }
  systemPageMask := 2 ^ 64 - 4096
  entryCount := 0
  entryIndex := 0
  reset_ := true

/-- The section of `symbolFile` that has the symbol. -/
def symbolFileSection (strings : Nat) : SectionMetadata where
  secType := SHT_SYMTAB
  address := 0
  offset := 256
  size := 24
  entrySize := 24
  nameOffset := strings
  link := 0
  class_ := ELFCLASS64

theorem namesPlaced_symbolFile : NamesPlaced .on (symbolFileIterator 280).reader := by
  intro _ class_ layout header secs hclass hlayout hwalked
  have hclass64 : ELFCLASS64 = class_ := Except.ok.inj hclass
  subst hclass64
  have hlayout64 : elf64 = layout := Option.some.inj hlayout
  subst hlayout64
  have hfound : walked .on elf64 (symbolFileIterator 280).reader = .ok
      (toLe 24 0 ++ toLe 8 64 ++ toLe 10 0 ++ toLe 2 64 ++ toLe 2 3 ++ toLe 2 1,
        [toLe 64 0, toLe 4 1 ++ toLe 4 3 ++ toLe 16 0 ++ toLe 8 280 ++ toLe 32 0,
          toLe 4 0 ++ toLe 4 SHT_SYMTAB ++ toLe 16 0 ++ toLe 8 256 ++ toLe 8 24 ++ toLe 16 0 ++
            toLe 8 24]) := rfl
  rw [hfound] at hwalked
  cases hwalked
  decide

theorem symbolIterator_symbolFile :
    passedOf .on (symbolFileIterator 280) = ⟨[{ start := 4096, end_ := 4096, name := "f" }], false⟩ := by
  have hshows : Shows .on (symbolFileIterator 280) ElfSymbol.new
      ⟨[{ start := 4096, end_ := 4096, name := "f" }], false⟩ := by
    have hsections : symbolSections .on (symbolFileIterator 280).reader =
        .ok [symbolFileSection 280] := rfl
    have hoffsets : getSectionOffsets .on (symbolFileIterator 280).reader none [] =
        .ok [0, 280, 256] := rfl
    refine (shows_of_sections hsections hoffsets _).mpr ?_
    decide +kernel
  exact ((symbolIterator_iff .on (symbolFileIterator 280) ElfSymbol.new).1
    namesPlaced_symbolFile _).mp hshows

/-- A name past the end of the address space keeps `get_symbols` from the symbol. -/
theorem symbolIterator_unplaced :
    Shows .on (symbolFileIterator 18446744073709551615) ElfSymbol.new
        ⟨[{ start := 4096, end_ := 4096, name := "f" }], false⟩ ∧
      passedOf .on (symbolFileIterator 18446744073709551615) = ⟨[], true⟩ := by
  have hsections : symbolSections .on (symbolFileIterator 18446744073709551615).reader =
      .ok [symbolFileSection 18446744073709551615] := rfl
  have hoffsets : getSectionOffsets .on (symbolFileIterator 18446744073709551615).reader none [] =
      .ok [0, 18446744073709551615, 256] := rfl
  constructor
  · refine (shows_of_sections hsections hoffsets _).mpr ?_
    decide +kernel
  · exact passedOf_of_panic hsections rfl

end OneCollect.Ruwind.Elf
