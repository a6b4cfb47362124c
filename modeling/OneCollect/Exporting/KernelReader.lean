import OneCollect.Exporting.Symbols
import OneCollect.Theory.Iterate
import OneCollect.Theory.Text
import Mathlib.Data.List.Chain

/-! The reader of kernel symbols: `KernelSymbolReader` of `symbols.rs` over the lines of
`/proc/kallsyms`. It looks one symbol ahead, and the line behind a symbol ends it.

A reset leaves the name of the symbol ahead (`reset_iff`), and a symbol ends in front of its start
where the next line has its address (`kernelRanges_iff`). -/

namespace OneCollect.Exporting
open Theory

/-! ## The reader -/

structure KernelLine where
  addr : Nat
  symtype : List Char
  method : List Char
  module : Option (List Char)
  deriving DecidableEq, Repr

namespace KernelLine

/-- The parts of a line, empty where there are too few of them. -/
def parse (buffer : List Char) : Exec KernelLine :=
  match splitWhitespace buffer with
  | [] => .ok ⟨0, [], [], none⟩
  | part :: parts => do
    let addr ← orPanic (fromHex 64 part)
    .ok ⟨addr, parts.getD 0 [], parts.getD 1 [], parts[2]?⟩

def isMethod (self : KernelLine) : Bool :=
  ['t'].isPrefixOf self.symtype || ['T'].isPrefixOf self.symtype

/-- The name that is pushed for a symbol. -/
def name (self : KernelLine) : List Char :=
  match self.module with
  | some module => module ++ ' ' :: self.method
  | none => self.method

end KernelLine

/-- An open file, and what is left to read of it: what `read_line` gives in turn. -/
structure LineReader where
  file : List (Option (List Char))
  rest : List (Option (List Char))
  seekable : Bool := true
  deriving DecidableEq, Repr

structure KernelSymbolReader where
  reader : Option LineReader := none
  currentIp : Nat := 0
  currentEnd : Option Nat := none
  currentName : List Char := []
  nextIp : Option Nat := none
  nextName : List Char := []
  done : Bool := true
  deriving DecidableEq, Repr

namespace KernelSymbolReader

section Reader

variable (checks : OverflowChecks)

/-- Swap next with current. -/
def swapNext (self : KernelSymbolReader) : KernelSymbolReader :=
  match self.nextIp with
  | some ip =>
    { self with
      currentIp := ip, currentEnd := none, currentName := self.nextName, nextIp := none,
      nextName := [] }
  | none => self

/-- The end of the current symbol, once a line is read. -/
def endAt (self : KernelSymbolReader) (addr : Nat) : Exec (Option Nat) :=
  if self.currentEnd = none ∧ self.currentIp ≠ 0 then (checks.subU64 addr 1).map some
  else .ok self.currentEnd

/-- The loop over the lines, up to a method. -/
def loadLines (reader : LineReader) :
    KernelSymbolReader → List (Option (List Char)) → Exec KernelSymbolReader
  | self, [] => .ok { self with reader := some { reader with rest := [] }, done := true }
  | self, none :: rest => .ok { self with reader := some { reader with rest }, done := true }
  | self, some buffer :: rest => do
    let line ← KernelLine.parse buffer
    let currentEnd ← self.endAt checks line.addr
    let self := { self with currentEnd }
    if line.isMethod then
      .ok { self with
        reader := some { reader with rest }, nextIp := some line.addr,
        nextName := self.nextName ++ line.name, done := false }
    else loadLines reader self rest

def loadNext (self : KernelSymbolReader) : Exec KernelSymbolReader :=
  let self := self.swapNext
  match self.reader with
  | some reader => loadLines checks reader self reader.rest
  | none => .ok { self with done := true }

/-- `reset`; without a file it reads that of the system, if there is one. -/
def reset (kallsyms : Option (List (Option (List Char)))) (self : KernelSymbolReader) :
    Exec KernelSymbolReader :=
  let self := { self with currentIp := 0, currentEnd := none, nextIp := none, done := true }
  match self.reader.filter (·.seekable) with
  | some reader =>
    loadNext checks { self with reader := some { reader with rest := reader.file }, done := false }
  | none =>
    match kallsyms with
    | some file => loadNext checks { self with reader := some ⟨file, file, true⟩, done := false }
    | none => .ok self

def setFile (kallsyms : Option (List (Option (List Char)))) (self : KernelSymbolReader)
    (file : List (Option (List Char))) : Exec KernelSymbolReader :=
  { self with reader := some ⟨file, file, true⟩ }.reset checks kallsyms

def next (self : KernelSymbolReader) : Exec (Bool × KernelSymbolReader) :=
  if self.done then .ok (false, self)
  else do
    let self ← self.loadNext checks
    .ok (true, self)

/-- What `start`, `end` and `name` give. -/
def entry (self : KernelSymbolReader) : SymbolEntry where
  start := self.currentIp
  stop := self.currentEnd.getD (2 ^ 64 - 1)
  name := String.ofList self.currentName

def iterator : Iterator KernelSymbolReader SymbolEntry := ⟨next checks, entry⟩

end Reader

end KernelSymbolReader

/-! ## The symbols of a text -/

/-- The lines of a text. -/
def HoldsLines (file : List (Option (List Char))) (lines : List KernelLine) : Prop :=
  List.Forall₂ (fun read line => ∃ buffer, read = some buffer ∧ KernelLine.parse buffer = .ok line)
    file lines

/-- A difference that wraps around. -/
def addrBefore (addr : Nat) : Nat := (addr + 2 ^ 64 - 1) % 2 ^ 64

/-- Where a symbol ends, by the line behind it; one at address 0 is not ended. -/
def endOf (ip : Nat) (lines : List KernelLine) : Nat :=
  if ip = 0 then 2 ^ 64 - 1 else (lines.head?.map fun line => addrBefore line.addr).getD (2 ^ 64 - 1)

/-- The symbols of a text, when something stands in front of the first name. -/
def symbolsFrom (front : List Char) : List KernelLine → List SymbolEntry
  | [] => []
  | line :: lines =>
    if line.isMethod then
      ⟨line.addr, endOf line.addr lines, String.ofList (front ++ line.name), none⟩ ::
        symbolsFrom [] lines
    else symbolsFrom front lines

def symbolsOf (lines : List KernelLine) : List SymbolEntry := symbolsFrom [] lines

/-- The addresses can be read: none lies behind a method as a 0 that a difference goes below. -/
def Readable (checks : OverflowChecks) (lines : List KernelLine) : Prop :=
  lines.IsChain fun line later => line.isMethod → line.addr ≠ 0 → later.addr = 0 → checks = .off

namespace KernelSymbolReader

variable {checks : OverflowChecks} {file rest : List (Option (List Char))}
  {lines all : List KernelLine} {self : KernelSymbolReader} {front : List Char}
  {entries : List SymbolEntry}

/-- What is left of the lines of a file from a state on: nothing behind its end, else the symbol
ahead with `front` before its name, and those of the lines behind it. -/
inductive Left (checks : OverflowChecks) (file : List (Option (List Char)))
    (all : List KernelLine) (front : List Char) : KernelSymbolReader → List SymbolEntry → Prop where
  | done {self : KernelSymbolReader} {rest : List (Option (List Char))}
    (hreader : self.reader = some ⟨file, rest, true⟩) (hdone : self.done = true)
    (hnext : self.nextIp = none) (hname : self.nextName = front) : Left checks file all front self []
  | ahead {self : KernelSymbolReader} {line : KernelLine} {lines : List KernelLine}
    {rest : List (Option (List Char))} (hreader : self.reader = some ⟨file, rest, true⟩)
    (hdone : self.done = false) (hnext : self.nextIp = some line.addr)
    (hname : self.nextName = front ++ line.name) (hrest : HoldsLines rest lines)
    (hreadable : Readable checks (line :: lines)) (hsuffix : line :: lines <:+ all)
    (hmethod : line.isMethod = true) : Left checks file all front self
      (⟨line.addr, endOf line.addr lines, String.ofList (front ++ line.name), none⟩ ::
        symbolsOf lines)

theorem parse_addr_lt {buffer : List Char} {line : KernelLine}
    (h : KernelLine.parse buffer = .ok line) : line.addr < 2 ^ 64 := by
  unfold KernelLine.parse at h
  cases hwords : splitWhitespace buffer with
  | nil =>
    rw [hwords] at h
    cases h
    decide
  | cons part parts =>
    rw [hwords] at h
    dsimp only at h
    cases hhex : fromHex 64 part with
    | none =>
      rw [hhex] at h
      cases h
    | some addr =>
      rw [hhex] at h
      cases h
      exact fromHex_lt hhex

theorem addr_lt_of_holds (h : HoldsLines file lines) : ∀ line ∈ lines, line.addr < 2 ^ 64 := by
  induction h with
  | nil => exact fun _ h => absurd h List.not_mem_nil
  | cons hline hrest ih =>
    obtain ⟨buffer, -, hparse⟩ := hline
    exact List.forall_mem_cons.mpr ⟨parse_addr_lt hparse, ih⟩

/-- The end of the current symbol, as a difference that may wrap around. -/
theorem endAt_eq {addr : Nat} (hlt : addr < 2 ^ 64)
    (h : self.currentEnd = none → self.currentIp ≠ 0 → addr = 0 → checks = .off) :
    self.endAt checks addr = .ok (if self.currentEnd = none ∧ self.currentIp ≠ 0 then
      some (addrBefore addr) else self.currentEnd) := by
  unfold endAt
  split_ifs with hend
  · have hsub : checks.subU64 addr 1 = .ok (addrBefore addr) := by
      by_cases hzero : addr = 0
      · rw [h hend.1 hend.2 hzero, OverflowChecks.subU64, addrBefore]
      · have hvalue : addrBefore addr = addr - 1 := by
          unfold addrBefore
          omega
        rw [hvalue]
        exact checks.subU64_of_le (Nat.pos_of_ne_zero hzero) hlt
    rw [hsub]
    rfl
  · rfl

/-- **The loop over the lines** ends the current symbol at the first of them, and looks ahead to
the first method. -/
theorem loadLines_left {reader : LineReader} (hfile : reader.file = file)
    (hseek : reader.seekable = true) (hrest : HoldsLines rest lines)
    (hreadable : Readable checks lines) (hsuffix : lines <:+ all) (hnext : self.nextIp = none)
    (hname : self.nextName = front)
    (hend : ∀ line ∈ lines.head?, self.currentEnd = none → self.currentIp ≠ 0 → line.addr = 0 →
      checks = .off) :
    ∃ after, loadLines checks reader self rest = .ok after ∧
      after.currentIp = self.currentIp ∧ after.currentName = self.currentName ∧
      after.currentEnd = (if self.currentEnd = none ∧ self.currentIp ≠ 0 then
        lines.head?.map fun line => addrBefore line.addr else self.currentEnd) ∧
      Left checks file all front after (symbolsFrom front lines) := by
  induction hrest generalizing self with
  | nil =>
    refine ⟨_, rfl, rfl, rfl, ?_, .done (by rw [hfile, hseek]) rfl hnext hname⟩
    split_ifs with hnone
    · exact hnone.1
    · rfl
  | @cons read line rest lines hline hrest ih =>
    obtain ⟨buffer, rfl, hparse⟩ := hline
    have hcurrent := endAt_eq (parse_addr_lt hparse) (hend line rfl)
    rw [loadLines, hparse, ok_bind, hcurrent, ok_bind, symbolsFrom]
    by_cases hmethod : line.isMethod = true
    · rw [if_pos hmethod, if_pos hmethod]
      refine ⟨_, rfl, rfl, rfl, rfl, ?_⟩
      exact .ahead (by rw [hfile, hseek]) rfl rfl (by rw [hname]) hrest hreadable hsuffix hmethod
    · have hsuffix := (List.suffix_cons line lines).trans hsuffix
      rw [if_neg hmethod, if_neg hmethod]
      have htail : ∀ {currentEnd : Option Nat}, (currentEnd = none → self.currentIp = 0) →
          ∀ line ∈ lines.head?, currentEnd = none → self.currentIp ≠ 0 → line.addr = 0 →
            checks = .off := fun hset _ _ hnone hip => absurd (hset hnone) hip
      by_cases hopen : self.currentEnd = none ∧ self.currentIp ≠ 0
      · rw [if_pos hopen]
        obtain ⟨after, hrun, hip, hcur, hstop, hleft⟩ := @ih
          { self with currentEnd := some (addrBefore line.addr) } hreadable.tail hsuffix hnext hname
          (htail (fun h => nomatch h))
        rw [if_neg fun h => nomatch h.1] at hstop
        exact ⟨after, hrun, hip, hcur, hstop.trans (if_pos hopen).symm, hleft⟩
      · rw [if_neg hopen]
        have hset : self.currentEnd = none → self.currentIp = 0 := fun hnone => by
          by_contra hip
          exact hopen ⟨hnone, hip⟩
        obtain ⟨after, hrun, hip, hcur, hstop, hleft⟩ := @ih
          { self with currentEnd := self.currentEnd } hreadable.tail hsuffix hnext hname (htail hset)
        rw [if_neg hopen] at hstop
        exact ⟨after, hrun, hip, hcur, hstop.trans (if_neg hopen).symm, hleft⟩

theorem next_done {self : KernelSymbolReader} (h : self.done = true) :
    next checks self = .ok (false, self) := if_pos h

/-- **One call** shows the symbol ahead, and looks ahead to the next one. -/
theorem Left.step {entry : SymbolEntry} (h : Left checks file all front self (entry :: entries)) :
    ∃ after, next checks self = .ok (true, after) ∧ after.entry = entry ∧
      Left checks file all [] after entries := by
  cases h with
  | @ahead line lines rest hreader hdone hnext hname hrest hreadable hsuffix hmethod =>
    have hswap : self.swapNext =
        { self with
          reader := some ⟨file, rest, true⟩, currentIp := line.addr, currentEnd := none,
          currentName := front ++ line.name, nextIp := none, nextName := [] } := by
      rw [swapNext, hnext, ← hreader, hname]
    have hend : ∀ later ∈ lines.head?, self.swapNext.currentEnd = none →
        self.swapNext.currentIp ≠ 0 → later.addr = 0 → checks = .off := by
      intro later hlater _ hip hzero
      rw [hswap] at hip
      exact hreadable.rel_head? hlater hmethod hip hzero
    rw [hswap] at hend
    obtain ⟨after, hrun, hip, hcur, hstop, hleft⟩ :=
      @loadLines_left checks file rest lines all _ [] ⟨file, rest, true⟩ rfl rfl hrest
        hreadable.tail ((List.suffix_cons line lines).trans hsuffix) rfl rfl hend
    refine ⟨after, ?_, ?_, hleft⟩
    · have hload : self.loadNext checks = .ok after := by
        rw [loadNext, hswap]
        exact hrun
      rw [next, if_neg (by rw [hdone]; decide), hload, ok_bind]
    · have hstop : after.currentEnd.getD (2 ^ 64 - 1) = endOf line.addr lines := by
        rw [hstop, endOf]
        by_cases hzero : line.addr = 0
        · rw [if_pos hzero, if_neg fun h => h.2 hzero]
          rfl
        · rw [if_neg hzero, if_pos ⟨rfl, hzero⟩]
      rw [KernelSymbolReader.entry, hip, hcur, hstop]

/-- Behind a reset all symbols are left; what was in the name ahead stays in front. -/
theorem reset_left (hlines : HoldsLines file lines) (hreadable : Readable checks lines)
    (hreader : self.reader = some ⟨file, rest, true⟩) (kallsyms : Option (List (Option (List Char)))) :
    ∃ after, self.reset checks kallsyms = .ok after ∧
      Left checks file lines self.nextName after (symbolsFrom self.nextName lines) := by
  obtain ⟨after, hrun, -, -, -, hleft⟩ := @loadLines_left checks file file lines lines
    { self with
      reader := some ⟨file, file, true⟩, currentIp := 0, currentEnd := none, nextIp := none,
      done := false } self.nextName ⟨file, file, true⟩ rfl rfl hlines hreadable
      (List.suffix_refl _) rfl rfl
    fun _ _ _ hip => absurd rfl hip
  refine ⟨after, ?_, hleft⟩
  unfold reset
  dsimp only
  rw [hreader]
  exact hrun

theorem leaves (checks : OverflowChecks) (file : List (Option (List Char)))
    (all : List KernelLine) :
    (iterator checks).Leaves (Left checks file all []) where
  stop h := by
    cases h with
    | done hreader hdone hnext hname => exact ⟨_, next_done hdone, .done hreader hdone hnext hname⟩
  step h := h.step

theorem Left.iterates (h : Left checks file all front self entries) :
    (iterator checks).Iterates self entries := by
  cases entries with
  | nil =>
    cases h with
    | done hreader hdone hnext hname => exact .stop (next_done hdone)
  | cons entry entries =>
    obtain ⟨after, hnext, rfl, hleft⟩ := h.step
    exact .step hnext ((leaves checks file all).iterates hleft)

/-- A reader of a file has all its symbols left. -/
theorem setFile_left (hlines : HoldsLines file lines) (hreadable : Readable checks lines)
    (kallsyms : Option (List (Option (List Char)))) :
    ∃ fresh, setFile checks kallsyms {} file = .ok fresh ∧
      Left checks file lines [] fresh (symbolsOf lines) :=
  reset_left hlines hreadable rfl kallsyms

/-! ## Resets -/

theorem length_symbolsFrom (front : List Char) (lines : List KernelLine) :
    (symbolsFrom front lines).length = (lines.filter (·.isMethod)).length := by
  induction lines generalizing front with
  | nil => rfl
  | cons line lines ih =>
    rw [symbolsFrom]
    by_cases hmethod : line.isMethod = true
    · rw [if_pos hmethod, List.filter_cons_of_pos hmethod, List.length_cons, List.length_cons, ih]
    · rw [if_neg hmethod, List.filter_cons_of_neg hmethod, ih]

/-- Something in front of the first name makes a difference. -/
theorem symbolsFrom_ne (hfront : front ≠ []) (h : symbolsOf lines ≠ []) :
    symbolsFrom front lines ≠ symbolsOf lines := by
  induction lines with
  | nil => exact absurd rfl h
  | cons line lines ih =>
    rw [symbolsOf, symbolsFrom] at h ⊢
    rw [symbolsFrom]
    by_cases hmethod : line.isMethod = true
    · rw [if_pos hmethod, if_pos hmethod]
      intro heq
      have hname := congrArg SymbolEntry.name (List.cons.inj heq).1
      have happend : front ++ line.name = [] ++ line.name := String.ofList_injective hname
      exact hfront (List.append_cancel_right happend)
    · rw [if_neg hmethod] at h ⊢
      rw [if_neg hmethod]
      exact ih h

theorem name_ne_nil {line : KernelLine} (h : line.method ≠ []) : line.name ≠ [] := by
  unfold KernelLine.name
  cases line.module with
  | none => exact h
  | some module => exact List.append_ne_nil_of_right_ne_nil _ (List.cons_ne_nil _ _)

/-- Symbols are left as long as there is a name ahead. -/
theorem Left.name_iff (h : Left checks file all [] self entries)
    (hnames : ∀ line ∈ all, line.isMethod → line.method ≠ []) :
    self.nextName = [] ↔ entries = [] := by
  cases h with
  | done hreader hdone hnext hname => exact iff_of_true hname rfl
  | ahead hreader hdone hnext hname hrest hreadable hsuffix hmethod =>
    refine iff_of_false ?_ (List.cons_ne_nil _ _)
    rw [hname]
    exact name_ne_nil (hnames _ (hsuffix.subset List.mem_cons_self) hmethod)

theorem Left.reader (h : Left checks file all front self entries) :
    ∃ rest, self.reader = some ⟨file, rest, true⟩ := by
  cases h with
  | done hreader => exact ⟨_, hreader⟩
  | ahead hreader => exact ⟨_, hreader⟩

/-- **Reset.** Behind some calls and a reset the symbols are those of a fresh reader if and only if
the calls reached the last symbol. -/
theorem reset_iff (hlines : HoldsLines file lines) (hreadable : Readable checks lines)
    (hnames : ∀ line ∈ lines, line.isMethod → line.method ≠ [])
    (kallsyms : Option (List (Option (List Char)))) (n : Nat) :
    ∃ fresh entries shown self again, setFile checks kallsyms {} file = .ok fresh ∧
      (iterator checks).Iterates fresh entries ∧
      (iterator checks).calls n fresh = .ok (shown, self) ∧
      self.reset checks kallsyms = .ok again ∧
      ((iterator checks).Iterates again entries ↔ (lines.filter (·.isMethod)).length ≤ n) := by
  obtain ⟨fresh, hfresh, hleft⟩ := setFile_left hlines hreadable kallsyms
  obtain ⟨self, hcalls, hself⟩ := (leaves checks file lines).calls hleft n
  obtain ⟨rest, hreader⟩ := hself.reader
  obtain ⟨again, hagain, hback⟩ := reset_left hlines hreadable hreader kallsyms
  refine ⟨fresh, _, _, self, again, hfresh, hleft.iterates, hcalls, hagain, ?_⟩
  rw [← length_symbolsFrom [], ← List.drop_eq_nil_iff]
  have hempty := hself.name_iff hnames
  constructor
  · intro h
    by_contra hmore
    refine symbolsFrom_ne (hempty.not.mpr hmore) ?_ (hback.iterates.unique h)
    intro hnil
    have hlength : (symbolsOf lines).length ≤ n :=
      (List.length_eq_zero_iff.mpr hnil).le.trans (Nat.zero_le n)
    exact hmore (List.drop_eq_nil_of_le hlength)
  · intro h
    rw [hempty.mpr h] at hback
    exact hback.iterates

def kernelLine (name : Char) : KernelLine := ⟨10, ['T'], [name], none⟩

def kernelText (name : Char) : List Char := ['a', ' ', 'T', ' ', name]

theorem holds_kernelText : HoldsLines [some (kernelText 'x')] [kernelLine 'x'] :=
  .cons ⟨_, rfl, rfl⟩ .nil

theorem readable_kernelLine : Readable checks [kernelLine 'x'] := .singleton _

theorem kernelLine_named : ∀ line ∈ [kernelLine 'x'], line.isMethod → line.method ≠ [] := by
  decide

theorem reset_iff_last :
    ∃ fresh entries shown self again,
      setFile .on none {} [some (kernelText 'x')] = .ok fresh ∧
        (iterator .on).Iterates fresh entries ∧
        (iterator .on).calls 1 fresh = .ok (shown, self) ∧ self.reset .on none = .ok again ∧
        ((iterator .on).Iterates again entries ↔
          ([kernelLine 'x'].filter (·.isMethod)).length ≤ 1) :=
  reset_iff holds_kernelText readable_kernelLine kernelLine_named none 1

/-- Right behind the start a reset writes the first name twice. -/
theorem reset_not_fresh :
    ¬ ∀ (checks : OverflowChecks) (file : List (Option (List Char))) (lines : List KernelLine)
      (n : Nat) (fresh self again : KernelSymbolReader) (entries shown : List SymbolEntry),
      HoldsLines file lines → Readable checks lines →
      (∀ line ∈ lines, line.isMethod → line.method ≠ []) →
      setFile checks none {} file = .ok fresh → (iterator checks).Iterates fresh entries →
      (iterator checks).calls n fresh = .ok (shown, self) → self.reset checks none = .ok again →
      (iterator checks).Iterates again entries := by
  intro h
  obtain ⟨fresh, hfresh, hleft⟩ := @setFile_left .on _ _ holds_kernelText readable_kernelLine none
  obtain ⟨rest, hreader⟩ := hleft.reader
  obtain ⟨again, hagain, hback⟩ :=
    reset_left holds_kernelText readable_kernelLine hreader none
  have hsame := h .on _ _ 0 fresh fresh again _ [] holds_kernelText readable_kernelLine
    kernelLine_named hfresh hleft.iterates rfl hagain
  have hsome : symbolsOf [kernelLine 'x'] ≠ [] := List.cons_ne_nil _ _
  have hfront := (hleft.name_iff kernelLine_named).not.mpr hsome
  exact symbolsFrom_ne hfront hsome (hback.iterates.unique hsame)

/-! ## Ranges -/

/-- What the symbols of a text are to be: its methods in turn, each with a range, next to each other
and up to the last address. -/
structure KernelRanges (lines : List KernelLine) (entries : List SymbolEntry) : Prop where
  symbols : entries.map (fun entry => (entry.start, entry.name)) =
    (lines.filter (·.isMethod)).map fun line => (line.addr, String.ofList line.name)
  ordered : ∀ entry ∈ entries, entry.start ≤ entry.stop
  apart : entries.IsChain fun entry later => entry.start = later.start ∨ entry.stop < later.start
  last : ∀ line ∈ lines.getLast?, line.isMethod → ∃ entry ∈ entries.getLast?,
    entry.stop = 2 ^ 64 - 1

section Ranges

variable (hsorted : lines.Pairwise fun line later => line.addr ≤ later.addr)
  (hzero : ∀ line ∈ lines, line.addr ≠ 0) (hlt : ∀ line ∈ lines, line.addr < 2 ^ 64)

theorem symbolsOf_cons (line : KernelLine) (lines : List KernelLine) :
    symbolsOf (line :: lines) =
      (if line.isMethod then [⟨line.addr, endOf line.addr lines, String.ofList line.name, none⟩]
        else []) ++ symbolsOf lines := by
  rw [symbolsOf, symbolsFrom, List.nil_append]
  split_ifs <;> rfl

theorem symbolsOf_symbols (lines : List KernelLine) :
    (symbolsOf lines).map (fun entry => (entry.start, entry.name)) =
      (lines.filter (·.isMethod)).map fun line => (line.addr, String.ofList line.name) := by
  induction lines with
  | nil => rfl
  | cons line lines ih =>
    rw [symbolsOf_cons, List.map_append, ih]
    by_cases hmethod : line.isMethod = true
    · rw [if_pos hmethod, List.filter_cons_of_pos hmethod]
      rfl
    · rw [if_neg hmethod, List.filter_cons_of_neg hmethod]
      rfl

theorem start_mem {entry : SymbolEntry} (h : entry ∈ symbolsOf lines) :
    ∃ line ∈ lines, entry.start = line.addr := by
  have hmem : (entry.start, entry.name) ∈ (symbolsOf lines).map fun e => (e.start, e.name) :=
    List.mem_map_of_mem h
  rw [symbolsOf_symbols] at hmem
  obtain ⟨line, hline, heq⟩ := List.mem_map.mp hmem
  exact ⟨line, List.mem_of_mem_filter hline, (Prod.mk.inj heq).1.symm⟩

/-- The line behind a symbol ends it. -/
theorem endOf_cons {ip : Nat} {later : KernelLine} (hip : ip ≠ 0) (hlater : later.addr ≠ 0)
    (hlt : later.addr < 2 ^ 64) : endOf ip (later :: lines) = later.addr - 1 := by
  rw [endOf, if_neg hip, List.head?_cons, Option.map_some, Option.getD_some, addrBefore]
  omega

include hsorted hzero hlt

theorem symbolsOf_apart :
    (symbolsOf lines).IsChain fun entry later =>
      entry.start = later.start ∨ entry.stop < later.start := by
  induction lines with
  | nil => exact .nil
  | cons line lines ih =>
    obtain ⟨hline, hsorted⟩ := List.pairwise_cons.mp hsorted
    obtain ⟨hip, hzero⟩ := List.forall_mem_cons.mp hzero
    obtain ⟨-, hlt⟩ := List.forall_mem_cons.mp hlt
    rw [symbolsOf_cons]
    split_ifs with hmethod
    · refine (ih hsorted hzero hlt).cons fun later hlater => .inr ?_
      obtain ⟨next, hnext, hstart⟩ := start_mem (List.mem_of_mem_head? hlater)
      rw [hstart]
      cases lines with
      | nil => exact absurd hnext List.not_mem_nil
      | cons first lines =>
        have hfirst := hzero first List.mem_cons_self
        have hle : first.addr ≤ next.addr := by
          rcases List.mem_cons.mp hnext with rfl | hnext
          · exact le_refl _
          · exact (List.pairwise_cons.mp hsorted).1 next hnext
        rw [endOf_cons hip hfirst (hlt first List.mem_cons_self)]
        dsimp only
        omega
    · exact ih hsorted hzero hlt

/-- A range is in order if and only if the line behind its method has a later address. -/
theorem symbolsOf_ordered_iff :
    (∀ entry ∈ symbolsOf lines, entry.start ≤ entry.stop) ↔
      lines.IsChain fun line later => line.isMethod → line.addr < later.addr := by
  induction lines with
  | nil => exact iff_of_true (fun _ h => absurd h List.not_mem_nil) .nil
  | cons line lines ih =>
    obtain ⟨hip, hzero⟩ := List.forall_mem_cons.mp hzero
    obtain ⟨hline, hlt⟩ := List.forall_mem_cons.mp hlt
    rw [symbolsOf_cons, List.isChain_cons, List.forall_mem_append,
      ih (List.pairwise_cons.mp hsorted).2 hzero hlt]
    refine and_congr_left fun _ => ?_
    have hend : line.addr ≤ endOf line.addr lines ↔ ∀ later ∈ lines.head?, line.addr < later.addr := by
      cases lines with
      | nil =>
        refine iff_of_true ?_ fun _ h => nomatch h
        rw [endOf, if_neg hip]
        exact Nat.le_sub_one_of_lt hline
      | cons later lines =>
        have hlater := hzero later List.mem_cons_self
        rw [endOf_cons hip hlater (hlt later List.mem_cons_self)]
        simp only [List.head?_cons, Option.mem_some_iff, forall_eq']
        omega
    split_ifs with hmethod
    · rw [List.forall_mem_singleton, hend]
      exact forall₂_congr fun _ _ => ⟨fun hless _ => hless, fun hless => hless hmethod⟩
    · exact iff_of_true (fun _ h => absurd h List.not_mem_nil) fun _ _ h => absurd h hmethod

omit hsorted hlt in
theorem symbolsOf_last : ∀ line ∈ lines.getLast?, line.isMethod →
    ∃ entry ∈ (symbolsOf lines).getLast?, entry.stop = 2 ^ 64 - 1 := by
  intro line hline hmethod
  obtain ⟨front, rfl⟩ := List.getLast?_eq_some_iff.mp hline
  induction front with
  | nil =>
    rw [List.nil_append, symbolsOf_cons, if_pos hmethod]
    refine ⟨_, rfl, ?_⟩
    rw [endOf, if_neg (hzero line List.mem_cons_self)]
    rfl
  | cons first front ih =>
    obtain ⟨-, hzero⟩ := List.forall_mem_cons.mp hzero
    obtain ⟨entry, hentry, hstop⟩ := ih hzero (by simp)
    refine ⟨entry, ?_, hstop⟩
    rw [List.cons_append, symbolsOf_cons, List.getLast?_append, hentry]
    rfl

end Ranges

/-- **Ranges.** With addresses in order the symbols are as they are to be if and only if no method
has the address of the line behind it. -/
theorem kernelRanges_iff (hlines : HoldsLines file lines)
    (hsorted : lines.Pairwise fun line later => line.addr ≤ later.addr)
    (hzero : ∀ line ∈ lines, line.addr ≠ 0) (kallsyms : Option (List (Option (List Char)))) :
    ∃ fresh entries, setFile checks kallsyms {} file = .ok fresh ∧
      (iterator checks).Iterates fresh entries ∧
      (KernelRanges lines entries ↔
        lines.IsChain fun line later => line.isMethod → line.addr < later.addr) := by
  have hlt := addr_lt_of_holds hlines
  have hreadable : Readable checks lines := hsorted.isChain.imp_of_mem_imp
    fun line later _ hlater _ _ _ h => absurd h (hzero later hlater)
  obtain ⟨fresh, hfresh, hleft⟩ := setFile_left hlines hreadable kallsyms
  refine ⟨fresh, _, hfresh, hleft.iterates, ?_⟩
  rw [← symbolsOf_ordered_iff hsorted hzero hlt]
  refine ⟨fun h => h.ordered, fun h => ?_⟩
  exact ⟨symbolsOf_symbols lines, h, symbolsOf_apart hsorted hzero hlt, symbolsOf_last hzero⟩

theorem kernelRanges_single :
    ∃ fresh entries, setFile .on none {} [some (kernelText 'x')] = .ok fresh ∧
      (iterator .on).Iterates fresh entries ∧
      (KernelRanges [kernelLine 'x'] entries ↔
        [kernelLine 'x'].IsChain fun line later => line.isMethod → line.addr < later.addr) :=
  kernelRanges_iff holds_kernelText (List.pairwise_singleton _ _) (by decide) none

/-- The first of two methods with one address ends in front of its start. -/
theorem kernelRanges_not :
    ¬ ∀ (checks : OverflowChecks) (file : List (Option (List Char))) (lines : List KernelLine)
      (fresh : KernelSymbolReader) (entries : List SymbolEntry), HoldsLines file lines →
      (lines.Pairwise fun line later => line.addr ≤ later.addr) → (∀ line ∈ lines, line.addr ≠ 0) →
      setFile checks none {} file = .ok fresh → (iterator checks).Iterates fresh entries →
      KernelRanges lines entries := by
  intro h
  have hlines : HoldsLines [some (kernelText 'x'), some (kernelText 'y')]
      [kernelLine 'x', kernelLine 'y'] := .cons ⟨_, rfl, rfl⟩ (.cons ⟨_, rfl, rfl⟩ .nil)
  have hreadable : Readable .on [kernelLine 'x', kernelLine 'y'] :=
    (List.IsChain.singleton _).cons_cons (by decide)
  obtain ⟨fresh, hfresh, hleft⟩ := setFile_left hlines hreadable none
  have hranges := h .on _ _ fresh _ hlines (by decide) (by decide) hfresh hleft.iterates
  exact absurd (hranges.ordered _ List.mem_cons_self) (by decide)

end KernelSymbolReader

end OneCollect.Exporting
