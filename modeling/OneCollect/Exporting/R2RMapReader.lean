import OneCollect.Exporting.PerfMapReader

/-! The reader of the symbol map of a ready-to-run image: `R2RMapSymbolReader` of `symbols.rs`, and
the transformer that moves its ranges.

A reset reads lines up to the signature and drops them, also those of symbols (`initializeFrom_eq`).
The calls behind it skip metadata (`iterates_iff`), and a line that cannot be parsed panics. -/

namespace OneCollect.Exporting
open Theory

/-! ## The reader -/

structure R2RMapSymbolReader where
  reader : LineReader
  startIp : Nat := 0
  endIp : Nat := 0
  name : String := ""
  done : Bool := true
  signature : List UInt8 := List.replicate 16 0
  deriving DecidableEq, Repr

namespace R2RMapSymbolReader

/-- The pairs of digits of a signature; `none` where one is no number. -/
def readPairs : Nat → List Char → Exec (Option (List UInt8))
  | 0, _ => .ok (some [])
  | n + 1, name => do
    let (byteStr, rest) ← orPanic (splitAtByte 2 name)
    match fromHex 8 byteStr with
    | none => .ok none
    | some byte => do
      let bytes ← readPairs n rest
      .ok (bytes.map (UInt8.ofNat byte :: ·))

/-- A name of another length leaves the signature as it is. -/
def readSignature (name : List Char) (buf : List UInt8) : Exec (Option (List UInt8)) :=
  if (encodeUtf8 name).length ≠ 32 then .ok (some buf) else readPairs 16 name

section Reader

variable (checks : OverflowChecks)

/-- The parts of a line, as far as there are any. -/
def loadParts (buffer : List Char) : Exec SymbolEntry := do
  let parts := cutAt ' ' buffer
  let startIp ← orPanic (fromHex 64 (stripMark parts.1))
  match parts.2 with
  | none => .ok ⟨startIp, 0, "", none⟩
  | some rest => do
    let parts := cutAt ' ' rest
    let size ← orPanic (fromHex 64 parts.1)
    let endIp ← checks.addU64 startIp size
    .ok ⟨startIp, endIp, symbolName (parts.2.getD []), none⟩

/-- Nothing was loaded. -/
def finished (self : R2RMapSymbolReader) (rest : TextFile) : R2RMapSymbolReader :=
  { self with
    reader := { self.reader with rest }, startIp := 0, endIp := 0, name := "", done := true }

/-- The parts of a line are loaded. -/
def loaded (self : R2RMapSymbolReader) (rest : TextFile) (line : SymbolEntry) : R2RMapSymbolReader :=
  { self with
    reader := { self.reader with rest }, startIp := line.start, endIp := line.stop
    name := line.name, done := false }

def loadNext (self : R2RMapSymbolReader) : Exec R2RMapSymbolReader :=
  match self.reader.rest with
  | [] => .ok (self.finished [])
  | none :: rest => .ok (self.finished rest)
  | some buffer :: rest => do
    let line ← loadParts checks buffer
    .ok (self.loaded rest line)

/-- A signature that cannot be read is reset to zero. -/
def setSignature (self : R2RMapSymbolReader) : Exec R2RMapSymbolReader := do
  let signature ← readSignature self.name.toList self.signature
  .ok { self with signature := signature.getD (List.replicate 16 0) }

/-- The loop of `initialize`; every turn but the last takes one of the lines. -/
def initializeFrom (self : R2RMapSymbolReader) : TextFile → Exec R2RMapSymbolReader
  | [] => self.loadNext checks
  | _ :: lines => do
    let self ← self.loadNext checks
    if self.done then .ok self
    else if self.startIp = 0xFFFFFFFF then self.setSignature
    else initializeFrom self lines

def reset (self : R2RMapSymbolReader) : Exec R2RMapSymbolReader :=
  if self.reader.seekable then
    initializeFrom checks
      { self with reader := { self.reader with rest := self.reader.file }, done := false }
      self.reader.file
  else .ok { self with startIp := 0, endIp := 0, name := "", done := true }

/-- The loop of `next`; metadata is skipped. -/
def nextSymbol (self : R2RMapSymbolReader) : TextFile → Exec (Bool × R2RMapSymbolReader)
  | [] => do
    let self ← self.loadNext checks
    .ok (!self.done, self)
  | _ :: lines => do
    let self ← self.loadNext checks
    if self.done then .ok (false, self)
    else if self.startIp ≤ 0xFFFFFFF0 then .ok (true, self)
    else nextSymbol self lines

def next (self : R2RMapSymbolReader) : Exec (Bool × R2RMapSymbolReader) :=
  if self.done then .ok (false, self) else self.nextSymbol checks self.reader.rest

def entry (self : R2RMapSymbolReader) : SymbolEntry := ⟨self.startIp, self.endIp, self.name, none⟩

/-- A symbol, with the lines behind it that say which line it comes from. -/
def iterator : Iterator R2RMapSymbolReader (SymbolEntry × TextFile) where
  next := next checks
  item self := (self.entry, self.reader.rest)

end Reader

end R2RMapSymbolReader

structure R2RLoadedLayoutSymbolTransformer where
  symReader : R2RMapSymbolReader
  offset : Nat
  deriving DecidableEq, Repr

namespace R2RLoadedLayoutSymbolTransformer

variable (checks : OverflowChecks)

def reset (self : R2RLoadedLayoutSymbolTransformer) : Exec R2RLoadedLayoutSymbolTransformer := do
  let symReader ← self.symReader.reset checks
  .ok { self with symReader }

def next (self : R2RLoadedLayoutSymbolTransformer) :
    Exec (Bool × R2RLoadedLayoutSymbolTransformer) := do
  let (more, symReader) ← self.symReader.next checks
  .ok (more, { self with symReader })

def start (self : R2RLoadedLayoutSymbolTransformer) : Exec Nat :=
  checks.subU64 self.symReader.startIp self.offset

def stop (self : R2RLoadedLayoutSymbolTransformer) : Exec Nat :=
  checks.subU64 self.symReader.endIp self.offset

/-- The range that is yielded, as integers, with the name and the lines behind it. -/
def iterator : Iterator R2RLoadedLayoutSymbolTransformer
    (Exec Int × Exec Int × String × TextFile) where
  next := next checks
  item self := ((self.start checks).map Int.ofNat, (self.stop checks).map Int.ofNat,
    self.symReader.name, self.symReader.reader.rest)

end R2RLoadedLayoutSymbolTransformer

/-! ## Lines -/

namespace R2RMapSymbolReader

/-- The number in front of a line. -/
def startOf (text : List Char) : Option Nat := fromHex 64 (stripMark (cutAt ' ' text).1)

/-- The name of a line, empty where it has none. -/
def nameOf (text : List Char) : String :=
  symbolName (((cutAt ' ' text).2.bind fun rest => (cutAt ' ' rest).2).getD [])

/-- The numbers of a line, as far as there are any, are numbers, and its end can be computed. -/
def Loads (checks : OverflowChecks) (text : List Char) : Prop :=
  ∃ start, startOf text = some start ∧ ∀ rest ∈ (cutAt ' ' text).2,
    ∃ size, fromHex 64 (cutAt ' ' rest).1 = some size ∧
      (checks = .off ∨ start + size < 2 ^ 64)

/-- A line of a symbol is well formed and ends at an address. -/
def Shown (text : List Char) : Prop :=
  ∀ start, startOf text = some start → start ≤ 0xFFFFFFF0 →
    ∃ line, perfMapForm text = some line ∧ line.start + line.size < 2 ^ 64

section Line

variable {checks : OverflowChecks} {text : List Char} {line : PerfMapLine} {entry : SymbolEntry}

theorem addU64_isOk_iff {a b : Nat} :
    (∃ sum, checks.addU64 a b = .ok sum) ↔ checks = .off ∨ a + b < 2 ^ 64 := by
  cases checks with
  | on => simp [OverflowChecks.addU64, addU64_eq_ok]
  | off => simp [OverflowChecks.addU64]

/-- **A line**, with or without the parts behind its number. -/
theorem loadParts_eq_ok : loadParts checks text = .ok entry ↔
    ∃ start, startOf text = some start ∧
      ((cutAt ' ' text).2 = none ∧ entry = ⟨start, 0, "", none⟩ ∨
        ∃ rest size stop, (cutAt ' ' text).2 = some rest ∧
          fromHex 64 (cutAt ' ' rest).1 = some size ∧ checks.addU64 start size = .ok stop ∧
          entry = ⟨start, stop, symbolName ((cutAt ' ' rest).2.getD []), none⟩) := by
  unfold loadParts
  rw [bind_eq_ok]
  refine exists_congr fun start => and_congr orPanic_eq_ok ?_
  cases (cutAt ' ' text).2 with
  | none => simp [eq_comm]
  | some rest =>
    simp only [bind_eq_ok, orPanic_eq_ok, Option.some.injEq, Except.ok.injEq, reduceCtorEq,
      false_and, false_or]
    constructor
    · rintro ⟨size, hsize, stop, hstop, rfl⟩
      exact ⟨rest, size, stop, rfl, hsize, hstop, rfl⟩
    · rintro ⟨_, size, stop, rfl, hsize, hstop, rfl⟩
      exact ⟨size, hsize, stop, hstop, rfl⟩

theorem loads_iff :
    Loads checks text ↔ ∃ entry, loadParts checks text = .ok entry := by
  simp only [loadParts_eq_ok, Loads, ← addU64_isOk_iff]
  cases (cutAt ' ' text).2 with
  | none => simp
  | some rest =>
    simp only [Option.mem_some_iff, forall_eq', Option.some.injEq, reduceCtorEq, false_and,
      false_or]
    constructor
    · rintro ⟨start, hstart, size, hsize, stop, hstop⟩
      exact ⟨_, start, hstart, rest, size, stop, rfl, hsize, hstop, rfl⟩
    · rintro ⟨entry, start, hstart, _, size, stop, rfl, hsize, hstop, -⟩
      exact ⟨start, hstart, size, hsize, stop, hstop⟩

/-- What is loaded has the number and the name of the line. -/
theorem startOf_of_loadParts (h : loadParts checks text = .ok entry) :
    startOf text = some entry.start ∧ entry.name = nameOf text := by
  obtain ⟨start, hstart, ⟨hrest, rfl⟩ | ⟨rest, size, stop, hrest, -, -, rfl⟩⟩ :=
    loadParts_eq_ok.mp h
  · refine ⟨hstart, ?_⟩
    rw [nameOf, hrest]
    rfl
  · refine ⟨hstart, ?_⟩
    rw [nameOf, hrest, Option.bind_some]

theorem fromHex_of_strictHex {digits : List Char} {n : Nat} (h : strictHex digits = some n) :
    fromHex 64 digits = some n := by
  unfold strictHex at h
  split at h
  · cases h
  · exact h

/-- A well-formed line. -/
theorem loadParts_of_form (h : perfMapForm text = some line) :
    loadParts checks text = .ok entry ↔
      ∃ stop, checks.addU64 line.start line.size = .ok stop ∧
        entry = ⟨line.start, stop, line.name, none⟩ := by
  obtain ⟨startStr, sizeStr, namePart, rfl, hstart, hsize, hstartHex, hsizeHex, hname⟩ :=
    perfMapForm_iff.mp h
  simp only [loadParts_eq_ok, startOf, cutAt_append hstart,
    fromHex_of_strictHex hstartHex, Option.some.injEq, reduceCtorEq, false_and, false_or,
    exists_eq_left']
  constructor
  · rintro ⟨_, size, stop, rfl, hsize', hstop, rfl⟩
    rw [cutAt_append hsize] at hsize' ⊢
    obtain rfl := Option.some.inj (hsize'.symm.trans (fromHex_of_strictHex hsizeHex))
    exact ⟨stop, hstop, by rw [hname, Option.getD_some]⟩
  · rintro ⟨stop, hstop, rfl⟩
    refine ⟨_, line.size, stop, rfl, ?_, hstop, ?_⟩
    · rw [cutAt_append hsize, fromHex_of_strictHex hsizeHex]
    · rw [cutAt_append hsize, hname, Option.getD_some]

theorem startOf_of_form (h : perfMapForm text = some line) : startOf text = some line.start := by
  obtain ⟨startStr, sizeStr, namePart, rfl, hstart, -, hstartHex, -, -⟩ := perfMapForm_iff.mp h
  unfold startOf
  rw [cutAt_append hstart, fromHex_of_strictHex hstartHex]

end Line

/-- The bytes of pairs of digits. -/
def pairBytes : List Char → Option (List UInt8)
  | [] => some []
  | [_] => none
  | first :: second :: rest =>
    (fromHex 8 [first, second]).bind fun byte => (pairBytes rest).map (UInt8.ofNat byte :: ·)

/-- There is a boundary of characters behind every pair of bytes, up to a pair that is no number. -/
def CutInPairs : Nat → List Char → Prop
  | 0, _ => True
  | n + 1, name => ∃ byteStr rest, splitAtByte 2 name = some (byteStr, rest) ∧
    (fromHex 8 byteStr = none ∨ CutInPairs n rest)

/-- A name of the length of a signature can be cut in pairs. -/
def Cuttable (name : List Char) : Prop := (encodeUtf8 name).length = 32 → CutInPairs 16 name

/-- The signature of a file with a line of this name, or of no such line. -/
def signatureOf (name : Option String) : List UInt8 :=
  match name with
  | none => List.replicate 16 0
  | some name =>
    if (encodeUtf8 name.toList).length ≠ 32 then List.replicate 16 0
    else (pairBytes name.toList).getD (List.replicate 16 0)

theorem signatureOf_some (name : String) : signatureOf (some name) =
    (if (encodeUtf8 name.toList).length ≠ 32 then some (List.replicate 16 0)
      else pairBytes name.toList).getD (List.replicate 16 0) := by
  unfold signatureOf
  dsimp only
  split
  · rfl
  · rfl

section Signature

variable {name : List Char}

theorem hexDigit_of_size {c : Char} (h : c.utf8Size ≠ 1) : hexDigit c = none ∧ c ≠ '+' := by
  have hlarge : ¬ c.val ≤ 127 := fun hle => h (Char.utf8Size_eq_one_iff.mpr hle)
  have hsmall : ∀ d : Char, d.val ≤ 127 → ¬ c ≤ d := fun d hd hle =>
    hlarge (UInt32.le_trans (Char.le_def.mp hle) hd)
  constructor
  · unfold hexDigit
    rw [if_neg fun hc => hsmall '9' (by decide) hc.2, if_neg fun hc => hsmall 'f' (by decide) hc.2,
      if_neg fun hc => hsmall 'F' (by decide) hc.2]
  · rintro rfl
    exact hlarge (by decide)

theorem fromHex_of_size {bits : Nat} {c : Char} (hc : c.utf8Size ≠ 1) (h : c ∈ name) :
    fromHex bits name = none :=
  fromHex_of_mem (hexDigit_of_size hc).1 (hexDigit_of_size hc).2 h

theorem length_encodeUtf8_cons (c : Char) (name : List Char) :
    (encodeUtf8 (c :: name)).length = c.utf8Size + (encodeUtf8 name).length := by
  simp [encodeUtf8_eq]

/-- Two bytes are those of one character or of two. -/
theorem splitAtByte_two {first : Char} {byteStr rest : List Char}
    (h : splitAtByte 2 (first :: name) = some (byteStr, rest)) :
    (byteStr = [first] ∧ first.utf8Size = 2) ∨ ∃ second, byteStr = [first, second] ∧
      name = second :: rest ∧ first.utf8Size = 1 ∧ second.utf8Size = 1 := by
  have hempty : ∀ text, splitAtByte 0 text = some ([], text) := fun text => by rw [splitAtByte]
  have hpos := first.utf8Size_pos
  rw [splitAtByte] at h
  split_ifs at h with hle
  obtain htwo | hone : first.utf8Size = 2 ∨ first.utf8Size = 1 := by omega
  · rw [htwo, hempty] at h
    cases h
    exact .inl ⟨rfl, htwo⟩
  · rw [hone] at h
    cases name with
    | nil => cases h
    | cons second name =>
      have hpos := second.utf8Size_pos
      rw [splitAtByte] at h
      split_ifs at h with hle
      · have hsecond : second.utf8Size = 1 := by omega
        rw [hsecond, hempty] at h
        cases h
        exact .inr ⟨second, rfl, rfl, hone, hsecond⟩
      · cases h

/-- **Pairs.** -/
theorem readPairs_eq_ok {n : Nat} {read : Option (List UInt8)}
    (hlength : (encodeUtf8 name).length = 2 * n) :
    readPairs n name = .ok read ↔
      CutInPairs n name ∧ read = pairBytes name := by
  induction n generalizing name read with
  | zero =>
    obtain rfl := encodeUtf8_eq_nil.mp (List.eq_nil_of_length_eq_zero hlength)
    simp [readPairs, CutInPairs, pairBytes, eq_comm]
  | succ n ih =>
    rw [readPairs, CutInPairs, bind_eq_ok]
    simp only [orPanic_eq_ok, Prod.exists]
    cases name with
    | nil => simp [encodeUtf8] at hlength
    | cons first name =>
      rw [length_encodeUtf8_cons] at hlength
      cases hsplit : splitAtByte 2 (first :: name) with
      | none => simp
      | some cut =>
        obtain ⟨byteStr, rest⟩ := cut
        simp only [Option.some.injEq, Prod.mk.injEq, exists_and_left, exists_eq_left',
          and_assoc]
        rcases splitAtByte_two hsplit with ⟨rfl, htwo⟩ | ⟨second, rfl, rfl, hone, hsecond⟩
        · have hsize : first.utf8Size ≠ 1 := by omega
          have hbyte : fromHex 8 [first] = none := fromHex_of_size hsize List.mem_cons_self
          have hpairs : pairBytes (first :: name) = none := by
            cases name with
            | nil => rfl
            | cons second name =>
              rw [pairBytes, fromHex_of_size hsize List.mem_cons_self]
              rfl
          simp [hbyte, hpairs, eq_comm]
        · rw [length_encodeUtf8_cons] at hlength
          have hrest : (encodeUtf8 rest).length = 2 * n := by omega
          rw [pairBytes]
          cases hbyte : fromHex 8 [first, second] with
          | none => simp [eq_comm]
          | some byte =>
            simp only [bind_eq_ok, ih hrest, reduceCtorEq, false_or]
            constructor
            · rintro ⟨bytes, ⟨hcut, rfl⟩, h⟩
              exact ⟨hcut, (Except.ok.inj h).symm⟩
            · rintro ⟨hcut, rfl⟩
              exact ⟨_, ⟨hcut, rfl⟩, rfl⟩

theorem readSignature_eq_ok {read : Option (List UInt8)} :
    readSignature name (List.replicate 16 0) = .ok read ↔ Cuttable name ∧
      read = if (encodeUtf8 name).length ≠ 32 then some (List.replicate 16 0)
        else pairBytes name := by
  unfold readSignature Cuttable
  by_cases hlength : (encodeUtf8 name).length = 32
  · simp [hlength, readPairs_eq_ok (n := 16) hlength]
  · simp [hlength, eq_comm]

/-- What is read once is read again. -/
theorem readSignature_again {buf : List UInt8} {read : Option (List UInt8)}
    (h : readSignature name buf = .ok read) :
    ∃ again, readSignature name (read.getD (List.replicate 16 0)) = .ok again ∧
      again.getD (List.replicate 16 0) = read.getD (List.replicate 16 0) := by
  unfold readSignature at h ⊢
  split
  · exact ⟨_, rfl, rfl⟩
  · rename_i hlength
    rw [if_neg hlength] at h
    exact ⟨read, h, rfl⟩

end Signature

/-- The symbols of a file; the numbers behind `0xFFFFFFF0` are for metadata. -/
def symbolLines (lines : List (List UInt8)) : List (SymbolEntry × TextFile) :=
  (formSymbols lines).filter fun item => item.1.start ≤ 0xFFFFFFF0

/-- The lines in front of one that is no text. -/
def readable : List (List UInt8) → List (List Char)
  | [] => []
  | line :: lines =>
    match readLine line with
    | none => []
    | some text => text :: readable lines

/-- The lines behind them. -/
def unread : List (List UInt8) → List (List UInt8)
  | [] => []
  | line :: lines =>
    match readLine line with
    | none => lines
    | some _ => unread lines

/-- The line reads as one of the signature. -/
def marks (text : List Char) : Bool := startOf text = some 0xFFFFFFFF

section Lines

variable {line : List UInt8} {lines : List (List UInt8)} {text : List Char} {parsed : PerfMapLine}

theorem symbolLines_cons (h : readLine line = some text) (hform : perfMapForm text = some parsed)
    (hle : parsed.start ≤ 0xFFFFFFF0) :
    symbolLines (line :: lines) = (parsed.toEntry, lines.map readLine) :: symbolLines lines := by
  simp [symbolLines, formSymbols, h, hform, hle, PerfMapLine.toEntry]

theorem symbolLines_skip (h : ∀ text, readLine line = some text → ∀ parsed,
    perfMapForm text = some parsed → 0xFFFFFFF0 < parsed.start) :
    symbolLines (line :: lines) = symbolLines lines := by
  cases hread : readLine line with
  | none => simp [symbolLines, formSymbols, hread]
  | some text =>
    cases hform : perfMapForm text with
    | none => simp [symbolLines, formSymbols, hread, hform]
    | some parsed =>
      have hlt := h text hread parsed hform
      simp [symbolLines, formSymbols, hread, hform, PerfMapLine.toEntry, hlt]

theorem symbolLines_unreadable (h : readLine line = none) :
    symbolLines (line :: lines) = symbolLines lines := by
  refine symbolLines_skip fun text htext => ?_
  rw [h] at htext
  cases htext

theorem behind_symbolLines {item : SymbolEntry × TextFile} (h : item ∈ symbolLines lines) :
    item.2.length < lines.length :=
  PerfMapSymbolReader.behind_formSymbols (List.mem_of_mem_filter h)

/-- No symbol is of a line in front. -/
theorem cons_ne_symbolLines {entry : SymbolEntry} {items : List (SymbolEntry × TextFile)} :
    (entry, lines.map readLine) :: items ≠ symbolLines lines := by
  intro heq
  have hlength := behind_symbolLines (heq ▸ List.mem_cons_self)
  rw [List.length_map] at hlength
  exact absurd hlength (lt_irrefl _)

end Lines

/-- The signature of the first well-formed line with its number. -/
def fileSignature (lines : List (List UInt8)) : List UInt8 :=
  signatureOf (((formSymbols lines).find? fun item => item.1.start = 0xFFFFFFFF).map
    fun item => item.1.name)

/-- The lines that are read can be loaded. Those of symbols are well formed, and behind the line of
the signature; behind a line that is no text there are none. -/
@[mk_iff]
structure Laid (checks : OverflowChecks) (lines : List (List UInt8)) : Prop where
  loads : ∀ text ∈ readable lines, Loads checks text
  header : ∀ text ∈ (readable lines).takeWhile (!marks ·), ∀ line,
    perfMapForm text = some line → 0xFFFFFFF0 < line.start
  name : ∀ text ∈ (readable lines).find? marks, Cuttable (nameOf text).toList
  shown : ∀ text ∈ ((readable lines).dropWhile (!marks ·)).tail, Shown text
  hidden : symbolLines (unread lines) = []

/-- The first line that reads as that of the signature is the first well-formed one, or has its
bytes. -/
structure Sound (checks : OverflowChecks) (lines : List (List UInt8)) : Prop
    extends Laid checks lines where
  signature : signatureOf (((readable lines).find? marks).map nameOf) = fileSignature lines

/-! ## The calls -/

section Calls

variable {checks : OverflowChecks} {self front : R2RMapSymbolReader} {lines : TextFile}
  {items : List (SymbolEntry × TextFile)}

/-- The symbols that the calls show, up to a line that cannot be read. -/
def shown (checks : OverflowChecks) : TextFile → Exec (List (SymbolEntry × TextFile))
  | [] => .ok []
  | none :: _ => .ok []
  | some text :: rest => do
    let entry ← loadParts checks text
    let items ← shown checks rest
    .ok (if entry.start ≤ 0xFFFFFFF0 then (entry, rest) :: items else items)

/-- **The calls** show the symbols up to the end, and only those. -/
theorem iterates_iff_of_next (hrest : front.reader.rest = lines)
    (hnext : next checks self = front.nextSymbol checks lines) :
    (iterator checks).Iterates self items ↔ shown checks lines = .ok items := by
  induction lines generalizing self front items with
  | nil =>
    have hstop : (iterator checks).next self = .ok (false, front.finished []) := by
      refine hnext.trans ?_
      rw [nextSymbol, loadNext, hrest]
      rfl
    rw [Iterator.iterates_of_stop hstop, shown, Except.ok.injEq, eq_comm]
  | cons line lines ih =>
    rw [nextSymbol, loadNext, hrest] at hnext
    cases line with
    | none =>
      have hstop : (iterator checks).next self = .ok (false, front.finished lines) := hnext
      rw [Iterator.iterates_of_stop hstop, shown, Except.ok.injEq, eq_comm]
    | some text =>
      rw [shown]
      cases hload : loadParts checks text with
      | error fault =>
        simp only [hload] at hnext
        exact iff_of_false (Iterator.not_iterates_of_error hnext) fun h => by cases h
      | ok entry =>
        simp only [hload, ok_bind] at hnext ⊢
        by_cases hle : entry.start ≤ 0xFFFFFFF0
        · have hstep : (iterator checks).next self = .ok (true, front.loaded lines entry) := by
            refine hnext.trans ?_
            simp [loaded, hle]
          rw [Iterator.iterates_of_step hstep, bind_eq_ok]
          refine exists_congr fun rest => and_congr (ih rfl rfl) ?_
          have hentry : entry.demangled = none := by
            obtain ⟨start, -, ⟨-, rfl⟩ | ⟨_, _, _, -, -, -, rfl⟩⟩ := loadParts_eq_ok.mp hload
            · rfl
            · rfl
          have hitem : (iterator checks).item (front.loaded lines entry) = (entry, lines) := by
            cases entry
            cases hentry
            rfl
          rw [hitem, if_pos hle, Except.ok.injEq]
        · have hskip : next checks self = (front.loaded lines entry).nextSymbol checks lines := by
            refine hnext.trans ?_
            simp [loaded, hle]
          rw [ih rfl hskip]
          simp only [if_neg hle]
          cases shown checks lines with
          | error fault => rfl
          | ok items => rfl

/-- What a reset reads: the signature, with the lines that are left behind it. -/
def headed (checks : OverflowChecks) (signature : List UInt8) :
    TextFile → Exec (List UInt8 × TextFile)
  | [] => .ok (signature, [])
  | none :: _ => .ok (signature, [])
  | some text :: rest => do
    let entry ← loadParts checks text
    if entry.start = 0xFFFFFFFF then do
      let read ← readSignature entry.name.toList signature
      .ok (read.getD (List.replicate 16 0), rest)
    else headed checks signature rest

/-- The lines that are left to the calls. -/
def left (self : R2RMapSymbolReader) : TextFile := if self.done then [] else self.reader.rest

theorem iterates_iff :
    (iterator checks).Iterates self items ↔ shown checks self.left = .ok items := by
  unfold left
  cases hdone : self.done with
  | true =>
    have hstop : (iterator checks).next self = .ok (false, self) := by
      simp [iterator, next, hdone]
    rw [Iterator.iterates_of_stop hstop, if_pos rfl, shown, Except.ok.injEq, eq_comm]
  | false =>
    refine iterates_iff_of_next rfl ?_
    simp [next, hdone]

theorem initializeFrom_eq (hrest : self.reader.rest = lines) :
    (self.initializeFrom checks lines).map (fun after => (after.signature, after.left)) =
      headed checks self.signature lines := by
  induction lines generalizing self with
  | nil =>
    rw [initializeFrom, loadNext, hrest]
    rfl
  | cons line lines ih =>
    rw [initializeFrom, loadNext, hrest]
    cases line with
    | none => rfl
    | some text =>
      rw [headed]
      dsimp only
      cases hload : loadParts checks text with
      | error fault => rfl
      | ok entry =>
        simp only [ok_bind]
        have hdone : (self.loaded lines entry).done = false := rfl
        have hstart : (self.loaded lines entry).startIp = entry.start := rfl
        rw [hdone, hstart, if_neg (by decide)]
        by_cases hmark : entry.start = 0xFFFFFFFF
        · rw [if_pos hmark, if_pos hmark]
          have hname : (self.loaded lines entry).name = entry.name := rfl
          have hsignature : (self.loaded lines entry).signature = self.signature := rfl
          rw [setSignature, hname, hsignature]
          cases readSignature entry.name.toList self.signature with
          | error fault => rfl
          | ok read => rfl
        · rw [if_neg hmark, if_neg hmark]
          exact ih rfl

end Calls

end R2RMapSymbolReader

end OneCollect.Exporting
