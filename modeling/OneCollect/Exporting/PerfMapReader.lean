import OneCollect.Exporting.KernelReader
import OneCollect.Exporting.PerfMap

/-! The reader of a perf map, as its calls go over the bytes of a file: `PerfMapSymbolReader` of
`symbols.rs`. A line that is malformed is skipped.

A line that is no text ends the file, an end behind the last address panics or wraps around, and a
number may have a plus sign; `perfMap_iff` says that nothing else is wrong. -/

namespace OneCollect.Exporting
open Theory

/-! ## The reader -/

def openFile (content : List UInt8) : LineReader where
  file := (fileLines content).map readLine
  rest := (fileLines content).map readLine

structure PerfMapSymbolReader where
  reader : LineReader
  startIp : Nat := 0
  endIp : Nat := 0
  name : String := ""
  done : Bool := true
  deriving DecidableEq, Repr

namespace PerfMapSymbolReader

section Reader

variable (checks : OverflowChecks)

/-- The loop over the lines, up to one that can be parsed. -/
def loadLines (self : PerfMapSymbolReader) : TextFile → Exec PerfMapSymbolReader
  | [] => .ok { reader := { self.reader with rest := [] } }
  | none :: rest => .ok { reader := { self.reader with rest } }
  | some buffer :: rest =>
    match PerfMapLine.parse buffer with
    | none => loadLines self rest
    | some line => do
      let endIp ← checks.addU64 line.start line.size
      .ok ⟨{ self.reader with rest }, line.start, endIp, line.name, false⟩

def loadNext (self : PerfMapSymbolReader) : Exec PerfMapSymbolReader :=
  self.loadLines checks self.reader.rest

def reset (self : PerfMapSymbolReader) : PerfMapSymbolReader :=
  if self.reader.seekable then
    { self with reader := { self.reader with rest := self.reader.file }, done := false }
  else { reader := self.reader }

def next (self : PerfMapSymbolReader) : Exec (Bool × PerfMapSymbolReader) :=
  if self.done then .ok (false, self)
  else do
    let self ← self.loadNext checks
    .ok (!self.done, self)

def entry (self : PerfMapSymbolReader) : SymbolEntry := ⟨self.startIp, self.endIp, self.name, none⟩

/-- A symbol, with the lines behind it that say which line it comes from. -/
def iterator : Iterator PerfMapSymbolReader (SymbolEntry × TextFile) where
  next := next checks
  item self := (self.entry, self.reader.rest)

end Reader

end PerfMapSymbolReader

/-! ## The lines of a perf map -/

def strictHex (digits : List Char) : Option Nat :=
  if digits.head? = some '+' then none else fromHex 64 digits

def stripMark : List Char → List Char
  | '0' :: 'x' :: digits => digits
  | '0' :: 'X' :: digits => digits
  | digits => digits

def symbolName (namePart : List Char) : String :=
  String.ofList (popIf '\r' (popIf '\n' (namePart.takeWhile (· ≠ '\x00'))))

/-- A line of the form `[0x]start size name`. -/
def perfMapForm (text : List Char) : Option PerfMapLine :=
  match cutAt ' ' text with
  | (_, none) => none
  | (startStr, some rest) =>
    match cutAt ' ' rest with
    | (_, none) => none
    | (sizeStr, some namePart) => do
      let start ← strictHex (stripMark startStr)
      let size ← strictHex sizeStr
      some ⟨start, size, symbolName namePart⟩

/-- A number of the line has a plus sign, which the reader takes. -/
def Signed (text : List Char) : Prop :=
  (stripMark (cutAt ' ' text).1).head? = some '+' ∨
    ∃ rest ∈ (cutAt ' ' text).2, (cutAt ' ' rest).1.head? = some '+'

section Form

variable {text : List Char} {line : PerfMapLine}

/-- **The form of a line**: two numbers and a name, with a blank behind each number. -/
theorem perfMapForm_iff :
    perfMapForm text = some line ↔ ∃ startStr sizeStr namePart,
      text = startStr ++ ' ' :: (sizeStr ++ ' ' :: namePart) ∧ ' ' ∉ startStr ∧ ' ' ∉ sizeStr ∧
        strictHex (stripMark startStr) = some line.start ∧ strictHex sizeStr = some line.size ∧
        line.name = symbolName namePart := by
  constructor
  · intro h
    unfold perfMapForm at h
    rcases @cutAt_eq ' ' text with ⟨startStr, rest, hcut, htext, hstart⟩ | ⟨hcut, -⟩
    · rw [hcut] at h
      dsimp only at h
      rcases @cutAt_eq ' ' rest with ⟨sizeStr, namePart, hcut, hrest, hsize⟩ | ⟨hcut, -⟩
      · rw [hcut] at h
        obtain ⟨start, hstartHex, h⟩ := Option.bind_eq_some_iff.mp h
        obtain ⟨size, hsizeHex, h⟩ := Option.bind_eq_some_iff.mp h
        cases h
        exact ⟨startStr, sizeStr, namePart, by rw [htext, hrest], hstart, hsize, hstartHex, hsizeHex,
          rfl⟩
      · rw [hcut] at h
        cases h
    · rw [hcut] at h
      cases h
  · rintro ⟨startStr, sizeStr, namePart, rfl, hstart, hsize, hstartHex, hsizeHex, hname⟩
    unfold perfMapForm
    rw [cutAt_append hstart]
    dsimp only
    rw [cutAt_append hsize]
    dsimp only
    rw [hstartHex, hsizeHex, ← hname]
    rfl

theorem form_of_signed (h : Signed text) : perfMapForm text = none := by
  unfold Signed at h
  unfold perfMapForm
  rcases @cutAt_eq ' ' text with ⟨startStr, rest, hcut, -, -⟩ | ⟨hcut, -⟩
  · rw [hcut] at h ⊢
    dsimp only at h ⊢
    rcases @cutAt_eq ' ' rest with ⟨sizeStr, namePart, hrest, -, -⟩ | ⟨hrest, -⟩
    · rw [hrest]
      dsimp only
      rcases h with hstart | ⟨other, hother, hsize⟩
      · rw [strictHex, if_pos hstart]
        rfl
      · cases hother
        rw [hrest] at hsize
        have hnone : strictHex sizeStr = none := if_pos hsize
        rw [hnone]
        cases strictHex (stripMark startStr) <;> rfl
    · rw [hrest]
  · rw [hcut]

/-- A character other than a digit or a sign. -/
theorem fromHex_of_mem {bits : Nat} {other : Char} (hdigit : hexDigit other = none)
    (hsign : other ≠ '+') (h : other ∈ text) : fromHex bits text = none := by
  have hfold : ∀ {digits : List Char} (n : Nat), other ∈ digits →
      digits.foldlM (fun n c => (hexDigit c).map (16 * n + ·)) n = none := by
    intro digits
    induction digits with
    | nil => exact fun _ h => absurd h List.not_mem_nil
    | cons c digits ih =>
      intro n h
      rw [List.foldlM_cons]
      rcases List.mem_cons.mp h with rfl | h
      · rw [hdigit]
        rfl
      · cases hexDigit c with
        | none => rfl
        | some d => exact ih _ h
  have hvalue : ∀ digits : List Char, other ∈ digits → (if digits = [] then none else
      (digits.foldlM (fun n c => (hexDigit c).map (16 * n + ·)) 0).filter (· < 2 ^ bits)) = none := by
    intro digits hdigits
    rw [if_neg (List.ne_nil_of_mem hdigits), hfold 0 hdigits]
    rfl
  unfold fromHex
  refine hvalue _ ?_
  split
  · exact (List.mem_cons.mp h).resolve_left hsign
  · exact h

theorem fromHex_newline {bits : Nat} (h : '\n' ∈ text) : fromHex bits text = none :=
  fromHex_of_mem rfl (by decide) h

theorem newline_mem_stripMark (h : '\n' ∈ text) : '\n' ∈ stripMark text := by
  unfold stripMark
  split
  · exact (List.mem_cons.mp ((List.mem_cons.mp h).resolve_left (by decide))).resolve_left (by decide)
  · exact (List.mem_cons.mp ((List.mem_cons.mp h).resolve_left (by decide))).resolve_left (by decide)
  · exact h

theorem parse_eq (text : List Char) :
    PerfMapLine.parse text =
      (fromHex 64 (stripMark (cutAt ' ' text).1)).bind fun start =>
        ((cutAt ' ' text).2.map (cutAt ' ')).bind fun parts =>
          (fromHex 64 parts.1).bind fun size =>
            some ⟨start, size, symbolName (parts.2.getD [])⟩ := rfl

/-- Without plus signs the reader takes the lines of the form. -/
theorem form_of_not_signed (h : ¬ Signed text) (hline : '\n' ∈ text) :
    perfMapForm text = PerfMapLine.parse text := by
  rw [parse_eq]
  unfold Signed at h
  unfold perfMapForm
  rcases @cutAt_eq ' ' text with ⟨startStr, rest, hcut, htext, -⟩ | ⟨hcut, -⟩
  · rw [hcut] at h ⊢
    dsimp only at h ⊢
    have hstart : strictHex (stripMark startStr) = fromHex 64 (stripMark startStr) :=
      if_neg fun hplus => h (.inl hplus)
    have hsize : strictHex (cutAt ' ' rest).1 = fromHex 64 (cutAt ' ' rest).1 :=
      if_neg fun hplus => h (.inr ⟨rest, rfl, hplus⟩)
    rw [Option.map_some]
    rcases @cutAt_eq ' ' rest with ⟨sizeStr, namePart, hrest, -, -⟩ | ⟨hrest, -⟩
    · rw [hrest] at hsize ⊢
      dsimp only at hsize ⊢
      rw [hstart, hsize]
      rfl
    · rw [hrest]
      dsimp only [Option.bind_some]
      -- the end of the line is in one of the numbers
      rw [htext] at hline
      rcases List.mem_append.mp hline with hmem | hmem
      · rw [fromHex_newline (newline_mem_stripMark hmem), Option.bind_none]
      · rw [fromHex_newline ((List.mem_cons.mp hmem).resolve_left (by decide))]
        exact (Option.bind_fun_none _).symm
  · rw [hcut]
    exact (Option.bind_fun_none _).symm

end Form

/-- The symbols of the lines of the form, each with the lines behind it. -/
def formSymbols : List (List UInt8) → List (SymbolEntry × TextFile)
  | [] => []
  | line :: lines =>
    match (readLine line).bind perfMapForm with
    | some parsed => (parsed.toEntry, lines.map readLine) :: formSymbols lines
    | none => formSymbols lines

/-! ## The calls -/

namespace PerfMapSymbolReader

variable {checks : OverflowChecks} {self : PerfMapSymbolReader}

/-- The symbols that the calls show, up to a line that cannot be read. -/
def shown (checks : OverflowChecks) : TextFile → Exec (List (SymbolEntry × TextFile))
  | [] => .ok []
  | none :: _ => .ok []
  | some buffer :: rest =>
    match PerfMapLine.parse buffer with
    | none => shown checks rest
    | some line => do
      let endIp ← checks.addU64 line.start line.size
      let items ← shown checks rest
      .ok ((⟨line.start, endIp, line.name, none⟩, rest) :: items)

/-- The earlier model of the reader, with the checks on. -/
theorem readPerfMap_eq (file : TextFile) :
    readPerfMap file = (shown .on file).map (·.map Prod.fst) := by
  induction file with
  | nil => rfl
  | cons line file ih =>
    cases line with
    | none => rfl
    | some buffer =>
      rw [readPerfMap, shown]
      cases PerfMapLine.parse buffer with
      | none => exact ih
      | some line =>
        dsimp only [OverflowChecks.addU64]
        rw [ih]
        cases addU64 line.start line.size with
        | error e => rfl
        | ok endIp => cases shown .on file <;> rfl

/-- **The calls** show the symbols up to the end, and only those. -/
theorem iterates_iff_of_next {rest : TextFile} {items : List (SymbolEntry × TextFile)}
    (hnext : next checks self = do
      let self ← self.loadLines checks rest
      .ok (!self.done, self)) :
    (iterator checks).Iterates self items ↔ shown checks rest = .ok items := by
  induction rest generalizing self items with
  | nil => exact (Iterator.iterates_of_stop hnext).trans (by rw [shown, Except.ok.injEq, eq_comm])
  | cons line rest ih =>
    cases line with
    | none => exact (Iterator.iterates_of_stop hnext).trans (by rw [shown, Except.ok.injEq, eq_comm])
    | some buffer =>
      rw [loadLines] at hnext
      rw [shown]
      cases hparse : PerfMapLine.parse buffer with
      | none =>
        rw [hparse] at hnext
        exact ih hnext
      | some line =>
        rw [hparse] at hnext
        dsimp only at hnext ⊢
        cases hsum : checks.addU64 line.start line.size with
        | error fault =>
          rw [hsum] at hnext
          exact iff_of_false (Iterator.not_iterates_of_error hnext) (fun h => nomatch h)
        | ok endIp =>
          rw [hsum, ok_bind, ok_bind] at hnext
          rw [ok_bind, bind_eq_ok, Iterator.iterates_of_step hnext]
          refine exists_congr fun items' => and_congr (ih rfl) ?_
          rw [Except.ok.injEq]
          rfl

/-- From a reset on the calls go over the whole file. -/
theorem iterates_reset_iff {items : List (SymbolEntry × TextFile)}
    (hseek : self.reader.seekable = true) :
    (iterator checks).Iterates self.reset items ↔ shown checks self.reader.file = .ok items := by
  refine iterates_iff_of_next ?_
  rw [reset, if_pos hseek]
  rfl

/-! ## What they show -/

theorem addU64_eq_sum_iff (checks : OverflowChecks) {a b : Nat} :
    checks.addU64 a b = .ok (a + b) ↔ a + b < 2 ^ 64 := by
  cases checks with
  | on => exact addU64_eq_ok.trans (and_iff_left rfl)
  | off =>
    rw [OverflowChecks.addU64, Except.ok.injEq]
    omega

theorem behind_formSymbols {lines : List (List UInt8)} {item : SymbolEntry × TextFile}
    (h : item ∈ formSymbols lines) : item.2.length < lines.length := by
  induction lines with
  | nil => exact absurd h List.not_mem_nil
  | cons line lines ih =>
    rw [formSymbols] at h
    rw [List.length_cons]
    cases hform : (readLine line).bind perfMapForm with
    | none =>
      rw [hform] at h
      exact Nat.lt_succ_of_lt (ih h)
    | some parsed =>
      rw [hform] at h
      rcases List.mem_cons.mp h with rfl | hrest
      · rw [List.length_map]
        exact Nat.lt_succ_self _
      · exact Nat.lt_succ_of_lt (ih hrest)

theorem newline_mem {line : List UInt8} {text : List Char} (h : Terminated line)
    (htext : readLine line = some text) : '\n' ∈ text := by
  obtain ⟨body, -, rfl⟩ := h
  obtain ⟨decoded, hdecoded, rfl⟩ := Option.map_eq_some_iff.mp htext
  have hbytes := encodeUtf8_of_decodeUtf8 hdecoded
  have hmem : (10 : UInt8) ∈ encodeUtf8 decoded.toList := by
    rw [hbytes]
    exact List.mem_append_right _ List.mem_cons_self
  rw [encodeUtf8_eq] at hmem
  obtain ⟨c, hc, hbyte⟩ := List.mem_flatMap.mp hmem
  have hnewline : c = '\n' :=
    Char.ext (UInt32.toNat_inj.mp (eq_of_mem_utf8EncodeChar (by decide) hbyte))
  exact hnewline ▸ hc

def Decodes (line : List UInt8) : Bool := (readLine line).isSome

/-- Nothing of the form is behind a line that is no text, and in front of it every line that is
taken has numbers without a sign and ends at an address. -/
structure Sound (lines : List (List UInt8)) : Prop where
  hidden : ∀ line ∈ lines.dropWhile Decodes, (readLine line).bind perfMapForm = none
  taken : ∀ line ∈ lines.takeWhile Decodes, ∀ text ∈ readLine line,
    ∀ parsed ∈ PerfMapLine.parse text, ¬ Signed text ∧ parsed.start + parsed.size < 2 ^ 64

theorem sound_of_not_decodes {line : List UInt8} {lines : List (List UInt8)}
    (h : readLine line = none) :
    Sound (line :: lines) ↔ ∀ other ∈ lines, (readLine other).bind perfMapForm = none := by
  have hdecodes : ¬ Decodes line = true := by
    rw [Decodes, h]
    decide
  constructor
  · intro hsound other hother
    refine hsound.hidden other ?_
    rw [List.dropWhile_cons_of_neg hdecodes]
    exact List.mem_cons_of_mem _ hother
  · intro hothers
    constructor
    · rw [List.dropWhile_cons_of_neg hdecodes]
      exact List.forall_mem_cons.mpr ⟨by rw [h]; rfl, hothers⟩
    · rw [List.takeWhile_cons_of_neg hdecodes]
      exact fun _ hmem => absurd hmem List.not_mem_nil

theorem sound_of_decodes {line : List UInt8} {lines : List (List UInt8)} {text : List Char}
    (h : readLine line = some text) :
    Sound (line :: lines) ↔ (∀ parsed ∈ PerfMapLine.parse text,
      ¬ Signed text ∧ parsed.start + parsed.size < 2 ^ 64) ∧ Sound lines := by
  have hdecodes : Decodes line = true := by
    rw [Decodes, h]
    rfl
  have htaken : (∀ text ∈ readLine line, ∀ parsed ∈ PerfMapLine.parse text,
      ¬ Signed text ∧ parsed.start + parsed.size < 2 ^ 64) ↔ ∀ parsed ∈ PerfMapLine.parse text,
      ¬ Signed text ∧ parsed.start + parsed.size < 2 ^ 64 := by
    rw [h]
    simp only [Option.mem_some_iff, forall_eq']
  constructor
  · rintro ⟨hhidden, hall⟩
    rw [List.dropWhile_cons_of_pos hdecodes] at hhidden
    rw [List.takeWhile_cons_of_pos hdecodes] at hall
    obtain ⟨hline, hall⟩ := List.forall_mem_cons.mp hall
    exact ⟨htaken.mp hline, hhidden, hall⟩
  · rintro ⟨hline, hhidden, hall⟩
    constructor
    · rw [List.dropWhile_cons_of_pos hdecodes]
      exact hhidden
    · rw [List.takeWhile_cons_of_pos hdecodes]
      exact List.forall_mem_cons.mpr ⟨htaken.mpr hline, hall⟩

theorem formSymbols_eq_nil {lines : List (List UInt8)} :
    formSymbols lines = [] ↔ ∀ line ∈ lines, (readLine line).bind perfMapForm = none := by
  induction lines with
  | nil => exact iff_of_true rfl fun _ h => absurd h List.not_mem_nil
  | cons line lines ih =>
    rw [formSymbols, List.forall_mem_cons, ← ih]
    cases hform : (readLine line).bind perfMapForm with
    | none => exact (and_iff_right rfl).symm
    | some parsed => exact iff_of_false (List.cons_ne_nil _ _) fun h => nomatch h.1

/-- The calls show the lines of the form, each at its place, exactly when the lines are sound. -/
theorem shown_iff {lines : List (List UInt8)} (h : ∀ line ∈ lines, Terminated line) :
    shown checks (lines.map readLine) = .ok (formSymbols lines) ↔ Sound lines := by
  induction lines with
  | nil =>
    refine iff_of_true rfl ⟨?_, ?_⟩
    all_goals exact fun _ h => absurd h List.not_mem_nil
  | cons line lines ih =>
    obtain ⟨hline, h⟩ := List.forall_mem_cons.mp h
    rw [List.map_cons, formSymbols]
    cases hread : readLine line with
    | none =>
      rw [sound_of_not_decodes hread, ← formSymbols_eq_nil, shown, Option.bind_none, Except.ok.injEq]
      exact eq_comm
    | some text =>
      rw [sound_of_decodes hread, shown, Option.bind_some, ← ih h]
      cases hparse : PerfMapLine.parse text with
      | none =>
        have hform : perfMapForm text = none := by
          by_cases hsigned : Signed text
          · exact form_of_signed hsigned
          · rw [form_of_not_signed hsigned (newline_mem hline hread), hparse]
        rw [hform]
        exact (and_iff_right fun _ hparsed => nomatch hparsed).symm
      | some parsed =>
        simp only [Option.mem_some_iff, forall_eq']
        by_cases hsigned : Signed text
        · -- the pair of the line says that it is none of the form
          rw [form_of_signed hsigned]
          refine iff_of_false (fun heq => ?_) fun hsound => hsound.1.1 hsigned
          obtain ⟨endIp, -, heq⟩ := bind_eq_ok.mp heq
          obtain ⟨items, -, heq⟩ := bind_eq_ok.mp heq
          have hmem : (⟨parsed.start, endIp, parsed.name, none⟩, lines.map readLine) ∈
              formSymbols lines := List.mem_of_mem_head? (congrArg List.head? (Except.ok.inj heq)).symm
          have hlength := behind_formSymbols hmem
          rw [List.length_map] at hlength
          exact absurd hlength (lt_irrefl _)
        · rw [form_of_not_signed hsigned (newline_mem hline hread), hparse, ← addU64_eq_sum_iff checks]
          dsimp only
          constructor
          · intro heq
            obtain ⟨endIp, hsum, heq⟩ := bind_eq_ok.mp heq
            obtain ⟨items, hitems, heq⟩ := bind_eq_ok.mp heq
            obtain ⟨hhead, rfl⟩ := List.cons.inj (Except.ok.inj heq)
            have hend : endIp = parsed.start + parsed.size :=
              congrArg (fun item : SymbolEntry × TextFile => item.1.stop) hhead
            exact ⟨⟨hsigned, hend ▸ hsum⟩, hitems⟩
          · rintro ⟨⟨-, hsum⟩, hitems⟩
            rw [hsum, ok_bind, hitems]
            rfl

/-- **Perf maps.** From a reset on the calls show the lines of the form, and each from its own line,
if and only if the lines are sound. -/
theorem perfMap_iff {checks : OverflowChecks} {self : PerfMapSymbolReader}
    {lines : List (List UInt8)} (hlines : ∀ line ∈ lines, Terminated line)
    (hfile : self.reader.file = (openFile lines.flatten).file)
    (hseek : self.reader.seekable = true) :
    (iterator checks).Iterates self.reset (formSymbols lines) ↔ Sound lines := by
  rw [iterates_reset_iff hseek, hfile, openFile, fileLines_flatten hlines, shown_iff hlines]

/-- The bytes of "10 20 f". -/
def perfMapBytes : List UInt8 := [49, 48, 32, 50, 48, 32, 102, 10]

theorem readLine_perfMapBytes : readLine perfMapBytes = some "10 20 f\n".toList := by
  have hbytes : perfMapBytes = encodeUtf8 "10 20 f\n".toList := by decide +kernel
  rw [readLine, hbytes, decodeUtf8_encodeUtf8, Option.map_some, String.toList_ofList]

theorem terminated_perfMapBytes : Terminated perfMapBytes := ⟨perfMapBytes.dropLast, by decide, rfl⟩

theorem perfMap_iff_line :
    (iterator .on).Iterates (reset { reader := openFile [perfMapBytes].flatten })
        (formSymbols [perfMapBytes]) ↔ Sound [perfMapBytes] := by
  refine perfMap_iff ?_ rfl rfl
  exact List.forall_mem_singleton.mpr terminated_perfMapBytes

/-- A line that is no text hides the symbol behind it. -/
theorem perfMap_not_all :
    ¬ ∀ (checks : OverflowChecks) (self : PerfMapSymbolReader) (lines : List (List UInt8)),
      (∀ line ∈ lines, Terminated line) → self.reader.file = (openFile lines.flatten).file →
      self.reader.seekable = true → (iterator checks).Iterates self.reset (formSymbols lines) := by
  intro h
  have hinvalid : readLine [255, 10] = none := by decide +kernel
  have hlines : ∀ line ∈ [[255, 10], perfMapBytes], Terminated line :=
    List.forall_mem_cons.mpr ⟨⟨[255], by decide, rfl⟩,
      List.forall_mem_singleton.mpr terminated_perfMapBytes⟩
  have hiterates := h .on { reader := openFile [[255, 10], perfMapBytes].flatten } _ hlines rfl rfl
  have hshown := (iterates_reset_iff rfl).mp hiterates
  rw [openFile, fileLines_flatten hlines, List.map_cons, hinvalid, shown] at hshown
  have hnone := formSymbols_eq_nil.mp (Except.ok.inj hshown).symm perfMapBytes (by simp)
  rw [readLine_perfMapBytes, Option.bind_some] at hnone
  exact absurd hnone (by decide)

end PerfMapSymbolReader

end OneCollect.Exporting
