import OneCollect.Exporting.R2RMapReader

/-! What the calls of the reader of a ready-to-run map show of a file.

They show every symbol with the signature if the lines can be loaded, those of symbols are well
formed and behind the line of the signature, and nothing is lost behind a line that is no text.
`r2rMap_iff` says so of every file and of every reader that calls leave. -/

namespace OneCollect.Exporting
open Theory

namespace R2RMapSymbolReader

/-! ## The lines of a file -/

section Files

variable {checks : OverflowChecks} {line : List UInt8} {lines : List (List UInt8)}
  {text : List Char}

/-- A line of metadata. -/
theorem symbolLines_metadata {entry : SymbolEntry} (hread : readLine line = some text)
    (hload : loadParts checks text = .ok entry) (hstart : 0xFFFFFFF0 < entry.start) :
    symbolLines (line :: lines) = symbolLines lines := by
  refine symbolLines_skip fun other hother parsed hform => ?_
  obtain rfl := Option.some.inj (hread.symm.trans hother)
  have heq := (startOf_of_form hform).symm.trans (startOf_of_loadParts hload).1
  rw [Option.some.inj heq]
  exact hstart

theorem shown_line {entry : SymbolEntry} {items : List (SymbolEntry × TextFile)}
    (hread : readLine line = some text) (hload : loadParts checks text = .ok entry) :
    (if entry.start ≤ 0xFFFFFFF0 then (entry, lines.map readLine) :: items else items) =
        symbolLines (line :: lines) ↔ Shown text ∧ items = symbolLines lines := by
  obtain ⟨hstart, -⟩ := startOf_of_loadParts hload
  by_cases hle : entry.start ≤ 0xFFFFFFF0
  · rw [if_pos hle]
    cases hform : perfMapForm text with
    | none =>
      have hskip : symbolLines (line :: lines) = symbolLines lines := by
        refine symbolLines_skip fun other hother parsed hparsed => ?_
        obtain rfl := Option.some.inj (hread.symm.trans hother)
        rw [hform] at hparsed
        cases hparsed
      rw [hskip]
      refine iff_of_false cons_ne_symbolLines fun h => ?_
      obtain ⟨parsed, hparsed, -⟩ := h.1 _ hstart hle
      rw [hform] at hparsed
      cases hparsed
    | some parsed =>
      obtain ⟨stop, hstop, rfl⟩ := (loadParts_of_form hform).mp hload
      have hshown : Shown text ↔ parsed.start + parsed.size < 2 ^ 64 := by
        unfold Shown
        rw [hform, hstart]
        simp [hle]
      rw [symbolLines_cons hread hform hle, List.cons.injEq, hshown,
        ← PerfMapSymbolReader.addU64_eq_sum_iff checks, hstop]
      simp [PerfMapLine.toEntry]
  · rw [if_neg hle, symbolLines_metadata hread hload (by omega)]
    have hshown : Shown text := by
      intro start hother hsmall
      rw [Option.some.inj (hother.symm.trans hstart)] at hsmall
      exact absurd hsmall hle
    exact (and_iff_right hshown).symm

/-- Behind the signature the symbols are shown exactly if their lines are well formed. -/
theorem shown_iff : shown checks (lines.map readLine) = .ok (symbolLines lines) ↔
    (∀ text ∈ readable lines, Loads checks text ∧ Shown text) ∧ symbolLines (unread lines) = [] := by
  induction lines with
  | nil => simp [shown, symbolLines, formSymbols, readable, unread]
  | cons line lines ih =>
    rw [List.map_cons, readable, unread]
    cases hread : readLine line with
    | none =>
      rw [symbolLines_unreadable hread, shown, Except.ok.injEq]
      exact ⟨fun h => ⟨fun _ hmem => absurd hmem List.not_mem_nil, h.symm⟩, fun h => h.2.symm⟩
    | some text =>
      rw [shown, List.forall_mem_cons, loads_iff]
      cases hload : loadParts checks text with
      | error fault =>
        refine iff_of_false (fun h => by cases h) fun h => ?_
        obtain ⟨entry, hentry⟩ := h.1.1.1
        cases hentry
      | ok entry =>
        rw [ok_bind, bind_eq_ok]
        simp only [Except.ok.injEq, shown_line hread hload]
        rw [and_assoc, ← ih]
        constructor
        · rintro ⟨items, hitems, hshown, rfl⟩
          exact ⟨⟨⟨entry, rfl⟩, hshown⟩, hitems⟩
        · rintro ⟨⟨-, hshown⟩, hitems⟩
          exact ⟨_, hitems, hshown, rfl⟩

theorem behind_shown {rest : TextFile} {items : List (SymbolEntry × TextFile)}
    (h : shown checks rest = .ok items) {item : SymbolEntry × TextFile} (hitem : item ∈ items) :
    item.2.length < rest.length := by
  induction rest generalizing items with
  | nil =>
    cases h
    exact absurd hitem List.not_mem_nil
  | cons line rest ih =>
    cases line with
    | none =>
      cases h
      exact absurd hitem List.not_mem_nil
    | some text =>
      rw [shown] at h
      obtain ⟨entry, -, h⟩ := bind_eq_ok.mp h
      obtain ⟨items, hitems, h⟩ := bind_eq_ok.mp h
      cases h
      split at hitem
      · rcases List.mem_cons.mp hitem with rfl | hitem
        · exact Nat.lt_succ_self _
        · exact Nat.lt_succ_of_lt (ih hitems hitem)
      · exact Nat.lt_succ_of_lt (ih hitems hitem)

theorem headed_length {signature : List UInt8} {file : TextFile} {result : List UInt8 × TextFile}
    (h : headed checks signature file = .ok result) : result.2.length ≤ file.length := by
  induction file with
  | nil =>
    cases h
    exact le_rfl
  | cons line file ih =>
    cases line with
    | none =>
      cases h
      exact Nat.zero_le _
    | some text =>
      rw [headed] at h
      obtain ⟨entry, -, h⟩ := bind_eq_ok.mp h
      split at h
      · obtain ⟨read, -, h⟩ := bind_eq_ok.mp h
        cases h
        exact Nat.le_succ _
      · exact (ih h).trans (Nat.le_succ _)

theorem laid_unreadable (h : readLine line = none) :
    Laid checks (line :: lines) ↔ symbolLines lines = [] := by
  simp [laid_iff, readable, unread, h]

theorem laid_mark (h : readLine line = some text) (hmark : marks text = true) :
    Laid checks (line :: lines) ↔ Loads checks text ∧ Cuttable (nameOf text).toList ∧
      (∀ text ∈ readable lines, Loads checks text ∧ Shown text) ∧
        symbolLines (unread lines) = [] := by
  simp only [laid_iff, readable, unread, h, hmark, List.find?_cons, List.takeWhile_cons,
    List.dropWhile_cons, List.forall_mem_cons, Bool.not_true, Bool.false_eq_true, if_false,
    List.tail_cons, Option.mem_some_iff, forall_eq', List.not_mem_nil, false_implies,
    implies_true, true_and, forall_and, and_assoc]
  constructor
  · rintro ⟨hload, hloads, hname, hshown, hhidden⟩
    exact ⟨hload, hname, hloads, hshown, hhidden⟩
  · rintro ⟨hload, hname, hloads, hshown, hhidden⟩
    exact ⟨hload, hloads, hname, hshown, hhidden⟩

theorem laid_header (h : readLine line = some text) (hmark : marks text = false) :
    Laid checks (line :: lines) ↔ Loads checks text ∧
      (∀ line, perfMapForm text = some line → 0xFFFFFFF0 < line.start) ∧ Laid checks lines := by
  simp only [laid_iff, readable, unread, h, hmark, List.find?_cons, List.takeWhile_cons,
    List.dropWhile_cons, List.forall_mem_cons, Bool.not_false, if_true, and_assoc]
  constructor
  · rintro ⟨hload, hloads, hline, hheader, hrest⟩
    exact ⟨hload, hline, hloads, hheader, hrest⟩
  · rintro ⟨hload, hline, hloads, hheader, hrest⟩
    exact ⟨hload, hloads, hline, hheader, hrest⟩

theorem find_mark (h : readLine line = some text) (hmark : marks text = true) :
    (readable (line :: lines)).find? marks = some text := by
  simp [readable, h, hmark]

theorem find_header (h : readLine line = some text) (hmark : marks text = false) :
    (readable (line :: lines)).find? marks = (readable lines).find? marks := by
  simp [readable, h, hmark]

/-- **The header and what is behind it.** -/
theorem headed_iff {signature : List UInt8} :
    (∃ rest, headed checks (List.replicate 16 0) (lines.map readLine) = .ok (signature, rest) ∧
        shown checks rest = .ok (symbolLines lines)) ↔
      Laid checks lines ∧ signature = signatureOf (((readable lines).find? marks).map nameOf) := by
  induction lines with
  | nil =>
    simp [headed, shown, symbolLines, formSymbols, laid_iff, readable, unread, signatureOf, eq_comm]
  | cons line lines ih =>
    rw [List.map_cons]
    cases hread : readLine line with
    | none =>
      rw [laid_unreadable hread, symbolLines_unreadable hread, readable, hread, headed]
      constructor
      · rintro ⟨rest, hheaded, hshown⟩
        cases hheaded
        exact ⟨(Except.ok.inj hshown).symm, rfl⟩
      · rintro ⟨hhidden, rfl⟩
        exact ⟨[], rfl, by rw [hhidden, shown]⟩
    | some text =>
      rw [headed]
      cases hload : loadParts checks text with
      | error fault =>
        have hloads : ¬ Loads checks text := by
          rw [loads_iff, hload]
          rintro ⟨entry, hentry⟩
          cases hentry
        have hlaid : ¬ Laid checks (line :: lines) := fun hlaid =>
          hloads (hlaid.loads text (by simp [readable, hread]))
        refine iff_of_false (fun h => ?_) fun h => hlaid h.1
        obtain ⟨rest, hheaded, -⟩ := h
        cases hheaded
      | ok entry =>
        obtain ⟨hstart, hname⟩ := startOf_of_loadParts hload
        have hloads : Loads checks text := loads_iff.mpr ⟨entry, hload⟩
        rw [ok_bind]
        by_cases hfirst : entry.start = 0xFFFFFFFF
        · have hmark : marks text = true := by simp [marks, hstart, hfirst]
          rw [if_pos hfirst, laid_mark hread hmark, find_mark hread hmark, hname,
            symbolLines_metadata hread hload (by omega), Option.map_some, signatureOf_some]
          constructor
          · rintro ⟨rest, hheaded, hshown⟩
            obtain ⟨read, hsignature, hheaded⟩ := bind_eq_ok.mp hheaded
            obtain ⟨hcut, hbytes⟩ := readSignature_eq_ok.mp hsignature
            obtain ⟨rfl, rfl⟩ := Prod.mk.inj (Except.ok.inj hheaded)
            exact ⟨⟨hloads, hcut, shown_iff.mp hshown⟩, by rw [hbytes]⟩
          · rintro ⟨⟨-, hcut, hbody⟩, hsignature⟩
            refine ⟨_, ?_, shown_iff.mpr hbody⟩
            rw [readSignature_eq_ok.mpr ⟨hcut, rfl⟩, hsignature]
            rfl
        · have hmark : marks text = false := by simp [marks, hstart, hfirst]
          rw [if_neg hfirst, laid_header hread hmark, find_header hread hmark]
          by_cases hmetadata : ∀ parsed, perfMapForm text = some parsed → 0xFFFFFFF0 < parsed.start
          · rw [and_iff_right hloads, and_iff_right hmetadata, ← ih, symbolLines_skip]
            intro other hother
            rwa [← Option.some.inj (hread.symm.trans hother)]
          · -- the symbol of the line is of none of those behind it
            refine iff_of_false ?_ fun h => hmetadata h.1.2.1
            rintro ⟨rest, hheaded, hshown⟩
            push Not at hmetadata
            obtain ⟨parsed, hform, hle⟩ := hmetadata
            rw [symbolLines_cons hread hform hle] at hshown
            have hbehind := behind_shown hshown List.mem_cons_self
            have hlength := headed_length hheaded
            dsimp only at hbehind hlength
            omega

end Files

/-! ## Readers of a file -/

/-- The readers of a file that calls leave. -/
inductive Reached (checks : OverflowChecks) (source : LineReader) : R2RMapSymbolReader → Prop
  | new : Reached checks source { reader := source }
  | reset {self after : R2RMapSymbolReader} (h : Reached checks source self)
      (hreset : self.reset checks = .ok after) : Reached checks source after
  | next {self after : R2RMapSymbolReader} {more : Bool} (h : Reached checks source self)
      (hnext : self.next checks = .ok (more, after)) : Reached checks source after

section Readers

variable {checks : OverflowChecks} {source : LineReader} {self after : R2RMapSymbolReader}

/-- The file is the same. -/
def SameFile (self after : R2RMapSymbolReader) : Prop :=
  after.reader.file = self.reader.file ∧ after.reader.seekable = self.reader.seekable

theorem loadNext_same (h : self.loadNext checks = .ok after) :
    SameFile self after ∧ after.signature = self.signature := by
  unfold loadNext at h
  split at h
  · cases h
    exact ⟨⟨rfl, rfl⟩, rfl⟩
  · cases h
    exact ⟨⟨rfl, rfl⟩, rfl⟩
  · obtain ⟨line, -, h⟩ := bind_eq_ok.mp h
    cases h
    exact ⟨⟨rfl, rfl⟩, rfl⟩

theorem nextSymbol_same {lines : TextFile} {more : Bool}
    (h : self.nextSymbol checks lines = .ok (more, after)) :
    SameFile self after ∧ after.signature = self.signature := by
  induction lines generalizing self with
  | nil =>
    obtain ⟨loaded, hload, h⟩ := bind_eq_ok.mp h
    cases h
    exact loadNext_same hload
  | cons line lines ih =>
    obtain ⟨loaded, hload, h⟩ := bind_eq_ok.mp h
    obtain ⟨⟨hfile, hseekable⟩, hsignature⟩ := loadNext_same hload
    split_ifs at h
    · cases h
      exact ⟨⟨hfile, hseekable⟩, hsignature⟩
    · cases h
      exact ⟨⟨hfile, hseekable⟩, hsignature⟩
    · obtain ⟨⟨hfile', hseekable'⟩, hsignature'⟩ := ih h
      exact ⟨⟨hfile'.trans hfile, hseekable'.trans hseekable⟩, hsignature'.trans hsignature⟩

theorem next_same {more : Bool} (h : self.next checks = .ok (more, after)) :
    SameFile self after ∧ after.signature = self.signature := by
  unfold next at h
  split_ifs at h
  · cases h
    exact ⟨⟨rfl, rfl⟩, rfl⟩
  · exact nextSymbol_same h

theorem initializeFrom_same {lines : TextFile} (h : self.initializeFrom checks lines = .ok after) :
    SameFile self after := by
  induction lines generalizing self with
  | nil => exact (loadNext_same h).1
  | cons line lines ih =>
    obtain ⟨loaded, hload, h⟩ := bind_eq_ok.mp h
    obtain ⟨⟨hfile, hseekable⟩, -⟩ := loadNext_same hload
    split_ifs at h
    · cases h
      exact ⟨hfile, hseekable⟩
    · obtain ⟨read, -, h⟩ := bind_eq_ok.mp h
      cases h
      exact ⟨hfile, hseekable⟩
    · obtain ⟨hfile', hseekable'⟩ := ih h
      exact ⟨hfile'.trans hfile, hseekable'.trans hseekable⟩

theorem calls_same {n : Nat} {items : List (SymbolEntry × TextFile)}
    (h : (iterator checks).calls n self = .ok (items, after)) :
    after.signature = self.signature := by
  induction n generalizing self items with
  | zero =>
    cases h
    rfl
  | succ n ih =>
    obtain ⟨⟨more, reader⟩, hnext, h⟩ := bind_eq_ok.mp h
    obtain ⟨⟨rest, last⟩, hcalls, h⟩ := bind_eq_ok.mp h
    cases h
    exact (ih hcalls).trans (next_same hnext).2

theorem reset_eq (hseek : self.reader.seekable = true) :
    (self.reset checks).map (fun after => (after.signature, after.left)) =
      headed checks self.signature self.reader.file := by
  rw [reset, if_pos hseek]
  exact initializeFrom_eq rfl

/-- The signature that a file leaves is that which it leaves again. -/
theorem headed_again {before signature : List UInt8} {file rest : TextFile}
    (h : headed checks before file = .ok (signature, rest)) :
    headed checks signature file = .ok (signature, rest) := by
  induction file with
  | nil =>
    cases h
    rfl
  | cons line file ih =>
    cases line with
    | none =>
      cases h
      rfl
    | some text =>
      rw [headed] at h ⊢
      obtain ⟨entry, hload, h⟩ := bind_eq_ok.mp h
      rw [hload, ok_bind]
      split_ifs at h ⊢
      · obtain ⟨read, hread, h⟩ := bind_eq_ok.mp h
        cases h
        obtain ⟨again, hagain, heq⟩ := readSignature_again hread
        rw [hagain, ok_bind, heq]
      · exact ih h

/-- A reader of a file whose signature makes no difference to a reset. -/
structure Settled (checks : OverflowChecks) (source : LineReader) (state : R2RMapSymbolReader) :
    Prop where
  file : state.reader.file = source.file
  seekable : state.reader.seekable = source.seekable
  again : headed checks state.signature source.file =
    headed checks (List.replicate 16 0) source.file

theorem reached_settled (h : Reached checks source self) : Settled checks source self := by
  induction h with
  | new => exact ⟨rfl, rfl, rfl⟩
  | @reset self after _ hreset ih =>
    cases hseek : self.reader.seekable with
    | true =>
      have hheaded := @reset_eq checks self hseek
      rw [hreset, ih.file, ih.again] at hheaded
      rw [reset, if_pos hseek] at hreset
      obtain ⟨hfile, hseekable⟩ := initializeFrom_same hreset
      exact ⟨hfile.trans ih.file, hseekable.trans ih.seekable,
        (headed_again hheaded.symm).trans hheaded⟩
    | false =>
      rw [reset, hseek, if_neg (by decide)] at hreset
      cases hreset
      exact ⟨ih.file, ih.seekable, ih.again⟩
  | next _ hnext ih =>
    obtain ⟨⟨hfile, hseekable⟩, hsignature⟩ := next_same hnext
    exact ⟨hfile.trans ih.file, hseekable.trans ih.seekable, hsignature ▸ ih.again⟩

end Readers

/-! ## What the calls show -/

section Main

variable {checks : OverflowChecks} {content : List UInt8} {lines : List (List UInt8)} {offset : Nat}
  {self : R2RMapSymbolReader}

/-- The range of a symbol minus the offset. -/
def movedBy (offset : Nat) (item : SymbolEntry × TextFile) : Exec Int × Exec Int × String × TextFile :=
  (.ok (item.1.start - offset), .ok (item.1.stop - offset), item.1.name, item.2)

/-- The calls from a reset on show the symbols of the lines, and the signature is that of the
lines. Through the transformer they show the same ranges minus the offset. -/
structure Resilient (checks : OverflowChecks) (lines : List (List UInt8)) (offset : Nat)
    (state : R2RMapSymbolReader) : Prop where
  symbols : ∃ after, state.reset checks = .ok after ∧
    (iterator checks).Iterates after (symbolLines lines) ∧
      ∀ n items last, (iterator checks).calls n after = .ok (items, last) →
        last.signature = fileSignature lines
  moved : ∃ after, (R2RLoadedLayoutSymbolTransformer.mk state offset).reset checks = .ok after ∧
    (R2RLoadedLayoutSymbolTransformer.iterator checks).Iterates after
      ((symbolLines lines).map (movedBy offset))

theorem addU64_lt {a b sum : Nat} (h : checks.addU64 a b = .ok sum) : sum < 2 ^ 64 := by
  cases checks with
  | on =>
    obtain ⟨hlt, rfl⟩ := addU64_eq_ok.mp h
    exact hlt
  | off =>
    cases h
    exact Nat.mod_lt _ (Nat.two_pow_pos 64)

theorem shown_stop {rest : TextFile} {items : List (SymbolEntry × TextFile)}
    (h : shown checks rest = .ok items) : ∀ item ∈ items, item.1.stop < 2 ^ 64 := by
  induction rest generalizing items with
  | nil =>
    cases h
    simp
  | cons line rest ih =>
    cases line with
    | none =>
      cases h
      simp
    | some text =>
      rw [shown] at h
      obtain ⟨entry, hload, h⟩ := bind_eq_ok.mp h
      obtain ⟨items, hitems, h⟩ := bind_eq_ok.mp h
      cases h
      have hstop : entry.stop < 2 ^ 64 := by
        obtain ⟨start, -, ⟨-, rfl⟩ | ⟨_, _, stop, -, -, hstop, rfl⟩⟩ := loadParts_eq_ok.mp hload
        · exact Nat.two_pow_pos 64
        · exact addU64_lt hstop
      split
      · exact List.forall_mem_cons.mpr ⟨hstop, ih hitems⟩
      · exact ih hitems

theorem formSymbols_toEntry {item : SymbolEntry × TextFile} (h : item ∈ formSymbols lines) :
    ∃ parsed : PerfMapLine, item.1 = parsed.toEntry := by
  induction lines with
  | nil => exact absurd h List.not_mem_nil
  | cons line lines ih =>
    rw [formSymbols] at h
    split at h
    · rcases List.mem_cons.mp h with rfl | h
      · exact ⟨_, rfl⟩
      · exact ih h
    · exact ih h

theorem start_le_stop {item : SymbolEntry × TextFile} (h : item ∈ symbolLines lines) :
    item.1.start ≤ item.1.stop := by
  obtain ⟨parsed, hparsed⟩ := formSymbols_toEntry (List.mem_of_mem_filter h)
  rw [hparsed]
  exact Nat.le_add_right _ _

theorem subU64_map_iff {a b : Nat} (ha : a < 2 ^ 64) :
    (checks.subU64 a b).map Int.ofNat = .ok ((a : Int) - b) ↔ b ≤ a := by
  cases checks with
  | on =>
    simp only [OverflowChecks.subU64, subU64]
    split
    · rename_i hle
      simp [Except.map, Int.ofNat_sub hle, hle]
    · rename_i hgt
      simp [Except.map, panicked, hgt]
  | off =>
    simp only [OverflowChecks.subU64, Except.map, Except.ok.injEq, Int.ofNat_eq_natCast]
    omega

/-- **Symbols and signature.** -/
theorem symbols_iff (h : Reached checks (openFile content) self) :
    (∃ after, self.reset checks = .ok after ∧
      (iterator checks).Iterates after (symbolLines (fileLines content)) ∧
        ∀ n items last, (iterator checks).calls n after = .ok (items, last) →
          last.signature = fileSignature (fileLines content)) ↔
      Sound checks (fileLines content) := by
  have hsettled := reached_settled h
  have hreset := @reset_eq checks self hsettled.seekable
  rw [hsettled.file, hsettled.again] at hreset
  have hsound : Sound checks (fileLines content) ↔ Laid checks (fileLines content) ∧
      fileSignature (fileLines content) =
        signatureOf (((readable (fileLines content)).find? marks).map nameOf) :=
    ⟨fun hs => ⟨hs.toLaid, hs.signature.symm⟩, fun hs => ⟨hs.1, hs.2.symm⟩⟩
  rw [hsound, ← headed_iff]
  constructor
  · rintro ⟨after, hafter, hiterates, hsignature⟩
    rw [hafter] at hreset
    refine ⟨after.left, ?_, iterates_iff.mp hiterates⟩
    rw [← hsignature 0 [] after rfl]
    exact hreset.symm
  · rintro ⟨rest, hheaded, hshown⟩
    cases hafter : self.reset checks with
    | error fault =>
      rw [hafter] at hreset
      cases hreset.trans hheaded
    | ok after =>
      rw [hafter] at hreset
      obtain ⟨hsignature, rfl⟩ := Prod.mk.inj (Except.ok.inj (hreset.trans hheaded))
      exact ⟨after, rfl, iterates_iff.mpr hshown,
        fun n items last hcalls => (calls_same hcalls).trans hsignature⟩

/-- What the transformer shows of a symbol. -/
def shifted (checks : OverflowChecks) (offset : Nat) (item : SymbolEntry × TextFile) :
    Exec Int × Exec Int × String × TextFile :=
  ((checks.subU64 item.1.start offset).map Int.ofNat,
    (checks.subU64 item.1.stop offset).map Int.ofNat, item.1.name, item.2)

theorem shifted_eq_iff {item : SymbolEntry × TextFile} (hle : item.1.start ≤ item.1.stop)
    (hlt : item.1.stop < 2 ^ 64) :
    shifted checks offset item = movedBy offset item ↔ offset ≤ item.1.start := by
  simp only [shifted, movedBy, Prod.mk.injEq, and_true]
  rw [subU64_map_iff (hle.trans_lt hlt), subU64_map_iff hlt]
  omega

theorem transformer_next (checks : OverflowChecks) (offset : Nat) (reader : R2RMapSymbolReader) :
    (R2RLoadedLayoutSymbolTransformer.iterator checks).next ⟨reader, offset⟩ =
      (iterator checks).next reader >>= fun r => .ok (r.1, ⟨r.2, offset⟩) := rfl

theorem transformer_iterates_iff {items : List (Exec Int × Exec Int × String × TextFile)} :
    (R2RLoadedLayoutSymbolTransformer.iterator checks).Iterates ⟨self, offset⟩ items ↔
      ∃ shown, (iterator checks).Iterates self shown ∧ shown.map (shifted checks offset) = items :=
  Iterator.iterates_map (transformer_next checks offset) fun _ => rfl

/-- **Maps of ready-to-run images.** For every file and every reader of it, a reset and the calls
behind it show the symbols of the file with its signature, and through the transformer the ranges
minus the offset, if and only if the lines are sound and no symbol starts in front of the offset. -/
theorem r2rMap_iff (h : Reached checks (openFile content) self) :
    Resilient checks (fileLines content) offset self ↔ Sound checks (fileLines content) ∧
      ∀ item ∈ symbolLines (fileLines content), offset ≤ item.1.start := by
  have hmap : ∀ {after}, (iterator checks).Iterates after (symbolLines (fileLines content)) →
      ((symbolLines (fileLines content)).map (shifted checks offset) =
        (symbolLines (fileLines content)).map (movedBy offset) ↔
          ∀ item ∈ symbolLines (fileLines content), offset ≤ item.1.start) := by
    intro after hiterates
    rw [List.map_inj_left]
    refine forall₂_congr fun item hitem => shifted_eq_iff (start_le_stop hitem) ?_
    exact shown_stop (iterates_iff.mp hiterates) item hitem
  constructor
  · rintro ⟨⟨after, hafter, hiterates, hsignature⟩, moved, hmoved, hshifted⟩
    refine ⟨(symbols_iff h).mp ⟨after, hafter, hiterates, hsignature⟩, (hmap hiterates).mp ?_⟩
    rw [R2RLoadedLayoutSymbolTransformer.reset, hafter] at hmoved
    cases hmoved
    obtain ⟨shown, hshown, heq⟩ := transformer_iterates_iff.mp hshifted
    rwa [hshown.unique hiterates] at heq
  · rintro ⟨hsound, hoffset⟩
    obtain ⟨after, hafter, hiterates, hsignature⟩ := (symbols_iff h).mpr hsound
    refine ⟨⟨after, hafter, hiterates, hsignature⟩, ⟨after, offset⟩, ?_, ?_⟩
    · rw [R2RLoadedLayoutSymbolTransformer.reset, hafter]
      rfl
    · exact transformer_iterates_iff.mpr ⟨_, hiterates, (hmap hiterates).mpr hoffset⟩

end Main

/-- A map with its signature and one symbol. -/
def imageLines : List (List Char) :=
  ["FFFFFFFF 0 00112233445566778899aabbccddeeff\n".toList, "10 20 f\n".toList]

theorem imageLines_symbols :
    symbolLines (imageLines.map encodeUtf8) = [(⟨16, 48, "f", none⟩, [])] := by
  decide +kernel

theorem imageLines_sound : Sound .on (imageLines.map encodeUtf8) := by
  have hread : (imageLines.map encodeUtf8).map readLine = imageLines.map some := by
    simp [readLine_encodeUtf8]
  have hsignature : fileSignature (imageLines.map encodeUtf8) =
      [0, 17, 34, 51, 68, 85, 102, 119, 136, 153, 170, 187, 204, 221, 238, 255] := by
    decide +kernel
  have hheaded : headed .on (List.replicate 16 0) ((imageLines.map encodeUtf8).map readLine) =
      .ok ([0, 17, 34, 51, 68, 85, 102, 119, 136, 153, 170, 187, 204, 221, 238, 255],
        ["10 20 f\n".toList].map some) := by
    rw [hread]
    decide +kernel
  have hshown : shown .on (["10 20 f\n".toList].map some) =
      .ok (symbolLines (imageLines.map encodeUtf8)) := by
    rw [imageLines_symbols]
    decide +kernel
  obtain ⟨hlaid, heq⟩ := headed_iff.mp ⟨_, hheaded, hshown⟩
  exact ⟨hlaid, heq.symm.trans hsignature.symm⟩

theorem r2rMap_iff_image :
    Resilient .on (fileLines (imageLines.flatMap encodeUtf8)) 8
      { reader := openFile (imageLines.flatMap encodeUtf8) } := by
  have hlines : fileLines (imageLines.flatMap encodeUtf8) = imageLines.map encodeUtf8 := by
    decide +kernel
  refine (r2rMap_iff .new).mpr ⟨hlines ▸ imageLines_sound, ?_⟩
  rw [hlines, imageLines_symbols]
  decide

/-- The symbol of a map without a signature is dropped. -/
theorem r2rMap_not_all : ¬ ∀ (checks : OverflowChecks) (content : List UInt8) (offset : Nat)
    (self : R2RMapSymbolReader), Reached checks (openFile content) self →
      Resilient checks (fileLines content) offset self := by
  intro h
  have hlines : fileLines PerfMapSymbolReader.perfMapBytes = [PerfMapSymbolReader.perfMapBytes] := by
    decide
  have hsound := (symbols_iff .new).mp (h .on PerfMapSymbolReader.perfMapBytes 0 _ .new).symbols
  have hheader := hsound.header
  rw [hlines, readable, PerfMapSymbolReader.readLine_perfMapBytes] at hheader
  have hlt := hheader "10 20 f\n".toList (by decide) ⟨16, 32, "f"⟩ (by decide)
  exact absurd hlt (by decide)

end R2RMapSymbolReader

end OneCollect.Exporting
