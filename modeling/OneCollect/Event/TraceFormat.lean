import OneCollect.Event.Access

/-! The formats of tracefs (`tracefs.rs`): the fields of an event, read from the lines of its format
file, and the file as the kernel prints it.

A field in the dynamic data of a record has a marker in front of its type. The reader knows
`__dyn_loc` where the kernel prints `__data_loc`; `format_readsBack_iff` says that nothing else is
wrong. -/

namespace OneCollect.TraceFS
open Theory

/-! ## The reader -/

/-- The location of a type that may start with a marker, and the type without it. -/
def takeMarker (typePart : List Char) : LocationType × List Char :=
  if "__rel_loc ".toList.isPrefixOf typePart then (.dynRelative, typePart.drop 10)
  else if "__dyn_loc ".toList.isPrefixOf typePart then (.dynAbsolute, typePart.drop 10)
  else (.static, typePart)

/-- What the loop over the parts of a line has found. -/
structure FieldParts where
  fname : Option (List Char) := none
  ftype : Option (List Char) := none
  floc : LocationType := .static
  foffset : Option Nat := none
  fsize : Option Nat := none

/-- One turn of the loop. -/
def FieldParts.addPart (parts : FieldParts) (part : List Char × Nat) : Exec FieldParts :=
  let text := trim part.1
  match part.2 with
  | 0 =>
    match splitAtLast ' ' text with
    | none => fail "Field name has no type."
    | some (typePart, namePart) =>
      let (floc, typePart) := takeMarker typePart
      .ok { parts with
        fname := some (cutAt '[' (trim namePart)).1, ftype := some typePart, floc }
  | 1 => do
    let (_, offset) ← orPanic (splitAtByte 7 text)
    .ok { parts with foffset := fromDecimal 64 offset }
  | 2 => do
    let (_, size) ← orPanic (splitAtByte 5 text)
    .ok { parts with fsize := fromDecimal 64 size }
  -- no more is needed
  | _ => .ok parts

def fieldFromLine (line : List Char) : Exec EventField := do
  let parts ← (line.splitOn ';').zipIdx.foldlM FieldParts.addPart {}
  match parts with
  | ⟨some fname, some ftype, floc, some foffset, some fsize⟩ =>
    .ok ⟨String.ofList fname, String.ofList ftype, floc, foffset, fsize⟩
  | _ => fail "Field is missing one of: type, name, offset, size."

/-- The loop over the lines in front of the format: the id, and what is left behind them. -/
def readHead : Option Nat → List (Option (List Char)) →
    Exec (Option Nat × Option (List (Option (List Char))))
  | id, [] => .ok (id, none)
  | id, none :: lines => readHead id lines
  | id, some line :: lines =>
    if "ID: ".toList.isPrefixOf line then
      match fromDecimal 64 (line.drop 4) with
      | some readId => readHead (some readId) lines
      | none => fail "ID was not an integer."
    else if "format:".toList.isPrefixOf line then .ok (id, some lines)
    else readHead id lines

/-- The loop over the lines of the format. -/
def readFields (format : EventFormat) : List (Option (List Char)) → Exec EventFormat
  | [] => .ok format
  | none :: lines => readFields format lines
  | some line :: lines =>
    if "\tfield:".toList.isPrefixOf line then do
      let field ← fieldFromLine (line.drop 7)
      readFields (format.addField field) lines
    else readFields format lines

def eventFromFormat (system name : String) (content : List UInt8) : Exec Event := do
  match ← readHead none (textLines content) with
  | (some id, some lines) =>
    let format ← readFields {} lines
    .ok ⟨id, system ++ "/" ++ name, format⟩
  | _ => fail "Format is missing ID or format prefix."

/-! ## The file of the kernel -/

structure Word where
  text : List Char
  ne_nil : text ≠ []
  plain : ∀ c ∈ text, isWhiteSpace c = false ∧ c ≠ ';'

structure CType where
  first : Word
  rest : List Word := []

def CType.text (type : CType) : List Char :=
  type.first.text ++ type.rest.flatMap fun word => ' ' :: word.text

/-- What the kernel prints in front of the type of a field in the dynamic data. -/
inductive Marker where
  | relLoc
  | dataLoc
  deriving DecidableEq, Repr

namespace Marker

def text : Marker → List Char
  | relLoc => "__rel_loc".toList
  | dataLoc => "__data_loc".toList

def location : Marker → LocationType
  | relLoc => .dynRelative
  | dataLoc => .dynAbsolute

/-- Where a descriptor at `offset` counts from: behind itself, or the start of the record. -/
def base (offset : Nat) : Marker → Nat
  | relLoc => offset + 4
  | dataLoc => 0

end Marker

/-- A field; its descriptor or its value ends within the range of a `usize`. -/
structure KernelField where
  marker : Option Marker := none
  type : CType
  name : Word
  bound : Option (List Char) := none
  offset : Nat
  size : Nat
  signed : Bool := false
  name_ok : '[' ∉ name.text
  bound_ok : ∀ text ∈ bound, ∀ c ∈ text, isWhiteSpace c = false ∧ c ≠ ';'
  unmarked : marker = none → ∀ other : Marker, type.first.text ≠ other.text
  fits : offset + max size 4 < 2 ^ 64

/-- The bytes of a record from `start` on, if it has as many. -/
def window (record : List UInt8) (start len : Nat) : List UInt8 :=
  if start + len ≤ record.length then (record.drop start).take len else []

/-- The two halves of a descriptor: where its data are, and their length. -/
def descriptor (record : List UInt8) (offset : Nat) : Option (Nat × Nat) :=
  if offset + 4 ≤ record.length then
    some (fromLe ((record.drop offset).take 2), fromLe ((record.drop (offset + 2)).take 2))
  else none

namespace KernelField

def typeText (field : KernelField) : List Char :=
  match field.marker with
  | none => field.type.text
  | some marker => marker.text ++ ' ' :: field.type.text

def nameText (field : KernelField) : List Char :=
  match field.bound with
  | none => field.name.text
  | some bound => field.name.text ++ '[' :: (bound ++ [']'])

/-- The line of a field. -/
def line (field : KernelField) : List Char :=
  "\tfield:".toList ++ ((field.typeText ++ ' ' :: field.nameText) ++ ';' ::
    (("\toffset:".toList ++ toDecimal field.offset) ++ ';' ::
      (("\tsize:".toList ++ toDecimal field.size) ++ ';' ::
        (("\tsigned:".toList ++ [if field.signed then '1' else '0']) ++ [';']))))

def location (field : KernelField) : LocationType :=
  match field.marker with
  | none => .static
  | some marker => marker.location

/-- What there is to find out about a field. -/
def described (field : KernelField) : EventField where
  name := String.ofList field.name.text
  typeName := String.ofList field.type.text
  location := field.location
  offset := field.offset
  size := field.size

/-- The bytes of a record that belong to a field. -/
def data (field : KernelField) (record : List UInt8) : List UInt8 :=
  match field.marker with
  | none => window record field.offset field.size
  | some marker =>
    match descriptor record field.offset with
    | none => []
    | some (start, len) => window record (marker.base field.offset + start) len

end KernelField

/-- A line that starts with none of the marks; it need not be a text. -/
structure OtherLine (marks : List String) where
  bytes : List UInt8
  plain : 10 ∉ bytes
  other : ∀ mark ∈ marks, ¬ encodeUtf8 mark.toList <+: bytes

inductive FormatLine where
  | entry (field : KernelField)
  | other (line : OtherLine ["\tfield:"])

def FormatLine.bytes : FormatLine → List UInt8
  | .entry field => encodeUtf8 field.line
  | .other line => line.bytes

def FormatLine.toField : FormatLine → Option KernelField
  | .entry field => some field
  | .other _ => none

/-- A format file: the id, the title of the format and the fields, with other lines around them. -/
structure FormatFile where
  front : List (OtherLine ["ID: ", "format:"])
  id : Nat
  between : List (OtherLine ["ID: ", "format:"])
  lines : List FormatLine
  id_lt : id < 2 ^ 64

namespace FormatFile

def idLine (file : FormatFile) : List Char := "ID: ".toList ++ toDecimal file.id

def byteLines (file : FormatFile) : List (List UInt8) :=
  file.front.map OtherLine.bytes ++ encodeUtf8 file.idLine ::
    (file.between.map OtherLine.bytes ++ encodeUtf8 "format:".toList ::
      file.lines.map FormatLine.bytes)

def content (file : FormatFile) : List UInt8 := (file.byteLines.map (· ++ [10])).flatten

def fields (file : FormatFile) : List KernelField := file.lines.filterMap FormatLine.toField

end FormatFile

/-! ## Reading a field -/

theorem CType.text_eq (type : CType) :
    ∃ rest, type.text = type.first.text ++ rest ∧ (type.rest = [] ∧ rest = [] ∨
      type.rest ≠ [] ∧ ∃ more, rest = ' ' :: more) := by
  refine ⟨_, rfl, ?_⟩
  cases type.rest with
  | nil => exact .inl ⟨rfl, rfl⟩
  | cons word words => exact .inr ⟨List.cons_ne_nil _ _, _, rfl⟩

/-- The first word of a type ends at the first blank. -/
theorem CType.cutAt_text (type : CType) :
    (cutAt ' ' type.text).1 = type.first.text ∧
      ((cutAt ' ' type.text).2.isSome ↔ type.rest ≠ []) := by
  have hblank : ' ' ∉ type.first.text := fun hmem =>
    absurd (type.first.plain ' ' hmem).1 (by decide)
  obtain ⟨rest, htext, ⟨hrest, rfl⟩ | ⟨hrest, more, rfl⟩⟩ := type.text_eq
  · rw [htext, List.append_nil, cutAt_of_not_mem hblank]
    simp [hrest]
  · rw [htext, cutAt_append hblank]
    simp [hrest]

/-- A mark in front of a type is its first word, and there are more. -/
theorem CType.mark_iff (type : CType) (mark : List Char) (hmark : ' ' ∉ mark) :
    (mark ++ [' ']).isPrefixOf type.text = true ↔ type.first.text = mark ∧ type.rest ≠ [] := by
  obtain ⟨hfirst, hrest⟩ := type.cutAt_text
  rw [List.isPrefixOf_iff_prefix]
  constructor
  · rintro ⟨more, hmore⟩
    rw [← hmore, List.append_assoc, List.singleton_append, cutAt_append hmark] at hfirst hrest
    exact ⟨hfirst.symm, hrest.mp rfl⟩
  · rintro ⟨rfl, hne⟩
    obtain ⟨rest, htext, ⟨hnil, -⟩ | ⟨-, more, rfl⟩⟩ := type.text_eq
    · exact absurd hnil hne
    · exact ⟨more, by rw [htext, List.append_assoc, List.singleton_append]⟩

theorem CType.plain (type : CType) : ∀ c ∈ type.text, c ≠ ';' ∧ c ≠ '\n' := by
  have hword : ∀ word : Word, ∀ c ∈ word.text, c ≠ ';' ∧ c ≠ '\n' := fun word c hc =>
    ⟨(word.plain c hc).2, fun heq => absurd (heq ▸ (word.plain c hc).1) (by decide)⟩
  intro c hc
  rcases List.mem_append.mp hc with hc | hc
  · exact hword _ c hc
  · obtain ⟨word, -, hc⟩ := List.mem_flatMap.mp hc
    rcases List.mem_cons.mp hc with rfl | hc
    · decide
    · exact hword word c hc

theorem plain_toDecimal (n : Nat) :
    ∀ c ∈ toDecimal n, isWhiteSpace c = false ∧ c ≠ ';' := by
  have hdigits : ∀ d < 16, isWhiteSpace d.digitChar = false ∧ d.digitChar ≠ ';' := by decide
  intro c hc
  obtain ⟨d, hd, rfl⟩ := mem_toDecimal hc
  exact hdigits d hd

/-- A text without blanks. -/
theorem trim_plain {text : List Char} (h : ∀ c ∈ text, isWhiteSpace c = false) :
    trim text = text :=
  trim_eq_self (fun c hc => h c (List.mem_of_mem_head? hc))
    fun c hc => h c (List.mem_of_mem_getLast? hc)

namespace KernelField

variable (field : KernelField)

theorem plain_nameText : ∀ c ∈ field.nameText, isWhiteSpace c = false ∧ c ≠ ';' := by
  intro c hc
  unfold nameText at hc
  cases hbound : field.bound with
  | none =>
    rw [hbound] at hc
    exact field.name.plain c hc
  | some bound =>
    rw [hbound] at hc
    simp only [List.mem_append, List.mem_cons, List.not_mem_nil, or_false] at hc
    rcases hc with hc | rfl | hc | rfl
    · exact field.name.plain c hc
    · decide
    · exact field.bound_ok bound hbound c hc
    · decide

theorem nameText_ne_nil : field.nameText ≠ [] := by
  unfold nameText
  cases field.bound with
  | none => exact field.name.ne_nil
  | some bound => simp

theorem cutAt_nameText : (cutAt '[' field.nameText).1 = field.name.text := by
  unfold nameText
  cases field.bound with
  | none => exact congrArg Prod.fst (cutAt_of_not_mem field.name_ok)
  | some bound => exact congrArg Prod.fst (cutAt_append field.name_ok _)

theorem plain_typeText : ∀ c ∈ field.typeText, c ≠ ';' ∧ c ≠ '\n' := by
  have hmarker : ∀ marker : Marker, ∀ c ∈ marker.text, c ≠ ';' ∧ c ≠ '\n' := by
    intro marker
    cases marker <;> decide
  intro c hc
  unfold typeText at hc
  cases hfield : field.marker with
  | none =>
    rw [hfield] at hc
    exact field.type.plain c hc
  | some marker =>
    rw [hfield] at hc
    rcases List.mem_append.mp hc with hc | hc
    · exact hmarker marker c hc
    · rcases List.mem_cons.mp hc with rfl | hc
      · decide
      · exact field.type.plain c hc

/-- A type begins with no blank. -/
theorem head_typeText : ∃ c rest, field.typeText = c :: rest ∧ isWhiteSpace c = false := by
  unfold typeText
  cases field.marker with
  | none =>
    obtain ⟨c, rest, hfirst⟩ := List.exists_cons_of_ne_nil field.type.first.ne_nil
    refine ⟨c, _, congrArg (· ++ _) hfirst, (field.type.first.plain c ?_).1⟩
    rw [hfirst]
    exact List.mem_cons_self
  | some marker =>
    cases marker with
    | relLoc => exact ⟨'_', _, rfl, rfl⟩
    | dataLoc => exact ⟨'_', _, rfl, rfl⟩

theorem trim_declaration :
    trim (field.typeText ++ ' ' :: field.nameText) = field.typeText ++ ' ' :: field.nameText := by
  refine trim_eq_self (fun c hc => ?_) fun c hc => ?_
  · obtain ⟨d, rest, htype, hd⟩ := field.head_typeText
    rw [htype] at hc
    cases hc
    exact hd
  · obtain ⟨d, rest, hname⟩ := List.exists_cons_of_ne_nil field.nameText_ne_nil
    rw [List.getLast?_append_of_ne_nil _ (List.cons_ne_nil _ _), hname, List.getLast?_cons_cons,
      ← hname] at hc
    exact (field.plain_nameText c (List.mem_of_mem_getLast? hc)).1

/-- What is read of a field. -/
def parsed : EventField where
  name := String.ofList field.name.text
  typeName := String.ofList (takeMarker field.typeText).2
  location := (takeMarker field.typeText).1
  offset := field.offset
  size := field.size

theorem addPart_declaration :
    FieldParts.addPart {} (field.typeText ++ ' ' :: field.nameText, 0) =
      .ok { fname := some field.name.text, ftype := some (takeMarker field.typeText).2,
            floc := (takeMarker field.typeText).1 } := by
  have hblank : ' ' ∉ field.nameText := fun hmem =>
    absurd (field.plain_nameText ' ' hmem).1 (by decide)
  have hname : trim (' ' :: field.nameText) = field.nameText := by
    rw [trim_blank (by decide), trim_plain fun c hc => (field.plain_nameText c hc).1]
  simp only [FieldParts.addPart, field.trim_declaration, splitAtLast_append hblank, hname,
    field.cutAt_nameText]

end KernelField

/-- The text in front of a number is skipped. -/
theorem splitAtByte_number (title : List Char) (htitle : ∀ c ∈ title, c.utf8Size = 1 ∧
    isWhiteSpace c = false) (n : Nat) :
    splitAtByte title.length (trim ('\t' :: (title ++ toDecimal n))) = some (title, toDecimal n) := by
  have hplain : ∀ c ∈ title ++ toDecimal n, isWhiteSpace c = false := by
    intro c hc
    rcases List.mem_append.mp hc with hc | hc
    · exact (htitle c hc).2
    · exact (plain_toDecimal n c hc).1
  rw [trim_blank (by decide), trim_plain hplain, splitAtByte_append fun c hc => (htitle c hc).1]

theorem addPart_offset {n : Nat} (h : n < 2 ^ 64) (parts : FieldParts) :
    parts.addPart ("\toffset:".toList ++ toDecimal n, 1) = .ok { parts with foffset := some n } := by
  have hsplit := splitAtByte_number "offset:".toList (by decide) n
  change (orPanic (splitAtByte 7 (trim ("\toffset:".toList ++ toDecimal n))) >>= _) = _
  rw [show splitAtByte 7 (trim ("\toffset:".toList ++ toDecimal n)) = _ from hsplit, orPanic,
    ok_bind]
  simp only [fromDecimal_toDecimal h]

theorem addPart_size {n : Nat} (h : n < 2 ^ 64) (parts : FieldParts) :
    parts.addPart ("\tsize:".toList ++ toDecimal n, 2) = .ok { parts with fsize := some n } := by
  have hsplit := splitAtByte_number "size:".toList (by decide) n
  change (orPanic (splitAtByte 5 (trim ("\tsize:".toList ++ toDecimal n))) >>= _) = _
  rw [show splitAtByte 5 (trim ("\tsize:".toList ++ toDecimal n)) = _ from hsplit, orPanic,
    ok_bind]
  simp only [fromDecimal_toDecimal h]

theorem semicolon_not_mem_number (title : List Char) (htitle : ';' ∉ title) (n : Nat) :
    ';' ∉ title ++ toDecimal n := by
  intro hmem
  rcases List.mem_append.mp hmem with hmem | hmem
  · exact htitle hmem
  · exact (plain_toDecimal n _ hmem).2 rfl

/-- The parts of the line of a field. -/
theorem splitOn_line (field : KernelField) :
    (field.line.drop 7).splitOn ';' =
      [field.typeText ++ ' ' :: field.nameText, "\toffset:".toList ++ toDecimal field.offset,
        "\tsize:".toList ++ toDecimal field.size,
        "\tsigned:".toList ++ [if field.signed then '1' else '0'], []] := by
  have hdeclaration : ';' ∉ field.typeText ++ ' ' :: field.nameText := by
    intro hmem
    rcases List.mem_append.mp hmem with hmem | hmem
    · exact (field.plain_typeText _ hmem).1 rfl
    · rcases List.mem_cons.mp hmem with hmem | hmem
      · cases hmem
      · exact (field.plain_nameText _ hmem).2 rfl
  have hsigned : ';' ∉ "\tsigned:".toList ++ [if field.signed then '1' else '0'] := by
    cases field.signed <;> decide
  have hoffset := semicolon_not_mem_number "\toffset:".toList (by decide) field.offset
  have hsize := semicolon_not_mem_number "\tsize:".toList (by decide) field.size
  have hdrop : field.line.drop "\tfield:".toList.length = _ := List.drop_left
  change (field.line.drop "\tfield:".toList.length).splitOn ';' = _
  rw [hdrop, List.splitOn_append_cons_self_of_not_mem hdeclaration,
    List.splitOn_append_cons_self_of_not_mem hoffset,
    List.splitOn_append_cons_self_of_not_mem hsize,
    List.splitOn_append_cons_self_of_not_mem hsigned, List.splitOn_nil]

/-- The line of a field is read. -/
theorem fieldFromLine_line (field : KernelField) :
    fieldFromLine (field.line.drop 7) = .ok field.parsed := by
  have hfits := field.fits
  have hoffset := @addPart_offset field.offset (by omega)
  have hsize := @addPart_size field.size (by omega)
  rw [fieldFromLine, splitOn_line, List.zipIdx_cons, List.foldlM_cons, field.addPart_declaration,
    ok_bind, List.zipIdx_cons, List.foldlM_cons, hoffset, ok_bind, List.zipIdx_cons,
    List.foldlM_cons, hsize, ok_bind]
  rfl

/-! ## Reading a file -/

theorem textLines_content {lines : List (List UInt8)} (h : ∀ line ∈ lines, 10 ∉ line) :
    textLines (lines.map (· ++ [10])).flatten =
      lines.map fun line => (readLine (line ++ [10])).map stripEnd := by
  have hterminated : ∀ line ∈ lines.map (· ++ [10]), Terminated line := by
    intro line hline
    obtain ⟨body, hbody, rfl⟩ := List.mem_map.mp hline
    exact ⟨body, h body hbody, rfl⟩
  rw [textLines, fileLines_flatten hterminated, List.map_map]
  rfl

/-- What `lines` yields for a line of bytes. -/
def lineText (line : List UInt8) : Option (List Char) := (readLine (line ++ [10])).map stripEnd

theorem lineText_encodeUtf8 {text : List Char} (h : text.getLast? ≠ some '\r') :
    lineText (encodeUtf8 text) = some text := by
  have hbytes : encodeUtf8 text ++ [10] = encodeUtf8 (text ++ ['\n']) := by
    rw [encodeUtf8_append]
    rfl
  rw [lineText, hbytes, readLine_encodeUtf8, Option.map_some, stripEnd_append h]

/-- The text of another line starts with no mark either. -/
theorem OtherLine.text_other {marks : List String} (line : OtherLine marks) {mark : String}
    (hmark : mark ∈ marks) (hline : '\n' ∉ mark.toList) {text : List Char}
    (htext : lineText line.bytes = some text) : mark.toList.isPrefixOf text = false := by
  obtain ⟨full, hfull, rfl⟩ := Option.map_eq_some_iff.mp htext
  obtain ⟨string, hstring, rfl⟩ := Option.map_eq_some_iff.mp hfull
  rw [← Bool.not_eq_true, List.isPrefixOf_iff_prefix]
  intro hprefix
  have hstrip : stripEnd string.toList <+: string.toList := by
    unfold stripEnd popIf
    split_ifs
    · exact (List.dropLast_prefix _).trans (List.dropLast_prefix _)
    · exact List.dropLast_prefix _
    · exact List.prefix_rfl
  obtain ⟨rest, hrest⟩ := hprefix.trans hstrip
  have hbytes := encodeUtf8_of_decodeUtf8 hstring
  rw [← hrest, encodeUtf8_append] at hbytes
  have hpre : encodeUtf8 mark.toList <+: line.bytes ++ [10] := ⟨_, hbytes⟩
  rcases List.prefix_concat_iff.mp hpre with heq | hpre
  · have hten : (10 : UInt8) ∉ encodeUtf8 mark.toList :=
      byte_not_mem_encodeUtf8 (c := '\n') (by decide) rfl hline
    rw [heq] at hten
    exact hten (by simp)
  · exact line.other mark hmark hpre

theorem readHead_other {line : OtherLine ["ID: ", "format:"]} (id : Option Nat)
    (lines : List (Option (List Char))) :
    readHead id (lineText line.bytes :: lines) = readHead id lines := by
  cases htext : lineText line.bytes with
  | none => rfl
  | some text =>
    have hid := line.text_other List.mem_cons_self (by decide) htext
    have hformat := line.text_other (List.mem_cons_of_mem _ List.mem_cons_self) (by decide) htext
    rw [readHead, hid, hformat]
    rfl

theorem readHead_others (others : List (OtherLine ["ID: ", "format:"])) (id : Option Nat)
    (lines : List (Option (List Char))) :
    readHead id (others.map (fun line => lineText line.bytes) ++ lines) = readHead id lines := by
  induction others with
  | nil => rfl
  | cons other others ih => rw [List.map_cons, List.cons_append, readHead_other, ih]

/-- The line of a field has no line in it. -/
theorem KernelField.newline_not_mem_line (field : KernelField) : '\n' ∉ field.line := by
  have hdeclaration : '\n' ∉ field.typeText ++ ' ' :: field.nameText := by
    intro hmem
    rcases List.mem_append.mp hmem with hmem | hmem
    · exact (field.plain_typeText _ hmem).2 rfl
    · rcases List.mem_cons.mp hmem with hmem | hmem
      · cases hmem
      · exact absurd (field.plain_nameText _ hmem).1 (by decide)
  have hnumber : ∀ (title : List Char) (n : Nat), '\n' ∉ title → '\n' ∉ title ++ toDecimal n := by
    intro title n htitle hmem
    rcases List.mem_append.mp hmem with hmem | hmem
    · exact htitle hmem
    · exact absurd (plain_toDecimal n _ hmem).1 (by decide)
  have hsigned : '\n' ∉ ("\tsigned:".toList ++ [if field.signed then '1' else '0']) ++ [';'] := by
    cases field.signed <;> decide
  have hcons : ∀ {text : List Char}, '\n' ∉ text → '\n' ∉ ';' :: text := fun h =>
    List.not_mem_cons_of_ne_of_not_mem (by decide) h
  unfold line
  refine List.not_mem_append (by decide) (List.not_mem_append hdeclaration (hcons ?_))
  refine List.not_mem_append (hnumber _ _ (by decide)) (hcons ?_)
  exact List.not_mem_append (hnumber _ _ (by decide)) (hcons hsigned)

theorem KernelField.lineText_line (field : KernelField) :
    lineText (encodeUtf8 field.line) = some field.line := by
  have hbehind : ∀ (front : List Char) {text : List Char}, text.getLast? = some ';' →
      (front ++ ';' :: text).getLast? = some ';' := by
    intro front text htext
    rw [List.getLast?_append_of_ne_nil _ (List.cons_ne_nil _ _), List.getLast?_cons, htext]
    rfl
  refine lineText_encodeUtf8 ?_
  unfold line
  rw [List.getLast?_append_of_ne_nil _ (by simp), hbehind _ (hbehind _ (hbehind _ ?_))]
  · decide
  · exact List.getLast?_concat

theorem readFields_lines (lines : List FormatLine) (format : EventFormat) :
    readFields format (lines.map fun line => lineText line.bytes) =
      .ok ⟨format.fields ++ (lines.filterMap FormatLine.toField).map KernelField.parsed⟩ := by
  induction lines generalizing format with
  | nil => simp [readFields]
  | cons line lines ih =>
    rw [List.map_cons]
    cases line with
    | entry field =>
      have htitle : "\tfield:".toList.isPrefixOf field.line = true :=
        List.isPrefixOf_iff_prefix.mpr (List.prefix_append _ _)
      rw [FormatLine.bytes, field.lineText_line, readFields, if_pos htitle, fieldFromLine_line,
        ok_bind, ih, EventFormat.addField, List.append_assoc]
      rfl
    | other line =>
      have hskip : readFields format (lineText line.bytes :: lines.map fun line =>
          lineText line.bytes) = readFields format (lines.map fun line => lineText line.bytes) := by
        cases htext : lineText line.bytes with
        | none => rfl
        | some text =>
          rw [readFields, line.text_other List.mem_cons_self (by decide) htext]
          rfl
      rw [List.filterMap_cons_none rfl, ← ih, ← hskip]
      rfl

theorem FormatFile.newline_not_mem (file : FormatFile) : ∀ line ∈ file.byteLines, 10 ∉ line := by
  have hencode : ∀ {text : List Char}, '\n' ∉ text → 10 ∉ encodeUtf8 text := fun h =>
    byte_not_mem_encodeUtf8 (c := '\n') (by decide) rfl h
  have hid : '\n' ∉ file.idLine := by
    intro hmem
    rcases List.mem_append.mp hmem with hmem | hmem
    · exact absurd hmem (by decide)
    · exact absurd (plain_toDecimal _ _ hmem).1 (by decide)
  have hother : ∀ others : List (OtherLine ["ID: ", "format:"]),
      ∀ line ∈ others.map OtherLine.bytes, 10 ∉ line := by
    intro others line hline
    obtain ⟨other, -, rfl⟩ := List.mem_map.mp hline
    exact other.plain
  intro line hline
  rcases List.mem_append.mp hline with hline | hline
  · exact hother _ line hline
  rcases List.mem_cons.mp hline with rfl | hline
  · exact hencode hid
  rcases List.mem_append.mp hline with hline | hline
  · exact hother _ line hline
  rcases List.mem_cons.mp hline with rfl | hline
  · exact hencode (by decide)
  obtain ⟨formatLine, -, rfl⟩ := List.mem_map.mp hline
  cases formatLine with
  | entry field => exact hencode field.newline_not_mem_line
  | other other => exact other.plain

/-- The lines in front of the fields are read. -/
theorem FormatFile.readHead_content (file : FormatFile) :
    readHead none (textLines file.content) =
      .ok (some file.id, some (file.lines.map fun line => lineText line.bytes)) := by
  have hid : lineText (encodeUtf8 file.idLine) = some file.idLine := by
    refine lineText_encodeUtf8 fun hlast => ?_
    rw [idLine, List.getLast?_append_of_ne_nil _ (toDecimal_ne_nil _)] at hlast
    exact absurd (plain_toDecimal _ _ (List.mem_of_mem_getLast? hlast)).1 (by decide)
  have hformat : lineText (encodeUtf8 "format:".toList) = some "format:".toList :=
    lineText_encodeUtf8 (by decide)
  have htitle : "ID: ".toList.isPrefixOf file.idLine = true :=
    List.isPrefixOf_iff_prefix.mpr (List.prefix_append _ _)
  have hnumber : fromDecimal 64 (file.idLine.drop 4) = some file.id :=
    fromDecimal_toDecimal file.id_lt
  have hlines : textLines file.content = file.byteLines.map lineText :=
    textLines_content file.newline_not_mem
  rw [hlines, byteLines, List.map_append, List.map_map, List.map_cons, List.map_append,
    List.map_map, List.map_cons, List.map_map, hid, hformat]
  refine (readHead_others _ _ _).trans ?_
  rw [readHead, if_pos htitle, hnumber]
  refine (readHead_others _ _ _).trans ?_
  rfl

/-- **What is read of a file**: every field as its line gives it. -/
theorem eventFromFormat_content (system name : String) (file : FormatFile) :
    eventFromFormat system name file.content =
      .ok ⟨file.id, system ++ "/" ++ name, ⟨file.fields.map KernelField.parsed⟩⟩ := by
  rw [eventFromFormat, file.readHead_content, ok_bind]
  change (readFields {} (file.lines.map fun line => lineText line.bytes) >>= _) = _
  rw [readFields_lines]
  rfl

/-! ## What is read back -/

namespace KernelField

/-- The reader knows what is in front of the type: it is not `__data_loc`, nor is it `__dyn_loc`
without being a marker. -/
def Known (field : KernelField) : Prop :=
  field.marker ≠ some .dataLoc ∧
    (field.marker = none → field.type.first.text = "__dyn_loc".toList → field.type.rest = [])

theorem parsed_eq_iff (field : KernelField) : field.parsed = field.described ↔ field.Known := by
  unfold Known parsed described typeText location
  cases hmarker : field.marker with
  | some marker =>
    cases marker with
    | relLoc => exact iff_of_true rfl ⟨by simp, fun h => absurd h (by simp)⟩
    | dataLoc =>
      refine iff_of_false (fun heq => ?_) fun hknown => hknown.1 rfl
      have hlocation : LocationType.static = .dynAbsolute := congrArg EventField.location heq
      cases hlocation
  | none =>
    have hrel : ("__rel_loc".toList ++ [' ']).isPrefixOf field.type.text = false := by
      rw [← Bool.not_eq_true, field.type.mark_iff "__rel_loc".toList (by decide)]
      exact fun h => field.unmarked hmarker .relLoc h.1
    have hdyn := field.type.mark_iff "__dyn_loc".toList (by decide)
    change "__rel_loc ".toList.isPrefixOf field.type.text = false at hrel
    change "__dyn_loc ".toList.isPrefixOf field.type.text = true ↔ _ at hdyn
    by_cases htwo : field.type.first.text = "__dyn_loc".toList ∧ field.type.rest ≠ []
    · have htake : takeMarker field.type.text = (.dynAbsolute, field.type.text.drop 10) := by
        rw [takeMarker, hrel, if_neg Bool.false_ne_true, if_pos (hdyn.mpr htwo)]
      refine iff_of_false (fun heq => ?_) fun hknown => htwo.2 (hknown.2 rfl htwo.1)
      have hlocation := congrArg EventField.location heq
      dsimp only at hlocation
      rw [htake] at hlocation
      cases hlocation
    · have htake : takeMarker field.type.text = (.static, field.type.text) := by
        rw [takeMarker, hrel, if_neg Bool.false_ne_true, if_neg (hdyn.not.mpr htwo)]
      dsimp only
      rw [htake]
      exact iff_of_true rfl ⟨by simp, fun _ hfirst => by_contra fun hrest => htwo ⟨hfirst, hrest⟩⟩

end KernelField

theorem descriptor_eq {record : List UInt8} {offset : Nat} (h : offset + 4 ≤ record.length) :
    descriptor record offset =
      some (fromLe ((record.drop offset).take 4) % 2 ^ 16,
        fromLe ((record.drop offset).take 4) / 2 ^ 16) := by
  have hsplit : (record.drop offset).take 4 =
      (record.drop offset).take 2 ++ (record.drop (offset + 2)).take 2 := by
    rw [← List.drop_drop, ← List.take_add]
  have hlength : ((record.drop offset).take 2).length = 2 := by
    rw [List.length_take, List.length_drop]
    omega
  have hlow := fromLe_lt ((record.drop offset).take 2)
  have hsum := fromLe_append ((record.drop offset).take 2) ((record.drop (offset + 2)).take 2)
  rw [← hsplit, hlength] at hsum
  rw [hlength] at hlow
  rw [descriptor, if_pos h, Option.some.injEq, Prod.mk.injEq]
  omega

theorem dynData_eq {record : List UInt8} {offset start len : Nat}
    (h : descriptor record offset = some (start, len)) (base : Nat) :
    EventFormat.dynData base offset record = window record (base + start) len := by
  have hlength : offset + 4 ≤ record.length := by
    by_contra hlength
    rw [descriptor, if_neg hlength] at h
    cases h
  rw [descriptor_eq hlength] at h
  cases h
  unfold EventFormat.dynData window
  dsimp only
  rw [Nat.add_sub_cancel_left]
  split_ifs
  all_goals first | rfl | omega

/-- The bytes of a field are where its description says. -/
theorem KernelField.data_eq (field : KernelField) (record : List UInt8) :
    EventFormat.getDataWithOffsetDirect field.size field.location field.offset record =
      field.data record := by
  have hdyn : ∀ marker : Marker,
      (if field.offset + 4 > record.length then []
        else EventFormat.dynData (marker.base field.offset) field.offset record) =
      match descriptor record field.offset with
      | none => []
      | some (start, len) => window record (marker.base field.offset + start) len := by
    intro marker
    by_cases hlength : field.offset + 4 ≤ record.length
    · rw [if_neg (by omega), dynData_eq (descriptor_eq hlength), descriptor_eq hlength]
    · rw [if_pos (by omega), descriptor, if_neg hlength]
  unfold data location
  cases field.marker with
  | none =>
    unfold window EventFormat.getDataWithOffsetDirect
    dsimp only
    split_ifs
    all_goals first | rfl | omega
  | some marker =>
    cases marker with
    | relLoc => exact hdyn .relLoc
    | dataLoc => exact hdyn .dataLoc

/-- The event of a file has its id, its fields and, of any record, the bytes of every field. -/
def ReadsBack (system name : String) (file : FormatFile) : Prop :=
  ∃ event, eventFromFormat system name file.content = .ok event ∧
    event.id = file.id ∧ event.name = system ++ "/" ++ name ∧
    event.format.fields = file.fields.map KernelField.described ∧
    ∀ (i : Nat) (field : KernelField) (record : List UInt8), file.fields[i]? = some field →
      event.format.getDataAt i record = field.data record

/-- **Reading back a format**: a file is read back exactly if the reader knows what is in front of
the type of every field. -/
theorem format_readsBack_iff (system name : String) (file : FormatFile) :
    ReadsBack system name file ↔ ∀ field ∈ file.fields, field.Known := by
  have hcontent := eventFromFormat_content system name file
  constructor
  · rintro ⟨event, hevent, -, -, hfields, -⟩ field hfield
    rw [hcontent] at hevent
    cases hevent
    exact field.parsed_eq_iff.mp (List.map_inj_left.mp hfields field hfield)
  · intro hknown
    have hfields : file.fields.map KernelField.parsed = file.fields.map KernelField.described :=
      List.map_inj_left.mpr fun field hfield => field.parsed_eq_iff.mpr (hknown field hfield)
    refine ⟨_, hcontent, rfl, rfl, hfields, fun i field record hi => ?_⟩
    have hget : (file.fields.map KernelField.parsed)[i]? = some field.described := by
      rw [hfields, List.getElem?_map, hi, Option.map_some]
    unfold EventFormat.getDataAt EventFormat.getDataWithOffset
    rw [hget]
    exact field.data_eq record

/-- A file with one field: the name of a file, in the dynamic data. -/
def execFile : FormatFile where
  front := []
  id := 314
  between := []
  lines := [.entry {
    marker := some .dataLoc
    type := ⟨⟨"char[]".toList, by decide, by decide⟩, []⟩
    name := ⟨"filename".toList, by decide, by decide⟩
    offset := 8
    size := 4
    name_ok := by decide
    bound_ok := by simp
    unmarked := by simp
    fits := by decide }]
  id_lt := by decide

/-- The data of a field with `__data_loc` are not found. -/
theorem not_readsBack_dataLoc :
    ¬ ∀ (system name : String) (file : FormatFile), ReadsBack system name file := by
  intro h
  obtain ⟨event, hevent, -, -, hfields, -⟩ := h "sched" "sched_process_exec" execFile
  rw [eventFromFormat_content] at hevent
  cases hevent
  exact absurd hfields (by decide)

end OneCollect.TraceFS
