import OneCollect.Theory.Text
import OneCollect.Theory.Utf16

/-! Values in JSON. A text in quotation marks is read as its code units, with an escape for each
unit that may be written so; a number as its digits and the power of ten that they are shifted by.
A text is read back from the characters themselves where none of them is a quotation mark, a
backslash or a control (`readUnits_plain`), and from no others, as long as no text ends where it
is followed by (`plain_of_readUnits`). -/

namespace OneCollect.Theory

inductive Json where
  | null
  | bool (value : Bool)
  | number (digits : Int) (shift : Int)
  | string (units : List Nat)
  | array (items : List Json)
  | object (members : List (List Nat × Json))

namespace Json

/-! ## Texts -/

/-- Where the reader of a text is: in it, behind a backslash, or in the digits of a unit. -/
inductive Mode where
  | plain
  | escape
  | hex (left value : Nat)
  deriving DecidableEq

/-- The escapes of one character. -/
def escapeUnit (c : Char) : Option Nat :=
  if c = '"' then some 0x22
  else if c = '\\' then some 0x5C
  else if c = '/' then some 0x2F
  else if c = 'b' then some 8
  else if c = 'f' then some 0xC
  else if c = 'n' then some 0xA
  else if c = 'r' then some 0xD
  else if c = 't' then some 9
  else none

/-- The units up to the closing quotation mark, and what follows it. -/
def readUnits : Mode → List Char → Option (List Nat × List Char)
  | _, [] => none
  | .plain, c :: rest =>
    if c = '"' then some ([], rest)
    else if c = '\\' then readUnits .escape rest
    else if c.toNat < 0x20 then none
    else (readUnits .plain rest).map fun (units, rest) => (encodeUtf16 c ++ units, rest)
  | .escape, c :: rest =>
    if c = 'u' then readUnits (.hex 4 0) rest
    else match escapeUnit c with
      | none => none
      | some unit => (readUnits .plain rest).map fun (units, rest) => (unit :: units, rest)
  | .hex left value, c :: rest =>
    match hexDigit c with
    | none => none
    | some digit =>
      if left ≤ 1 then
        (readUnits .plain rest).map fun (units, rest) => ((16 * value + digit) :: units, rest)
      else readUnits (.hex (left - 1) (16 * value + digit)) rest

/-- The units of a text. -/
def units (text : List Char) : List Nat := text.flatMap encodeUtf16

/-- A character that stands for itself. -/
def IsPlain (c : Char) : Prop := c ≠ '"' ∧ c ≠ '\\' ∧ 0x20 ≤ c.toNat

instance (c : Char) : Decidable (IsPlain c) := inferInstanceAs (Decidable (_ ∧ _ ∧ _))

theorem readUnits_plain {text : List Char} (h : ∀ c ∈ text, IsPlain c) (rest : List Char) :
    readUnits .plain (text ++ '"' :: rest) = some (units text, rest) := by
  induction text with
  | nil => rfl
  | cons c text ih =>
    obtain ⟨⟨hquote, hslash, hcontrol⟩, h⟩ := List.forall_mem_cons.mp h
    rw [List.cons_append, readUnits, if_neg hquote, if_neg hslash, if_neg (Nat.not_lt.mpr hcontrol),
      ih h]
    rfl

theorem length_encodeUtf16_pos (c : Char) : 1 ≤ (encodeUtf16 c).length :=
  List.length_pos_iff.mpr (encodeUtf16_ne_nil c)

theorem units_cons (c : Char) (text : List Char) :
    units (c :: text) = encodeUtf16 c ++ units text := List.flatMap_cons

/-- What is read has as many units as the text at most, unless the text ends in the backslash of
an escape, and what is read behind that is read from what follows. -/
theorem length_readUnits_le (mode : Mode) (text tail : List Char) {read : List Nat}
    {rest : List Char} (h : readUnits mode (text ++ '"' :: tail) = some (read, rest)) :
    read.length ≤ (units text).length ∨
      ∃ front back, read = front ++ 0x22 :: back ∧ readUnits .plain tail = some (back, rest) ∧
        (text.getLast? = some '\\' ∨ text = [] ∧ mode = .escape) := by
  induction text generalizing mode read with
  | nil =>
    cases mode with
    | plain =>
      left
      cases h
      exact le_refl _
    | escape =>
      right
      have htail : (readUnits .plain tail).map (fun (units, rest) => (0x22 :: units, rest)) =
          some (read, rest) := h
      obtain ⟨⟨back, rest'⟩, hback, heq⟩ := Option.map_eq_some_iff.mp htail
      cases heq
      exact ⟨[], back, rfl, hback, .inr ⟨rfl, rfl⟩⟩
    | hex left value => exact absurd h.symm (Option.some_ne_none _)
  | cons c text ih =>
    have hlast : text ≠ [] → (c :: text).getLast? = text.getLast? := by
      intro hne
      obtain ⟨d, text, rfl⟩ := List.exists_cons_of_ne_nil hne
      exact List.getLast?_cons_cons
    have hend : ∀ mode', (text.getLast? = some '\\' ∨ text = [] ∧ mode' = Mode.escape) →
        (mode' = .escape → c = '\\') → (c :: text).getLast? = some '\\' := by
      rintro mode' (htext | ⟨rfl, hmode'⟩) hslash
      · rw [hlast (by rintro rfl; simp at htext), htext]
      · rw [hslash hmode']
        rfl
    have hunits : (units (c :: text)).length = (encodeUtf16 c).length + (units text).length := by
      rw [units_cons, List.length_append]
    have hpos := length_encodeUtf16_pos c
    -- a unit more than the rest of the text, which is read from the start of a character
    have hmore : ∀ (front : List Nat), front.length ≤ (encodeUtf16 c).length →
        (readUnits .plain (text ++ '"' :: tail)).map (fun (units, rest) => (front ++ units, rest)) =
          some (read, rest) →
        read.length ≤ (units (c :: text)).length ∨
          ∃ before back, read = before ++ 0x22 :: back ∧
            readUnits .plain tail = some (back, rest) ∧
            ((c :: text).getLast? = some '\\' ∨ c :: text = [] ∧ mode = .escape) := by
      intro front hfront hread
      obtain ⟨⟨read', rest'⟩, hread', heq⟩ := Option.map_eq_some_iff.mp hread
      cases heq
      rcases ih .plain hread' with hle | ⟨before, back, rfl, hback, hlast'⟩
      · left
        rw [hunits, List.length_append]
        omega
      · exact .inr ⟨front ++ before, back, (List.append_assoc ..).symm, hback,
          .inl (hend .plain hlast' (by simp))⟩
    cases mode with
    | plain =>
      rw [List.cons_append, readUnits] at h
      split_ifs at h with hquote hslash hcontrol
      · cases h
        exact .inl (Nat.zero_le _)
      · rcases ih .escape h with hle | ⟨before, back, hread, hback, hlast'⟩
        · exact .inl (by omega)
        · exact .inr ⟨before, back, hread, hback, .inl (hend .escape hlast' fun _ => hslash)⟩
      · exact hmore _ (le_refl _) h
    | escape =>
      rw [List.cons_append, readUnits] at h
      split_ifs at h with hu
      · rcases ih _ h with hle | ⟨before, back, hread, hback, hlast'⟩
        · exact .inl (by omega)
        · exact .inr ⟨before, back, hread, hback, .inl (hend _ hlast' (by simp))⟩
      · cases hunit : escapeUnit c with
        | none =>
          rw [hunit] at h
          cases h
        | some unit =>
          rw [hunit] at h
          exact hmore [unit] hpos h
    | hex left value =>
      rw [List.cons_append, readUnits] at h
      cases hdigit : hexDigit c with
      | none =>
        rw [hdigit] at h
        cases h
      | some digit =>
        rw [hdigit] at h
        dsimp only at h
        split_ifs at h with hlast'
        · exact hmore [_] hpos h
        · rcases ih _ h with hle | ⟨before, back, hread, hback, hlast'⟩
          · exact .inl (by omega)
          · exact .inr ⟨before, back, hread, hback, .inl (hend _ hlast' (by simp))⟩

theorem getLast?_units {text : List Char} (h : text.getLast? = some '\\') :
    (units text).getLast? = some 0x5C := by
  obtain ⟨front, rfl⟩ := List.getLast?_eq_some_iff.mp h
  rw [units, List.flatMap_append]
  exact List.getLast?_concat

/-- **Texts are read back from no other characters.** What follows the text must not be read as
the end of a text that ends in a backslash. -/
theorem plain_of_readUnits {text tail rest : List Char}
    (h : readUnits .plain (text ++ '"' :: tail) = some (units text, rest))
    (htail : ∀ back rest, readUnits .plain tail = some (back, rest) →
      ∃ unit ≠ 0x5C, back.getLast? = some unit) : ∀ c ∈ text, IsPlain c := by
  induction text with
  | nil => exact fun c hc => absurd hc List.not_mem_nil
  | cons c text ih =>
    rw [List.cons_append, readUnits] at h
    split_ifs at h with hquote hslash hcontrol
    · have hnil : [] = encodeUtf16 c ++ units text :=
        congrArg Prod.fst (Option.some.inj h)
      exact absurd (List.append_eq_nil_iff.mp hnil.symm).1 (encodeUtf16_ne_nil c)
    · exfalso
      have hpos := length_encodeUtf16_pos c
      rcases length_readUnits_le .escape text tail h with hle | ⟨front, back, hread, hback, hlast⟩
      · rw [units_cons, List.length_append] at hle
        omega
      · obtain ⟨unit, hunit, hbackLast⟩ := htail back rest hback
        have htextLast : (c :: text).getLast? = some '\\' := by
          rcases hlast with hlast | ⟨rfl, -⟩
          · obtain ⟨before, rfl⟩ := List.getLast?_eq_some_iff.mp hlast
            exact List.getLast?_concat (l := c :: before)
          · rw [hslash]
            rfl
        have hlastUnit := getLast?_units htextLast
        rw [hread, List.getLast?_append, List.getLast?_cons, hbackLast] at hlastUnit
        exact hunit (Option.some.inj hlastUnit)
    · obtain ⟨⟨read, rest'⟩, hread, heq⟩ := Option.map_eq_some_iff.mp h
      obtain ⟨hunits, rfl⟩ := Prod.mk.inj heq
      rw [List.append_cancel_left hunits] at hread
      exact List.forall_mem_cons.mpr ⟨⟨hquote, hslash, Nat.not_lt.mp hcontrol⟩, ih hread⟩

/-! ## Numbers -/

/-- The value of a row of digits. -/
def digitsValue (digits : List Char) : Nat :=
  digits.foldl (fun n c => 10 * n + (c.toNat - '0'.toNat)) 0

def isDigit (c : Char) : Bool := '0' ≤ c && c ≤ '9'

/-- Digits without a zero in front. -/
def readInteger (text : List Char) : Option (List Char × List Char) :=
  match text.span isDigit with
  | ([], _) => none
  | (['0'], rest) => some (['0'], rest)
  | ('0' :: _, _) => none
  | (digits, rest) => some (digits, rest)

def readFraction : List Char → Option (List Char × List Char)
  | '.' :: text =>
    match text.span isDigit with
    | ([], _) => none
    | (digits, rest) => some (digits, rest)
  | text => some ([], text)

def readExponent : List Char → Option (Int × List Char)
  | c :: text =>
    if c = 'e' ∨ c = 'E' then
      let (negative, text) := match text with
        | '-' :: text => (true, text)
        | '+' :: text => (false, text)
        | text => (false, text)
      match text.span isDigit with
      | ([], _) => none
      | (digits, rest) =>
        some (if negative then -(digitsValue digits : Int) else digitsValue digits, rest)
    else some (0, c :: text)
  | [] => some (0, [])

def readNumber (text : List Char) : Option (Json × List Char) := do
  let (negative, text) := match text with
    | '-' :: text => (true, text)
    | text => (false, text)
  let (integer, text) ← readInteger text
  let (fraction, text) ← readFraction text
  let (exponent, text) ← readExponent text
  let digits := digitsValue (integer ++ fraction)
  some (.number (if negative then -(digits : Int) else digits) (exponent - fraction.length), text)

/-! ## Values -/

def isBlank (c : Char) : Bool := c = ' ' || c = '\t' || c = '\n' || c = '\r'

def skipBlanks (text : List Char) : List Char := text.dropWhile isBlank

/-- A text and a colon. -/
def readKey : List Char → Option (List Nat × List Char)
  | [] => none
  | c :: text =>
    if c = '"' then do
      let (key, text) ← readUnits .plain text
      match skipBlanks text with
      | [] => none
      | c :: text => if c = ':' then some (key, text) else none
    else none

/-- A value with a name. -/
def readName (name : List Char) (value : Json) (text : List Char) : Option (Json × List Char) :=
  if name <+: text then some (value, text.drop name.length) else none

mutual

/-- A value in front of a text; objects and arrays are in each other for so many levels and
members. -/
def readValue : Nat → List Char → Option (Json × List Char)
  | 0, _ => none
  | fuel + 1, text =>
    match skipBlanks text with
    | [] => none
    | c :: rest =>
      if c = '"' then (readUnits .plain rest).map fun (units, rest) => (.string units, rest)
      else if c = '{' then readObject fuel (skipBlanks rest)
      else if c = '[' then readArray fuel (skipBlanks rest)
      else if c = 'n' then readName ['n', 'u', 'l', 'l'] .null (c :: rest)
      else if c = 't' then readName ['t', 'r', 'u', 'e'] (.bool true) (c :: rest)
      else if c = 'f' then readName ['f', 'a', 'l', 's', 'e'] (.bool false) (c :: rest)
      else readNumber (c :: rest)

def readArray : Nat → List Char → Option (Json × List Char)
  | 0, _ => none
  | fuel + 1, text =>
    if text.head? = some ']' then some (.array [], text.tail)
    else (readItems fuel text).map fun (items, rest) => (.array items, rest)

def readItems : Nat → List Char → Option (List Json × List Char)
  | 0, _ => none
  | fuel + 1, text => do
    let (item, text) ← readValue fuel text
    match skipBlanks text with
    | [] => none
    | c :: text =>
      if c = ',' then
        let (items, text) ← readItems fuel text
        some (item :: items, text)
      else if c = ']' then some ([item], text)
      else none

def readObject : Nat → List Char → Option (Json × List Char)
  | 0, _ => none
  | fuel + 1, text =>
    if text.head? = some '}' then some (.object [], text.tail)
    else (readMembers fuel text).map fun (members, rest) => (.object members, rest)

def readMembers : Nat → List Char → Option (List (List Nat × Json) × List Char)
  | 0, _ => none
  | fuel + 1, text => do
    let (key, text) ← readKey (skipBlanks text)
    let (value, text) ← readValue fuel text
    match skipBlanks text with
    | [] => none
    | c :: text =>
      if c = ',' then
        let (members, text) ← readMembers fuel text
        some ((key, value) :: members, text)
      else if c = '}' then some ([(key, value)], text)
      else none

end

/-- The value that all of the text is. -/
def parse (text : List Char) : Option Json :=
  match readValue (2 * text.length + 1) text with
  | some (value, rest) => if (skipBlanks rest).isEmpty then some value else none
  | none => none

/-! ## Printed numbers -/

theorem isDigit_toDecimal {n : Nat} {c : Char} (h : c ∈ toDecimal n) : isDigit c = true := by
  have hdigits : ∀ d < 10, isDigit d.digitChar = true := by decide
  obtain ⟨d, hd, rfl⟩ := mem_toDigits (by decide) h
  exact hdigits d hd

/-- Only zero has a zero in front. -/
theorem head?_toDecimal {n : Nat} (h : 0 < n) : (toDecimal n).head? ≠ some '0' := by
  have hdigits : ∀ d < 10, 0 < d → d.digitChar ≠ '0' := by decide
  unfold toDecimal
  induction n using Nat.strongRecOn with
  | ind n ih =>
    rw [Nat.toDigits_eq_if (by decide)]
    split
    · rename_i hlt
      exact fun hhead => hdigits n hlt h (Option.some.inj hhead)
    · rename_i hle
      rw [List.head?_append_of_ne_nil _ Nat.toDigits_ne_nil]
      exact ih (n / 10) (by omega) (by omega)

theorem digitsValue_toDecimal (n : Nat) : digitsValue (toDecimal n) = n := by
  have hdigits : ∀ d < 10, d.digitChar.toNat - '0'.toNat = d := by decide
  unfold toDecimal
  induction n using Nat.strongRecOn with
  | ind n ih =>
    rw [Nat.toDigits_eq_if (by decide)]
    split
    · rename_i hlt
      exact (Nat.zero_add _).trans (hdigits n hlt)
    · rename_i hle
      have hhigh := ih (n / 10) (by omega)
      have hlow := hdigits (n % 10) (by omega)
      unfold digitsValue at hhigh ⊢
      rw [List.foldl_concat, hhigh, hlow]
      omega

theorem span_toDecimal (n : Nat) {c : Char} (hc : isDigit c = false) (rest : List Char) :
    (toDecimal n ++ c :: rest).span isDigit = (toDecimal n, c :: rest) := by
  have hall : ∀ d ∈ toDecimal n, isDigit d = true := fun d hd => isDigit_toDecimal hd
  rw [List.span_eq_takeWhile_dropWhile, List.takeWhile_append_of_pos hall,
    List.dropWhile_append_of_pos hall, List.takeWhile_cons_of_neg (by simp [hc]),
    List.dropWhile_cons_of_neg (by simp [hc]), List.append_nil]

theorem readInteger_toDecimal (n : Nat) {c : Char} (hc : isDigit c = false) (rest : List Char) :
    readInteger (toDecimal n ++ c :: rest) = some (toDecimal n, c :: rest) := by
  rw [readInteger, span_toDecimal n hc]
  rcases Nat.eq_zero_or_pos n with rfl | hpos
  · rfl
  · obtain ⟨d, digits, hdigits⟩ := List.exists_cons_of_ne_nil (toDecimal_ne_nil n)
    have hd : d ≠ '0' := by
      have hhead := head?_toDecimal hpos
      rw [hdigits] at hhead
      exact fun hzero => hhead (congrArg some hzero)
    rw [hdigits]
    split
    · simp_all
    · simp_all
    · simp_all
    · simp_all

/-- What may follow a number. -/
def Follows (c : Char) : Prop := isDigit c = false ∧ c ≠ '.' ∧ c ≠ 'e' ∧ c ≠ 'E'

theorem readNumber_toDecimal (n : Nat) {c : Char} (hc : Follows c) (rest : List Char) :
    readNumber (toDecimal n ++ c :: rest) = some (.number n 0, c :: rest) := by
  obtain ⟨hdigit, hdot, he, hE⟩ := hc
  have hsign : ∀ text, (toDecimal n ++ c :: rest) = '-' :: text → False := by
    intro text htext
    obtain ⟨d, digits, hdigits⟩ := List.exists_cons_of_ne_nil (toDecimal_ne_nil n)
    rw [hdigits] at htext
    have hd : d ∈ toDecimal n := hdigits ▸ List.mem_cons_self
    have hminus := isDigit_toDecimal hd
    rw [(List.cons.inj htext).1] at hminus
    exact absurd hminus (by decide)
  have hfraction : readFraction (c :: rest) = some ([], c :: rest) := by
    rw [readFraction]
    rintro text htext
    exact hdot (List.cons.inj htext).1
  have hexponent : readExponent (c :: rest) = some (0, c :: rest) :=
    if_neg (not_or.mpr ⟨he, hE⟩)
  unfold readNumber
  split
  rename_i negative text hmatch
  split at hmatch
  · rename_i text' htext
    exact absurd (hsign text' htext) id
  · cases hmatch
    rw [readInteger_toDecimal n hdigit]
    simp [hfraction, hexponent, digitsValue_toDecimal]

/-! ## Printed objects

Members with a text or a number each. Texts are printed as they are. -/

inductive Field where
  | text (chars : List Char)
  | number (n : Nat)

namespace Field

def print : Field → List Char
  | text chars => '"' :: (chars ++ ['"'])
  | number n => toDecimal n

def json : Field → Json
  | text chars => .string (units chars)
  | number n => .number n 0

/-- A text of characters that stand for themselves, or a number. -/
def Plain : Field → Prop
  | text chars => ∀ c ∈ chars, IsPlain c
  | number _ => True

end Field

abbrev Member := List Char × Field

namespace Member

def print (member : Member) : List Char :=
  '"' :: (member.1 ++ '"' :: ':' :: ' ' :: member.2.print)

def json (member : Member) : List Nat × Json := (units member.1, member.2.json)

end Member

/-- The members, separated by commas. -/
def join : List Member → List Char
  | [] => []
  | [member] => member.print
  | member :: members => member.print ++ ',' :: join members

def printObject (members : List Member) : List Char := '{' :: (join members ++ ['}'])

theorem skipBlanks_cons {c : Char} (h : isBlank c = false) (rest : List Char) :
    skipBlanks (c :: rest) = c :: rest := List.dropWhile_cons_of_neg (by simp [h])

/-- The value of a member is read up to its end. -/
theorem readValue_field {field : Field} (h : field.Plain) (fuel : Nat) {c : Char} (hc : Follows c)
    (rest : List Char) :
    readValue (fuel + 1) (' ' :: (field.print ++ c :: rest)) = some (field.json, c :: rest) := by
  cases field with
  | text chars =>
    have hread := readUnits_plain h (c :: rest)
    have hprint : (Field.text chars).print ++ c :: rest = '"' :: (chars ++ '"' :: c :: rest) := by
      rw [Field.print, List.cons_append, List.append_assoc]
      rfl
    have hskip : skipBlanks (' ' :: '"' :: (chars ++ '"' :: c :: rest)) =
        '"' :: (chars ++ '"' :: c :: rest) := rfl
    rw [hprint, readValue, hskip]
    dsimp only
    rw [if_pos rfl, hread]
    rfl
  | number n =>
    have hnot : ∀ k < 10, isBlank k.digitChar = false ∧ k.digitChar ≠ '"' ∧ k.digitChar ≠ '{' ∧
        k.digitChar ≠ '[' ∧ k.digitChar ≠ 'n' ∧ k.digitChar ≠ 't' ∧ k.digitChar ≠ 'f' := by decide
    obtain ⟨d, digits, hdigits⟩ := List.exists_cons_of_ne_nil (toDecimal_ne_nil n)
    have hd : d ∈ toDecimal n := hdigits ▸ List.mem_cons_self
    obtain ⟨k, hk, rfl⟩ := mem_toDigits (by decide) hd
    obtain ⟨hblank, hquote, hbrace, hbracket, hn, ht, hf⟩ := hnot k hk
    have hread := readNumber_toDecimal n hc rest
    have hskip : skipBlanks (' ' :: (toDecimal n ++ c :: rest)) = toDecimal n ++ c :: rest := by
      rw [hdigits]
      exact skipBlanks_cons hblank _
    rw [Field.print, readValue, hskip]
    rw [hdigits, List.cons_append] at hread ⊢
    dsimp only
    rw [if_neg hquote, if_neg hbrace, if_neg hbracket, if_neg hn, if_neg ht, if_neg hf, hread]
    rfl

theorem print_append (member : Member) (rest : List Char) :
    member.print ++ rest =
      '"' :: (member.1 ++ '"' :: ':' :: ' ' :: (member.2.print ++ rest)) := by
  rw [Member.print, List.cons_append, List.append_assoc]
  rfl

theorem readKey_plain {key : List Char} (h : ∀ c ∈ key, IsPlain c) (rest : List Char) :
    readKey ('"' :: (key ++ '"' :: ':' :: rest)) = some (units key, rest) := by
  have hskip : skipBlanks (':' :: rest) = ':' :: rest := skipBlanks_cons (by decide) rest
  rw [readKey, if_pos rfl, readUnits_plain h]
  simp [hskip]

/-- The key of a member is read, and then its value. -/
theorem readMembers_member {member : Member} (hkey : ∀ c ∈ member.1, IsPlain c) (fuel : Nat)
    (rest : List Char) :
    readMembers (fuel + 1) (member.print ++ rest) = (do
      let (value, text) ← readValue fuel (' ' :: (member.2.print ++ rest))
      match skipBlanks text with
      | [] => none
      | c :: text =>
        if c = ',' then
          let (members, text) ← readMembers fuel text
          some ((units member.1, value) :: members, text)
        else if c = '}' then some ([(units member.1, value)], text)
        else none) := by
  rw [print_append, readMembers, skipBlanks_cons (by decide), readKey_plain hkey]
  rfl

theorem follows_comma : Follows ',' := by unfold Follows; decide

theorem follows_brace : Follows '}' := by unfold Follows; decide

section Members

variable {member : Member} {fuel : Nat} {rest : List Char}

theorem readMembers_cons (hkey : ∀ c ∈ member.1, IsPlain c) (h : member.2.Plain) :
    readMembers (fuel + 2) (member.print ++ ',' :: rest) =
      (readMembers (fuel + 1) rest).map fun (members, rest) => (member.json :: members, rest) := by
  have hskip : skipBlanks (',' :: rest) = ',' :: rest := skipBlanks_cons (by decide) rest
  rw [readMembers_member hkey, readValue_field h fuel follows_comma]
  simp only [Option.bind_eq_bind, Option.bind_some, hskip, ↓reduceIte]
  cases readMembers (fuel + 1) rest <;> rfl

theorem readMembers_last (hkey : ∀ c ∈ member.1, IsPlain c) (h : member.2.Plain) :
    readMembers (fuel + 2) (member.print ++ '}' :: rest) = some ([member.json], rest) := by
  have hskip : skipBlanks ('}' :: rest) = '}' :: rest := skipBlanks_cons (by decide) rest
  rw [readMembers_member hkey, readValue_field h fuel follows_brace]
  simp only [Option.bind_eq_bind, Option.bind_some, hskip, Char.reduceEq, ↓reduceIte]
  rfl

/-- The first member that is read is a key and what is read as its value. -/
theorem readValue_of_readMembers (hkey : ∀ c ∈ member.1, IsPlain c) {value : Json}
    {key : List Nat} {members : List (List Nat × Json)} {text : List Char}
    (h : readMembers (fuel + 1) (member.print ++ rest) = some ((key, value) :: members, text)) :
    ∃ behind, readValue fuel (' ' :: (member.2.print ++ rest)) = some (value, behind) := by
  rw [readMembers_member hkey] at h
  obtain ⟨⟨value', behind⟩, hvalue, h⟩ := Option.bind_eq_some_iff.mp h
  dsimp only at h
  cases hskip : skipBlanks behind with
  | nil =>
    rw [hskip] at h
    cases h
  | cons c behind' =>
    rw [hskip] at h
    dsimp only at h
    split_ifs at h
    · obtain ⟨⟨members', text'⟩, -, h⟩ := Option.bind_eq_some_iff.mp h
      cases h
      exact ⟨behind, hvalue⟩
    · cases h
      exact ⟨behind, hvalue⟩

/-- A field that is read back is one of characters that stand for themselves. -/
theorem plain_of_readValue {field : Field} {tail behind : List Char}
    (htail : ∀ back rest, readUnits .plain tail = some (back, rest) →
      ∃ unit ≠ 0x5C, back.getLast? = some unit)
    (h : readValue fuel (' ' :: (field.print ++ tail)) = some (field.json, behind)) :
    field.Plain := by
  cases field with
  | number n => trivial
  | text chars =>
    cases fuel with
    | zero => exact absurd h (by simp [readValue])
    | succ fuel =>
      have hprint : (Field.text chars).print ++ tail = '"' :: (chars ++ '"' :: tail) := by
        rw [Field.print, List.cons_append, List.append_assoc]
        rfl
      have hskip : skipBlanks (' ' :: '"' :: (chars ++ '"' :: tail)) =
          '"' :: (chars ++ '"' :: tail) := rfl
      rw [hprint, readValue, hskip] at h
      dsimp only at h
      rw [if_pos rfl] at h
      obtain ⟨⟨read, rest⟩, hread, heq⟩ := Option.map_eq_some_iff.mp h
      obtain ⟨hunits, rfl⟩ := Prod.mk.inj heq
      obtain rfl : read = units chars := Json.string.inj hunits
      exact plain_of_readUnits hread htail

end Members

theorem join_cons_cons (member next : Member) (members : List Member) :
    join (member :: next :: members) = member.print ++ ',' :: join (next :: members) := rfl

theorem exists_join (member : Member) (members : List Member) :
    ∃ text, join (member :: members) = '"' :: text := by
  cases members with
  | nil => exact ⟨_, rfl⟩
  | cons next members => exact ⟨_, rfl⟩

theorem length_le_join (members : List Member) : members.length ≤ (join members).length := by
  induction members with
  | nil => exact le_refl _
  | cons member members ih =>
    cases members with
    | nil => exact Nat.succ_le_succ (Nat.zero_le _)
    | cons next members =>
      simp only [join_cons_cons, List.length_append, List.length_cons] at ih ⊢
      omega

theorem join_append_brace (member next : Member) (members : List Member) :
    join (member :: next :: members) ++ ['}'] =
      member.print ++ ',' :: (join (next :: members) ++ ['}']) := by
  rw [join_cons_cons, List.append_assoc, List.cons_append]

theorem readMembers_join {members : List Member} (hne : members ≠ [])
    (hkeys : ∀ member ∈ members, ∀ c ∈ member.1, IsPlain c)
    (h : ∀ member ∈ members, member.2.Plain) (fuel : Nat) (hfuel : members.length + 1 ≤ fuel) :
    readMembers fuel (join members ++ ['}']) = some (members.map Member.json, []) := by
  induction members generalizing fuel with
  | nil => exact absurd rfl hne
  | cons member members ih =>
    obtain ⟨hkey, hkeys⟩ := List.forall_mem_cons.mp hkeys
    obtain ⟨hplain, h⟩ := List.forall_mem_cons.mp h
    rw [List.length_cons] at hfuel
    obtain ⟨fuel, rfl⟩ : ∃ less, fuel = less + 2 := ⟨fuel - 2, by omega⟩
    cases members with
    | nil => exact readMembers_last hkey hplain
    | cons next members =>
      rw [join_append_brace, readMembers_cons hkey hplain,
        ih (List.cons_ne_nil _ _) hkeys h (fuel + 1) (by omega)]
      rfl

/-- Members that are read back have plain texts. -/
theorem plain_of_readMembers_join {members : List Member} (hne : members ≠ [])
    (hkeys : ∀ member ∈ members, ∀ c ∈ member.1, IsPlain c) (fuel : Nat)
    (hfuel : members.length + 1 ≤ fuel) {rest : List Char}
    (h : readMembers fuel (join members ++ ['}']) = some (members.map Member.json, rest)) :
    ∀ member ∈ members, member.2.Plain := by
  induction members generalizing fuel with
  | nil => exact absurd rfl hne
  | cons member members ih =>
    obtain ⟨hkey, hkeys⟩ := List.forall_mem_cons.mp hkeys
    rw [List.length_cons] at hfuel
    obtain ⟨fuel, rfl⟩ : ∃ less, fuel = less + 2 := ⟨fuel - 2, by omega⟩
    cases members with
    | nil =>
      obtain ⟨behind, hvalue⟩ := readValue_of_readMembers hkey h
      -- the text is not ended behind the object
      refine List.forall_mem_singleton.mpr (plain_of_readValue (fun back rest hback => ?_) hvalue)
      exact absurd hback.symm (Option.some_ne_none _)
    | cons next members =>
      rw [join_append_brace] at h
      obtain ⟨behind, hvalue⟩ := readValue_of_readMembers hkey h
      have hplain : member.2.Plain := by
        refine plain_of_readValue (fun back rest hback => ?_) hvalue
        -- the next key ends a text that goes on behind the comma
        obtain ⟨text, htext⟩ := exists_join next members
        rw [htext] at hback
        cases hback
        exact ⟨0x2C, by decide, rfl⟩
      rw [readMembers_cons hkey hplain] at h
      obtain ⟨⟨members', text'⟩, hmembers, heq⟩ := Option.map_eq_some_iff.mp h
      cases heq
      exact List.forall_mem_cons.mpr
        ⟨hplain, ih (List.cons_ne_nil _ _) hkeys (fuel + 1) (by omega) hmembers⟩

/-- **Printed objects.** An object is read back exactly when its texts are of characters that stand
for themselves. -/
theorem parse_printObject_iff {members : List Member}
    (hkeys : ∀ member ∈ members, ∀ c ∈ member.1, IsPlain c) :
    parse (printObject members) = some (.object (members.map Member.json)) ↔
      ∀ member ∈ members, member.2.Plain := by
  cases members with
  | nil => exact iff_of_true rfl fun _ h => absurd h List.not_mem_nil
  | cons member members =>
    obtain ⟨text, htext⟩ := exists_join member members
    have hlength := length_le_join (member :: members)
    obtain ⟨fuel, hfuel, hle⟩ : ∃ fuel, 2 * (printObject (member :: members)).length = fuel + 1 ∧
        (member :: members).length + 1 ≤ fuel := by
      refine ⟨2 * (printObject (member :: members)).length - 1, ?_, ?_⟩ <;>
      · simp only [printObject, List.length_cons, List.length_append] at hlength ⊢
        omega
    have hread : readValue (fuel + 2) (printObject (member :: members)) =
        (readMembers fuel (join (member :: members) ++ ['}'])).map
          fun (members, rest) => (.object members, rest) := by
      have hskip : skipBlanks (join (member :: members) ++ ['}']) =
          join (member :: members) ++ ['}'] := by
        rw [htext]
        exact skipBlanks_cons (by decide) _
      have hhead : (join (member :: members) ++ ['}']).head? ≠ some '}' := by
        rw [htext]
        exact fun h => absurd (Option.some.inj h) (by decide)
      rw [printObject, readValue, skipBlanks_cons (by decide)]
      dsimp only
      rw [if_neg (by decide), if_pos rfl, hskip, readObject, if_neg hhead]
    rw [parse, hfuel, hread]
    constructor
    · intro h
      cases hmembers : readMembers fuel (join (member :: members) ++ ['}']) with
      | none =>
        rw [hmembers] at h
        cases h
      | some result =>
        obtain ⟨read, rest⟩ := result
        rw [hmembers] at h
        have hobject : read = (member :: members).map Member.json := by
          simp only [Option.map_some] at h
          split_ifs at h
          exact Json.object.inj (Option.some.inj h)
        rw [hobject] at hmembers
        exact plain_of_readMembers_join (List.cons_ne_nil _ _) hkeys fuel hle hmembers
    · intro h
      rw [readMembers_join (List.cons_ne_nil _ _) hkeys h fuel hle]
      rfl

end Json

end OneCollect.Theory
