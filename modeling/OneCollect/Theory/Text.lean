import Mathlib.Data.List.SplitBy
import Mathlib.Data.List.TakeDrop
import Mathlib.Data.List.TakeWhile
import Mathlib.Algebra.Group.Nat.Defs

/-! Texts as lists of characters: cutting at a separator, trimming, the words between blanks,
and numbers in digits, read and printed. -/

namespace OneCollect.Theory

/-- A property of all the characters of a text is decided on the text, not on all characters. -/
instance decidableAllChars (text : List Char) (P : Char → Prop) [DecidablePred P] :
    Decidable (∀ c ∈ text, P c) :=
  List.decidableBAll P text

/-- `to_digit(16)`. -/
def hexDigit (c : Char) : Option Nat :=
  if '0' ≤ c ∧ c ≤ '9' then some (c.toNat - '0'.toNat)
  else if 'a' ≤ c ∧ c ≤ 'f' then some (c.toNat - 'a'.toNat + 10)
  else if 'A' ≤ c ∧ c ≤ 'F' then some (c.toNat - 'A'.toNat + 10)
  else none

/-- `from_str_radix(text, 16)` of an unsigned word, which takes a plus sign. -/
def fromHex (bits : Nat) (text : List Char) : Option Nat :=
  let digits := match text with
    | '+' :: digits => digits
    | digits => digits
  if digits = [] then none
  else
    (digits.foldlM (fun n c => (hexDigit c).map (16 * n + ·)) 0).filter (· < 2 ^ bits)

theorem fromHex_lt {bits n : Nat} {text : List Char} (h : fromHex bits text = some n) :
    n < 2 ^ bits := by
  unfold fromHex at h
  dsimp only at h
  split_ifs at h
  all_goals exact of_decide_eq_true (Option.filter_eq_some_iff.mp h).2

/-- `to_digit(10)`. -/
def decimalDigit (c : Char) : Option Nat :=
  if '0' ≤ c ∧ c ≤ '9' then some (c.toNat - '0'.toNat) else none

/-- `from_str` of an unsigned word. -/
def fromDecimal (bits : Nat) (text : List Char) : Option Nat :=
  let digits := match text with
    | '+' :: digits => digits
    | digits => digits
  if digits = [] then none
  else
    (digits.foldlM (fun n c => (decimalDigit c).map (10 * n + ·)) 0).filter (· < 2 ^ bits)

/-- The text up to the separator, and what follows it if there is one. -/
def cutAt (separator : Char) (text : List Char) : List Char × Option (List Char) :=
  match text.span (· ≠ separator) with
  | (part, []) => (part, none)
  | (part, _ :: rest) => (part, some rest)

theorem cutAt_append {c : Char} {text : List Char} (h : c ∉ text) (rest : List Char) :
    cutAt c (text ++ c :: rest) = (text, some rest) := by
  have hall : ∀ d ∈ text, decide (d ≠ c) = true := fun d hd =>
    decide_eq_true fun heq => h (heq ▸ hd)
  have hstop : (c :: rest).takeWhile (fun d => decide (d ≠ c)) = [] :=
    List.takeWhile_cons_of_neg (by simp)
  have hdrop : (c :: rest).dropWhile (fun d => decide (d ≠ c)) = c :: rest :=
    List.dropWhile_cons_of_neg (by simp)
  unfold cutAt
  rw [List.span_eq_takeWhile_dropWhile, List.takeWhile_append_of_pos hall,
    List.dropWhile_append_of_pos hall, hstop, hdrop, List.append_nil]

theorem cutAt_eq {c : Char} (text : List Char) :
    (∃ part rest, cutAt c text = (part, some rest) ∧ text = part ++ c :: rest ∧ c ∉ part) ∨
      cutAt c text = (text, none) ∧ c ∉ text := by
  by_cases hmem : c ∈ text
  · obtain ⟨part, rest, rfl, hpart⟩ := List.eq_append_cons_of_mem hmem
    exact .inl ⟨part, rest, cutAt_append hpart rest, rfl, hpart⟩
  · have hall : ∀ d ∈ text, decide (d ≠ c) = true := fun d hd =>
      decide_eq_true fun heq => hmem (heq ▸ hd)
    refine .inr ⟨?_, hmem⟩
    unfold cutAt
    rw [List.span_eq_takeWhile_dropWhile, List.takeWhile_eq_self_iff.mpr hall,
      List.dropWhile_eq_nil_iff.mpr hall]

theorem cutAt_of_not_mem {c : Char} {text : List Char} (h : c ∉ text) :
    cutAt c text = (text, none) := by
  obtain ⟨part, rest, -, rfl, -⟩ | ⟨hcut, -⟩ := cutAt_eq (c := c) text
  · exact absurd List.mem_append_cons_self h
  · exact hcut

/-- The text up to the last `c`, and from there on, if there is one. -/
def splitAtLast (c : Char) (text : List Char) : Option (List Char × List Char) :=
  match text.reverse.span (· ≠ c) with
  | (_, []) => none
  | (back, mark :: front) => some (front.reverse, mark :: back.reverse)

theorem splitAtLast_append {c : Char} {back : List Char} (h : c ∉ back) (front : List Char) :
    splitAtLast c (front ++ c :: back) = some (front, c :: back) := by
  have hall : ∀ d ∈ back.reverse, decide (d ≠ c) = true := fun d hd =>
    decide_eq_true fun heq => h (heq ▸ List.mem_reverse.mp hd)
  have hstop : (c :: front.reverse).takeWhile (fun d => decide (d ≠ c)) = [] :=
    List.takeWhile_cons_of_neg (by simp)
  have hdrop : (c :: front.reverse).dropWhile (fun d => decide (d ≠ c)) = c :: front.reverse :=
    List.dropWhile_cons_of_neg (by simp)
  have hspan : (front ++ c :: back).reverse.span (fun d => decide (d ≠ c)) =
      (back.reverse, c :: front.reverse) := by
    rw [List.reverse_append, List.reverse_cons, List.append_assoc, List.singleton_append,
      List.span_eq_takeWhile_dropWhile, List.takeWhile_append_of_pos hall,
      List.dropWhile_append_of_pos hall, hstop, hdrop, List.append_nil]
  simp only [splitAtLast, hspan, List.reverse_reverse]

/-- `split_at`, by the bytes in UTF-8; `none` where a character would be cut, or there are fewer. -/
def splitAtByte : Nat → List Char → Option (List Char × List Char)
  | 0, text => some ([], text)
  | _ + 1, [] => none
  | n + 1, c :: text =>
    if c.utf8Size ≤ n + 1 then
      (splitAtByte (n + 1 - c.utf8Size) text).map fun (front, back) => (c :: front, back)
    else none

theorem splitAtByte_append {front : List Char} (h : ∀ c ∈ front, c.utf8Size = 1)
    (back : List Char) : splitAtByte front.length (front ++ back) = some (front, back) := by
  induction front with
  | nil => rw [List.length_nil, List.nil_append, splitAtByte]
  | cons c front ih =>
    obtain ⟨hc, hfront⟩ := List.forall_mem_cons.mp h
    rw [List.length_cons, List.cons_append, splitAtByte, hc, if_pos (Nat.le_add_left 1 _),
      Nat.add_sub_cancel, ih hfront]
    rfl

def popIf (c : Char) (text : List Char) : List Char :=
  if text.getLast? = some c then text.dropLast else text

theorem popIf_append {c : Char} {front : List Char} (h : front.getLast? ≠ some c)
    (text : List Char) : popIf c (front ++ text) = front ++ popIf c text := by
  unfold popIf
  by_cases hne : text = []
  · rw [hne, List.append_nil, if_neg h]
    simp
  · rw [List.getLast?_append_of_ne_nil front hne, List.dropLast_append_of_ne_nil hne]
    split <;> rfl

theorem mem_of_mem_popIf {c d : Char} {text : List Char} (h : d ∈ popIf c text) : d ∈ text := by
  unfold popIf at h
  split at h
  · exact (List.dropLast_sublist text).subset h
  · exact h

/-- The property `White_Space` of a character. -/
def isWhiteSpace (c : Char) : Bool :=
  let n := c.toNat
  (0x9 ≤ n && n ≤ 0xd) || n == 0x20 || n == 0x85 || n == 0xa0 || n == 0x1680 ||
    (0x2000 ≤ n && n ≤ 0x200a) || n == 0x2028 || n == 0x2029 || n == 0x202f || n == 0x205f ||
    n == 0x3000

def trim (text : List Char) : List Char :=
  ((text.dropWhile isWhiteSpace).reverse.dropWhile isWhiteSpace).reverse

theorem trim_blank {c : Char} (hc : isWhiteSpace c = true) (text : List Char) :
    trim (c :: text) = trim text := by
  rw [trim, List.dropWhile_cons_of_pos hc, trim]

/-- A text without a blank at its ends. -/
theorem trim_eq_self {text : List Char} (hfirst : ∀ c ∈ text.head?, isWhiteSpace c = false)
    (hlast : ∀ c ∈ text.getLast?, isWhiteSpace c = false) : trim text = text := by
  have hstop : ∀ {text : List Char}, (∀ c ∈ text.head?, isWhiteSpace c = false) →
      text.dropWhile isWhiteSpace = text := by
    intro text h
    cases text with
    | nil => rfl
    | cons c text =>
      have hc := h c rfl
      exact List.dropWhile_cons_of_neg (by simp [hc])
  rw [trim, hstop hfirst, hstop fun c hc => hlast c (List.head?_reverse ▸ hc), List.reverse_reverse]

/-- The words of a text, as `split_whitespace` yields them. -/
def splitWhitespace (text : List Char) : List (List Char) :=
  (text.splitBy fun a b => !isWhiteSpace a && !isWhiteSpace b).filter
    fun word => !word.any isWhiteSpace

example : splitWhitespace " unsigned  int".toList = ["unsigned".toList, "int".toList] := by decide

/-! ## Words -/

theorem splitWhitespace_blank {c : Char} (hc : isWhiteSpace c = true) (rest : List Char) :
    splitWhitespace (c :: rest) = splitWhitespace rest := by
  have hsplit : (c :: rest).splitBy (fun a b => !isWhiteSpace a && !isWhiteSpace b) =
      [c] :: rest.splitBy (fun a b => !isWhiteSpace a && !isWhiteSpace b) := by
    refine List.splitBy_append (l := [c]) ?_
    simp [hc]
  rw [splitWhitespace, hsplit, List.filter_cons_of_neg (by simp [hc])]
  rfl

theorem splitWhitespace_blanks (n : Nat) (rest : List Char) :
    splitWhitespace (List.replicate n ' ' ++ rest) = splitWhitespace rest := by
  induction n with
  | zero => rfl
  | succ n ih =>
    rw [List.replicate_succ, List.cons_append, splitWhitespace_blank (by decide), ih]

section Words

variable {word : List Char}

theorem splitWhitespace_singleton (hne : word ≠ []) (hword : ∀ c ∈ word, isWhiteSpace c = false) :
    splitWhitespace word = [word] := by
  have hchain : word.IsChain fun a b => (!isWhiteSpace a && !isWhiteSpace b) = true := by
    rw [List.isChain_iff_getElem]
    intro i hi
    simp [hword]
  have hnone : word.any isWhiteSpace = false := by
    simpa using hword
  rw [splitWhitespace, List.splitBy_of_isChain hne hchain, List.filter_cons_of_pos (by simp [hnone])]
  rfl

/-- The first word of a text ends at a blank. -/
theorem splitWhitespace_word {c : Char} (hne : word ≠ [])
    (hword : ∀ c ∈ word, isWhiteSpace c = false) (hc : isWhiteSpace c = true) (rest : List Char) :
    splitWhitespace (word ++ c :: rest) = word :: splitWhitespace rest := by
  have hsingle := splitWhitespace_singleton hne hword
  have hrest := splitWhitespace_blank hc rest
  unfold splitWhitespace at hsingle hrest ⊢
  rw [List.splitBy_append_cons rest (by simp [hc]), List.filter_append, hsingle, hrest]
  rfl

end Words

theorem mem_of_mem_splitWhitespace {text word : List Char} (h : word ∈ splitWhitespace text)
    {c : Char} (hc : c ∈ word) : c ∈ text := by
  rw [← List.flatten_splitBy (fun a b => !isWhiteSpace a && !isWhiteSpace b) text]
  exact List.mem_flatten.mpr ⟨word, (List.mem_filter.mp h).1, hc⟩

/-! ## Printed numbers -/

section Digits

variable {base : Nat} {digit : Char → Option Nat}

/-- The digits of a number are read back. -/
theorem foldlM_toDigits (hb : 1 < base) (hdigit : ∀ d < base, digit d.digitChar = some d) (n : Nat) :
    (Nat.toDigits base n).foldlM (fun n c => (digit c).map (base * n + ·)) 0 = some n := by
  induction n using Nat.strongRecOn with
  | ind n ih =>
    rw [Nat.toDigits_eq_if hb]
    split
    · rename_i hlt
      simp [hdigit n hlt]
    · rename_i hle
      have hlt : n / base < n := Nat.div_lt_self (by omega) hb
      have hmod := hdigit (n % base) (Nat.mod_lt n (by omega))
      rw [List.foldlM_append, ih _ hlt]
      simp [hmod, Nat.div_add_mod]

/-- Zeros in front do not count. -/
theorem foldlM_zeros (hzero : digit '0' = some 0) (k : Nat) (digits : List Char) :
    (List.replicate k '0' ++ digits).foldlM (fun n c => (digit c).map (base * n + ·)) 0 =
      digits.foldlM (fun n c => (digit c).map (base * n + ·)) 0 := by
  induction k with
  | zero => rfl
  | succ k ih =>
    rw [List.replicate_succ, List.cons_append, List.foldlM_cons, hzero]
    exact ih

end Digits

/-- A number as the kernel prints it, with zeros in front up to a width. -/
def toHex (width n : Nat) : List Char :=
  List.replicate (width - (Nat.toDigits 16 n).length) '0' ++ Nat.toDigits 16 n

def toDecimal (n : Nat) : List Char := Nat.toDigits 10 n

/-- The digits of the printed numbers. -/
theorem digitChar_ok : ∀ d < 16, isWhiteSpace d.digitChar = false ∧ d.digitChar ≠ '+' ∧
    d.digitChar ≠ '-' ∧ d.digitChar ≠ ':' ∧ d.digitChar ≠ '\r' ∧
    hexDigit d.digitChar = some d := by
  decide

theorem mem_toDigits {base : Nat} (hb : 1 < base) {n : Nat} {c : Char}
    (h : c ∈ Nat.toDigits base n) : ∃ d < base, c = d.digitChar := by
  induction n using Nat.strongRecOn with
  | ind n ih =>
    rw [Nat.toDigits_eq_if hb] at h
    split at h
    · rename_i hlt
      exact ⟨n, hlt, List.mem_singleton.mp h⟩
    · rename_i hle
      rcases List.mem_append.mp h with h | h
      · exact ih _ (Nat.div_lt_self (by omega) hb) h
      · exact ⟨n % base, Nat.mod_lt n (by omega), List.mem_singleton.mp h⟩

theorem mem_toHex {width n : Nat} {c : Char} (h : c ∈ toHex width n) :
    ∃ d < 16, c = d.digitChar := by
  rcases List.mem_append.mp h with h | h
  · exact ⟨0, by decide, (List.mem_replicate.mp h).2⟩
  · exact mem_toDigits (by decide) h

theorem mem_toDecimal {n : Nat} {c : Char} (h : c ∈ toDecimal n) : ∃ d < 16, c = d.digitChar := by
  obtain ⟨d, hd, hc⟩ := mem_toDigits (by decide) h
  exact ⟨d, by omega, hc⟩

theorem toHex_ne_nil (width n : Nat) : toHex width n ≠ [] := by
  intro h
  exact Nat.toDigits_ne_nil (List.append_eq_nil_iff.mp h).2

theorem toDecimal_ne_nil (n : Nat) : toDecimal n ≠ [] := Nat.toDigits_ne_nil

/-- No sign is taken off in front of digits. -/
theorem signed_digits (text : List Char) : (∀ c ∈ text, ∃ d < 16, c = d.digitChar) →
    (match text with
      | '+' :: digits => digits
      | digits => digits) = text := by
  intro h
  split
  · obtain ⟨d, hd, hc⟩ := h '+' List.mem_cons_self
    exact absurd hc.symm (digitChar_ok d hd).2.1
  · rfl

theorem fromHex_toHex {bits width n : Nat} (h : n < 2 ^ bits) :
    fromHex bits (toHex width n) = some n := by
  have hfold : (toHex width n).foldlM (fun n c => (hexDigit c).map (16 * n + ·)) 0 = some n := by
    rw [toHex, foldlM_zeros rfl]
    exact foldlM_toDigits (by decide) (fun d hd => (digitChar_ok d hd).2.2.2.2.2) n
  unfold fromHex
  dsimp only
  rw [signed_digits _ fun c hc => mem_toHex hc, if_neg (toHex_ne_nil width n), hfold,
    Option.filter_some, if_pos (by simpa using h)]

theorem fromDecimal_toDecimal {bits n : Nat} (h : n < 2 ^ bits) :
    fromDecimal bits (toDecimal n) = some n := by
  have hdigit : ∀ d < 10, decimalDigit d.digitChar = some d := by decide
  have hfold := foldlM_toDigits (by decide) hdigit n
  unfold fromDecimal
  dsimp only
  rw [signed_digits _ fun c hc => mem_toDecimal hc, if_neg (toDecimal_ne_nil n), toDecimal, hfold,
    Option.filter_some, if_pos (by simpa using h)]

/-! ## UTF-8 -/

def encodeUtf8 (text : List Char) : List UInt8 := (String.ofList text).toUTF8.data.toList

def decodeUtf8 (bytes : List UInt8) : Option String := String.fromUTF8? ⟨bytes.toArray⟩

theorem decodeUtf8_encodeUtf8 (text : List Char) :
    decodeUtf8 (encodeUtf8 text) = some (String.ofList text) := by
  have hbytes : (⟨(encodeUtf8 text).toArray⟩ : ByteArray) = (String.ofList text).toUTF8 := by
    simp [encodeUtf8]
  rw [decodeUtf8, hbytes, String.fromUTF8?, String.toUTF8,
    dif_pos (String.ofList text).isValidUTF8]
  rfl

theorem encodeUtf8_of_decodeUtf8 {bytes : List UInt8} {text : String}
    (h : decodeUtf8 bytes = some text) : encodeUtf8 text.toList = bytes := by
  rw [decodeUtf8, String.fromUTF8?] at h
  split_ifs at h
  cases h
  rw [encodeUtf8, String.ofList_toList]
  rfl

theorem encodeUtf8_eq (text : List Char) : encodeUtf8 text = text.flatMap String.utf8EncodeChar := by
  simp [encodeUtf8, List.utf8Encode]

theorem encodeUtf8_eq_nil {text : List Char} : encodeUtf8 text = [] ↔ text = [] := by
  rw [encodeUtf8_eq, List.flatMap_eq_nil_iff]
  constructor
  · intro h
    exact List.eq_nil_iff_forall_not_mem.mpr fun c hc => String.utf8EncodeChar_ne_nil (h c hc)
  · rintro rfl c hc
    exact (List.not_mem_nil hc).elim

/-- A byte below 128 stands for itself only. -/
theorem eq_of_mem_utf8EncodeChar {c : Char} {byte : UInt8} (hbyte : byte.toNat < 128)
    (h : byte ∈ String.utf8EncodeChar c) : c.val.toNat = byte.toNat := by
  unfold String.utf8EncodeChar at h
  dsimp only at h
  split_ifs at h
  all_goals
    simp only [List.mem_cons, List.not_mem_nil, or_false, ← UInt8.toNat_inj,
      UInt8.toNat_ofNat'] at h
    omega

/-- A byte below 128 comes only of its character. -/
theorem byte_not_mem_encodeUtf8 {c : Char} {byte : UInt8} {text : List Char}
    (hbyte : byte.toNat < 128) (hc : c.val.toNat = byte.toNat) (h : c ∉ text) :
    byte ∉ encodeUtf8 text := by
  rw [encodeUtf8_eq]
  intro hmem
  obtain ⟨d, hd, hmem⟩ := List.mem_flatMap.mp hmem
  have hval : d.val.toNat = c.val.toNat := (eq_of_mem_utf8EncodeChar hbyte hmem).trans hc.symm
  exact h (Char.ext (UInt32.toNat_inj.mp hval) ▸ hd)

theorem zero_not_mem_encodeUtf8 {text : List Char} (h : '\x00' ∉ text) : 0 ∉ encodeUtf8 text :=
  byte_not_mem_encodeUtf8 (by decide) rfl h

/-! ## Lines of a file -/

/-- What `read_line` gives in turn: the lines of the bytes, as texts where they are valid. -/
def fileLines : List UInt8 → List (List UInt8)
  | [] => []
  | byte :: rest =>
    if byte = 10 then [byte] :: fileLines rest
    else
      match fileLines rest with
      | [] => [[byte]]
      | line :: lines => (byte :: line) :: lines

def readLine (line : List UInt8) : Option (List Char) := (decodeUtf8 line).map String.toList

/-- A line with its end. -/
def Terminated (line : List UInt8) : Prop := ∃ body, 10 ∉ body ∧ line = body ++ [10]

theorem fileLines_append {body : List UInt8} (h : 10 ∉ body) (rest : List UInt8) :
    fileLines (body ++ 10 :: rest) = (body ++ [10]) :: fileLines rest := by
  induction body with
  | nil => rfl
  | cons byte body ih =>
    have hbyte : byte ≠ 10 := fun heq => h (heq ▸ List.mem_cons_self)
    rw [List.cons_append, fileLines, if_neg hbyte, ih fun hmem => h (List.mem_cons_of_mem _ hmem)]
    rfl

theorem fileLines_flatten {lines : List (List UInt8)} (h : ∀ line ∈ lines, Terminated line) :
    fileLines lines.flatten = lines := by
  induction lines with
  | nil => rfl
  | cons line lines ih =>
    obtain ⟨⟨body, hbody, rfl⟩, hrest⟩ := List.forall_mem_cons.mp h
    rw [List.flatten_cons, List.append_assoc, List.singleton_append, fileLines_append hbody, ih hrest]

/-- A line without its end, as `lines` yields it. -/
def stripEnd (text : List Char) : List Char :=
  if text.getLast? = some '\n' then popIf '\r' text.dropLast else text

/-- What `lines` of a reader yields: the lines, and `none` for one that is no text. -/
def textLines (content : List UInt8) : List (Option (List Char)) :=
  (fileLines content).map fun line => (readLine line).map stripEnd

theorem stripEnd_append {text : List Char} (h : text.getLast? ≠ some '\r') :
    stripEnd (text ++ ['\n']) = text := by
  rw [stripEnd, if_pos List.getLast?_concat, List.dropLast_concat, popIf, if_neg h]

theorem readLine_encodeUtf8 (text : List Char) : readLine (encodeUtf8 text) = some text := by
  rw [readLine, decodeUtf8_encodeUtf8, Option.map_some, String.toList_ofList]

theorem encodeUtf8_append (front back : List Char) :
    encodeUtf8 (front ++ back) = encodeUtf8 front ++ encodeUtf8 back := by
  rw [encodeUtf8_eq, encodeUtf8_eq, encodeUtf8_eq, List.flatMap_append]

end OneCollect.Theory
