import OneCollect.Theory.Text

/-! Readers of markup: fixed texts, quoted values, text up to a tag, elements up to the closing
tag. `Reads p text a` says that `p` reads `a` from `text` and stops behind it, whatever follows.
The three marks of the markup are escaped in a text and read back (`unescape_escape`). -/

namespace OneCollect.Theory.Markup

abbrev Reader := StateT (List Char) Option

/-- The reader reads the value from exactly this text. -/
def Reads {α : Type} (p : Reader α) (text : List Char) (a : α) : Prop :=
  ∀ rest, p.run (text ++ rest) = some (a, rest)

/-! ## Readers -/

section Readers

variable {α β : Type}

def literal (text : List Char) : Reader Unit := fun chars =>
  if text <+: chars then some ((), chars.drop text.length) else none

/-- The text up to a character, and the character. -/
def upTo (c : Char) : Reader (List Char) := fun chars =>
  match cutAt c chars with
  | (part, some rest) => some (part, rest)
  | (_, none) => none

def quote (text : List Char) : List Char := '"' :: (text ++ ['"'])

/-- A value in quotation marks. -/
def quoted (read : List Char → Option α) : Reader α := do
  literal ['"']
  let text ← upTo '"'
  StateT.lift (read text)

def closingTag (name : List Char) : List Char := '<' :: '/' :: name

/-- Elements up to the closing tag. -/
def untilClosed (name : List Char) (p : Reader α) : (fuel : Nat) → Reader (List α)
  | 0 => failure
  | fuel + 1 => fun chars =>
    if closingTag name <+: chars then some ([], chars.drop (closingTag name).length)
    else do
      let (x, chars) ← p.run chars
      let (xs, chars) ← (untilClosed name p fuel).run chars
      some (x :: xs, chars)

/-- There are no more elements than characters. -/
def elements (name : List Char) (p : Reader α) : Reader (List α) := fun chars =>
  (untilClosed name p chars.length).run chars

/-- The value that all of the text stands for. -/
def readText (p : Reader α) (text : List Char) : Option α :=
  match p.run text with
  | some (a, []) => some a
  | _ => none

variable {p : Reader α} {xs ys : List Char} {a : α}

theorem reads_pure (a : α) : Reads (pure a) [] a := fun _ => rfl

/-- **One reader after another.** -/
theorem Reads.bind {f : α → Reader β} {b : β} (h : Reads p xs a) (hf : Reads (f a) ys b) :
    Reads (p >>= f) (xs ++ ys) b := by
  intro rest
  rw [StateT.run_bind, List.append_assoc, h]
  exact hf rest

/-- The last reader, whose value is changed. -/
theorem Reads.map {f : α → β} (h : Reads p xs a) :
    Reads (p >>= fun x => pure (f x)) xs (f a) := by
  have hbind := h.bind (f := fun x => pure (f x)) (reads_pure (f a))
  rwa [List.append_nil] at hbind

theorem Reads.readText (h : Reads p xs a) : readText p xs = some a := by
  have hrun := h []
  rw [List.append_nil] at hrun
  rw [Markup.readText, hrun]

theorem reads_literal (text : List Char) : Reads (literal text) text () := by
  intro rest
  change (if text <+: text ++ rest then _ else none) = _
  rw [if_pos (List.prefix_append text rest), List.drop_left]

theorem reads_lift {o : Option α} (h : o = some a) : Reads (StateT.lift o) [] a := by
  intro rest
  rw [h]
  rfl

theorem reads_upTo {c : Char} {text : List Char} (h : c ∉ text) :
    Reads (upTo c) (text ++ [c]) text := by
  intro rest
  change (match cutAt c (text ++ [c] ++ rest) with
    | (part, some rest) => some (part, rest)
    | (_, none) => none) = _
  rw [List.append_assoc, List.singleton_append, cutAt_append h]

theorem reads_quoted {read : List Char → Option α} {text : List Char} (hquote : '"' ∉ text)
    (h : read text = some a) : Reads (quoted read) (quote text) a := by
  have hlift := (reads_upTo hquote).bind (f := fun text => StateT.lift (read text)) (reads_lift h)
  rw [List.append_nil] at hlift
  exact (reads_literal ['"']).bind hlift

/-- An element does not begin like a closing tag. -/
def Opens (text : List Char) : Prop := ∃ c rest, text = '<' :: c :: rest ∧ c ≠ '/'

theorem Opens.not_closed {text : List Char} (h : Opens text) (name rest : List Char) :
    ¬ closingTag name <+: text ++ rest := by
  obtain ⟨c, tail, rfl, hc⟩ := h
  intro hprefix
  have hsecond := (List.cons_prefix_cons.mp hprefix).2
  exact hc (List.cons_prefix_cons.mp hsecond).1.symm

theorem run_untilClosed {encode : α → List Char} {name : List Char} (values : List α)
    (h : ∀ x ∈ values, Reads p (encode x) x) (hopens : ∀ x ∈ values, Opens (encode x))
    {fuel : Nat} (hfuel : values.length < fuel) (rest : List Char) :
    (untilClosed name p fuel).run (values.flatMap encode ++ (closingTag name ++ rest)) =
      some (values, rest) := by
  induction values generalizing fuel with
  | nil =>
    obtain ⟨fuel, rfl⟩ := Nat.exists_eq_succ_of_ne_zero (Nat.ne_of_gt hfuel)
    change (if closingTag name <+: closingTag name ++ rest then _ else _) = _
    rw [if_pos (List.prefix_append _ rest)]
    exact congrArg (fun chars => some ([], chars)) (List.drop_left ..)
  | cons x values ih =>
    obtain ⟨fuel, rfl⟩ := Nat.exists_eq_succ_of_ne_zero (Nat.ne_zero_of_lt hfuel)
    obtain ⟨hx, h⟩ := List.forall_mem_cons.mp h
    obtain ⟨hopen, hopens⟩ := List.forall_mem_cons.mp hopens
    rw [List.flatMap_cons, List.append_assoc]
    change (if closingTag name <+: encode x ++ _ then _ else _) = _
    rw [if_neg (hopen.not_closed name _), hx]
    change ((untilClosed name p fuel).run _ >>= _) = _
    rw [ih h hopens (Nat.lt_of_succ_lt_succ hfuel)]
    rfl

/-- **Elements.** They are read back up to the closing tag. -/
theorem reads_elements {encode : α → List Char} (name : List Char) (values : List α)
    (h : ∀ x ∈ values, Reads p (encode x) x) (hopens : ∀ x ∈ values, Opens (encode x)) :
    Reads (elements name p) (values.flatMap encode ++ closingTag name) values := by
  have hlen : values.length ≤ (values.flatMap encode).length := by
    clear h
    induction values with
    | nil => exact Nat.zero_le _
    | cons x values ih =>
      obtain ⟨⟨c, tail, hx, -⟩, hopens⟩ := List.forall_mem_cons.mp hopens
      have htail := ih hopens
      rw [List.flatMap_cons, List.length_append, List.length_cons, hx, List.length_cons]
      omega
  intro rest
  change (untilClosed name p _).run _ = _
  rw [List.append_assoc]
  refine run_untilClosed values h hopens ?_ rest
  simp only [List.length_append, closingTag, List.length_cons]
  omega

end Readers

/-! ## Numbers -/

def readDecimal (text : List Char) : Option Nat :=
  if text = [] then none else text.foldlM (fun n c => (decimalDigit c).map (10 * n + ·)) 0

/-- A signed number as it is printed. -/
def toSigned (n : Int) : List Char :=
  if n < 0 then '-' :: toDecimal n.natAbs else toDecimal n.natAbs

def readSigned (text : List Char) : Option Int :=
  if text.head? = some '-' then (readDecimal text.tail).map fun n => -Int.ofNat n
  else (readDecimal text).map Int.ofNat

theorem readDecimal_toDecimal (n : Nat) : readDecimal (toDecimal n) = some n := by
  have hdigit : ∀ d < 10, decimalDigit d.digitChar = some d := by decide
  rw [readDecimal, if_neg (toDecimal_ne_nil n), toDecimal]
  exact foldlM_toDigits (by decide) hdigit n

theorem head?_toDecimal_ne (n : Nat) : (toDecimal n).head? ≠ some '-' := by
  intro h
  obtain ⟨d, hd, hc⟩ := mem_toDecimal (List.mem_of_mem_head? h)
  exact (digitChar_ok d hd).2.2.1 hc.symm

theorem readSigned_toSigned (n : Int) : readSigned (toSigned n) = some n := by
  unfold toSigned readSigned
  by_cases hneg : n < 0
  · have hneg' : -Int.ofNat n.natAbs = n := by
      rw [Int.ofNat_eq_natCast]
      omega
    rw [if_pos hneg, List.head?_cons, if_pos rfl, List.tail_cons, readDecimal_toDecimal,
      Option.map_some, hneg']
  · rw [if_neg hneg, if_neg (head?_toDecimal_ne _), readDecimal_toDecimal, Option.map_some]
    exact congrArg some (Int.natAbs_of_nonneg (Int.not_lt.mp hneg))

theorem digitChar_ne_quote : ∀ d < 16, d.digitChar ≠ '"' := by decide

theorem quote_not_mem_toDecimal (n : Nat) : '"' ∉ toDecimal n := by
  intro h
  obtain ⟨d, hd, hc⟩ := mem_toDecimal h
  exact digitChar_ne_quote d hd hc.symm

theorem quote_not_mem_toSigned (n : Int) : '"' ∉ toSigned n := by
  unfold toSigned
  split
  · rw [List.mem_cons, not_or]
    exact ⟨by decide, quote_not_mem_toDecimal _⟩
  · exact quote_not_mem_toDecimal _

theorem reads_decimal (n : Nat) : Reads (quoted readDecimal) (quote (toDecimal n)) n :=
  reads_quoted (quote_not_mem_toDecimal n) (readDecimal_toDecimal n)

theorem reads_signed (n : Int) : Reads (quoted readSigned) (quote (toSigned n)) n :=
  reads_quoted (quote_not_mem_toSigned n) (readSigned_toSigned n)

/-! ## Escapes -/

/-- `replace` of a character by a text. -/
def replaceChar (c : Char) (other text : List Char) : List Char :=
  text.flatMap fun d => if d = c then other else [d]

def escapeChar (c : Char) : List Char :=
  if c = '&' then ['&', 'a', 'm', 'p', ';']
  else if c = '<' then ['&', 'l', 't', ';']
  else if c = '>' then ['&', 'g', 't', ';']
  else [c]

def escape (text : List Char) : List Char := text.flatMap escapeChar

def unescape : List Char → Option (List Char)
  | [] => some []
  | '&' :: 'a' :: 'm' :: 'p' :: ';' :: rest => (unescape rest).map ('&' :: ·)
  | '&' :: 'l' :: 't' :: ';' :: rest => (unescape rest).map ('<' :: ·)
  | '&' :: 'g' :: 't' :: ';' :: rest => (unescape rest).map ('>' :: ·)
  | '&' :: _ => none
  | c :: rest => (unescape rest).map (c :: ·)

theorem unescape_cons {c : Char} (hc : c ≠ '&') (rest : List Char) :
    unescape (c :: rest) = (unescape rest).map (c :: ·) := by
  rw [unescape]
  all_goals simp_all

theorem unescape_escapeChar (c : Char) (rest : List Char) :
    unescape (escapeChar c ++ rest) = (unescape rest).map (c :: ·) := by
  unfold escapeChar
  split_ifs with hamp hlt hgt
  · rw [hamp]
    rfl
  · rw [hlt]
    rfl
  · rw [hgt]
    rfl
  · exact unescape_cons hamp rest

/-- **Escapes.** The text is read back. -/
theorem unescape_escape (text : List Char) : unescape (escape text) = some text := by
  induction text with
  | nil => rfl
  | cons c text ih =>
    rw [escape, List.flatMap_cons, unescape_escapeChar]
    exact congrArg (Option.map (c :: ·)) ih

theorem lt_not_mem_escape (text : List Char) : '<' ∉ escape text := by
  intro h
  obtain ⟨c, -, hc⟩ := List.mem_flatMap.mp h
  unfold escapeChar at hc
  split_ifs at hc with hamp hlt hgt
  · simp at hc
  · simp at hc
  · simp at hc
  · exact hlt (List.mem_singleton.mp hc).symm

/-- The three replacements one after another. -/
theorem replaceChar_eq_escape (text : List Char) :
    replaceChar '>' ['&', 'g', 't', ';'] (replaceChar '<' ['&', 'l', 't', ';']
      (replaceChar '&' ['&', 'a', 'm', 'p', ';'] text)) = escape text := by
  unfold replaceChar escape
  rw [List.flatMap_assoc, List.flatMap_assoc]
  refine List.flatMap_congr fun c _ => ?_
  unfold escapeChar
  split_ifs with hamp hlt hgt
  · rfl
  · subst hlt
    rfl
  · subst hgt
    rfl
  · simp [hlt, hgt]

/-- A text without the marks stays. -/
theorem escape_of_forall {text : List Char} (h : ∀ c ∈ text, c ≠ '&' ∧ c ≠ '<' ∧ c ≠ '>') :
    escape text = text := by
  induction text with
  | nil => rfl
  | cons c text ih =>
    obtain ⟨⟨hamp, hlt, hgt⟩, h⟩ := List.forall_mem_cons.mp h
    have hc : escapeChar c = [c] := by
      rw [escapeChar, if_neg hamp, if_neg hlt, if_neg hgt]
    rw [escape, List.flatMap_cons, hc]
    exact congrArg (c :: ·) (ih h)

end OneCollect.Theory.Markup
