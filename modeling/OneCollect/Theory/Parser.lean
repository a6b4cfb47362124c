import OneCollect.Theory.Bytes
import OneCollect.Theory.Leb128

/-! Readers of bytes. A `Parser` takes a value off the front of a byte list. `Parses p bytes a`
says that `p` reads `a` from `bytes` and stops behind them, whatever follows; it holds of
readers put together when it holds of their parts, and of a repeated reader by induction. Values
may be repeated a number of times (`replicate`), to the end of the bytes (`many`), or up to one
that says it is the last (`untilLast`). -/

namespace OneCollect.Theory

abbrev Parser := StateT (List UInt8) Option

/-- The parser reads the value from exactly these bytes. -/
def Parses {α : Type} (p : Parser α) (bytes : List UInt8) (a : α) : Prop :=
  ∀ rest, p.run (bytes ++ rest) = some (a, rest)

namespace Parser

variable {α β : Type}

/-- The next bytes, as many as are asked for. -/
def take (n : Nat) : Parser (List UInt8) := fun bytes =>
  if n ≤ bytes.length then some (bytes.take n, bytes.drop n) else none

/-- A little-endian word. -/
def word (width : Nat) : Parser Nat := do
  let bytes ← take width
  return fromLe bytes

def varint : Parser Nat := fun bytes =>
  (uleb bytes).map fun (n, len) => (n, bytes.drop len)

/-- A number that has to be there. -/
def expect (n : Nat) (p : Parser Nat) : Parser Unit := do
  let m ← p
  if m = n then return () else failure

/-- The value that all of the bytes stand for. -/
def readAll (p : Parser α) (bytes : List UInt8) : Option α :=
  match p.run bytes with
  | some (a, []) => some a
  | _ => none

/-- The next bytes, as many as are said, read to their end. -/
def within (n : Nat) (p : Parser α) : Parser α := do
  let bytes ← take n
  StateT.lift (readAll p bytes)

/-- As many values one after another. -/
def replicate (p : Parser α) : Nat → Parser (List α)
  | 0 => return []
  | n + 1 => do
    let x ← p
    let xs ← replicate p n
    return x :: xs

/-- Values up to the end of the bytes; each takes a byte at least. -/
def many (p : Parser α) : (fuel : Nat) → List UInt8 → Option (List α)
  | _, [] => some []
  | 0, _ :: _ => none
  | fuel + 1, byte :: bytes => do
    let (x, rest) ← p.run (byte :: bytes)
    let xs ← many p fuel rest
    return x :: xs

/-- Values up to the one that is marked as the last. -/
def untilLast (p : Parser (Bool × α)) : (fuel : Nat) → Parser (List α)
  | 0 => failure
  | fuel + 1 => do
    let (isLast, x) ← p
    if isLast then return [x]
    else
      let xs ← untilLast p fuel
      return x :: xs

/-- The bytes of values of which the last is marked. -/
def markLast (encode : Bool → α → List UInt8) : List α → List UInt8
  | [] => []
  | x :: xs => encode xs.isEmpty x ++ markLast encode xs

end Parser

open OneCollect.Theory.Parser

variable {α β : Type} {p : Parser α} {xs ys : List UInt8} {a : α}

theorem parses_pure (a : α) : Parses (pure a) [] a := fun _ => rfl

/-- **One reader after another.** -/
theorem Parses.bind {f : α → Parser β} {b : β} (h : Parses p xs a) (hf : Parses (f a) ys b) :
    Parses (p >>= f) (xs ++ ys) b := by
  intro rest
  rw [StateT.run_bind, List.append_assoc, h]
  exact hf rest

/-- The last reader, whose value is changed. -/
theorem Parses.map {f : α → β} (h : Parses p xs a) :
    Parses (p >>= fun x => pure (f x)) xs (f a) := by
  have hbind := h.bind (f := fun x => pure (f x)) (parses_pure (f a))
  rwa [List.append_nil] at hbind

theorem parses_take (bytes : List UInt8) : Parses (take bytes.length) bytes bytes := by
  intro rest
  change (if bytes.length ≤ (bytes ++ rest).length then _ else none) = _
  rw [if_pos (by simp), List.take_left, List.drop_left]

theorem parses_take_of_length {n : Nat} {bytes : List UInt8} (h : bytes.length = n) :
    Parses (take n) bytes bytes := h ▸ parses_take bytes

theorem parses_word {width n : Nat} (h : n < 256 ^ width) : Parses (word width) (toLe width n) n := by
  have hword := (parses_take_of_length (length_toLe width n)).map (f := fromLe)
  rwa [fromLe_toLe_of_lt h] at hword

theorem parses_varint (n : Nat) : Parses varint (toUleb n) n := by
  intro rest
  change (uleb (toUleb n ++ rest)).map _ = _
  rw [uleb_toUleb, Option.map_some]
  dsimp only
  rw [List.drop_left]

theorem parses_expect {p : Parser Nat} {n : Nat} (h : Parses p xs n) :
    Parses (expect n p) xs () := by
  have hcheck : Parses (if n = n then pure () else failure : Parser Unit) [] () := by
    rw [if_pos rfl]
    exact parses_pure ()
  have hbind := h.bind (f := fun m => if m = n then pure () else failure) hcheck
  rwa [List.append_nil] at hbind

theorem Parses.readAll (h : Parses p xs a) : readAll p xs = some a := by
  have hrun := h []
  rw [List.append_nil] at hrun
  rw [Parser.readAll, hrun]

theorem Parses.within {n : Nat} (h : Parses p xs a) (hn : xs.length = n) :
    Parses (within n p) xs a := by
  intro rest
  rw [Parser.within, StateT.run_bind, parses_take_of_length hn]
  change (Parser.readAll p xs >>= fun x => some (x, rest)) = _
  rw [h.readAll]
  rfl

/-- **Repetition.** -/
theorem parses_replicate_map {encode : β → List UInt8} {value : β → α} (items : List β)
    (h : ∀ x ∈ items, Parses p (encode x) (value x)) :
    Parses (replicate p items.length) (items.flatMap encode) (items.map value) := by
  induction items with
  | nil => exact parses_pure []
  | cons x items ih =>
    have htail := ih fun y hy => h y (List.mem_cons_of_mem _ hy)
    exact (h x List.mem_cons_self).bind (htail.map (f := (value x :: ·)))

theorem parses_replicate {encode : α → List UInt8} (values : List α)
    (h : ∀ x ∈ values, Parses p (encode x) x) :
    Parses (replicate p values.length) (values.flatMap encode) values := by
  have hvalues : Parses (replicate p values.length) (values.flatMap encode) (values.map id) :=
    parses_replicate_map values h
  rwa [List.map_id] at hvalues

/-- Values that take a byte at least are no more than the bytes. -/
theorem length_le_flatMap {encode : α → List UInt8} {values : List α}
    (hpos : ∀ x ∈ values, encode x ≠ []) : values.length ≤ (values.flatMap encode).length := by
  induction values with
  | nil => exact Nat.zero_le _
  | cons x values ih =>
    have htail := ih fun y hy => hpos y (List.mem_cons_of_mem _ hy)
    have hhead := List.length_pos_iff.mpr (hpos x List.mem_cons_self)
    rw [List.flatMap_cons, List.length_append, List.length_cons]
    omega

theorem length_le_length_flatMap_of_mem {encode : α → List UInt8} {values : List α} {x : α}
    (h : x ∈ values) : (encode x).length ≤ (values.flatMap encode).length :=
  (List.sublist_flatten_of_mem (List.mem_map_of_mem h)).length_le

theorem many_flatMap {encode : α → List UInt8} (values : List α)
    (h : ∀ x ∈ values, Parses p (encode x) x) (hpos : ∀ x ∈ values, encode x ≠ []) {fuel : Nat}
    (hfuel : values.length ≤ fuel) : many p fuel (values.flatMap encode) = some values := by
  induction values generalizing fuel with
  | nil => cases fuel <;> rfl
  | cons x values ih =>
    cases fuel with
    | zero => exact absurd hfuel (Nat.not_succ_le_zero _)
    | succ fuel =>
      have htail := ih (fun y hy => h y (List.mem_cons_of_mem _ hy))
        (fun y hy => hpos y (List.mem_cons_of_mem _ hy)) (Nat.le_of_succ_le_succ hfuel)
      obtain ⟨byte, bytes, hcons⟩ := List.exists_cons_of_ne_nil (hpos x List.mem_cons_self)
      have hhead := h x List.mem_cons_self (values.flatMap encode)
      rw [List.flatMap_cons]
      rw [hcons, List.cons_append] at hhead ⊢
      rw [many, hhead]
      change (many p fuel (values.flatMap encode) >>= _) = _
      rw [htail]
      rfl

theorem length_le_markLast {encode : Bool → α → List UInt8}
    (hpos : ∀ isLast x, encode isLast x ≠ []) (values : List α) :
    values.length ≤ (markLast encode values).length := by
  induction values with
  | nil => exact Nat.zero_le _
  | cons x values ih =>
    have hhead := List.length_pos_iff.mpr (hpos values.isEmpty x)
    rw [markLast, List.length_append, List.length_cons]
    omega

theorem parses_untilLast {p : Parser (Bool × α)} {encode : Bool → α → List UInt8}
    (values : List α) (h : ∀ x ∈ values, ∀ isLast, Parses p (encode isLast x) (isLast, x))
    (hne : values ≠ []) {fuel : Nat} (hfuel : values.length ≤ fuel) :
    Parses (untilLast p fuel) (markLast encode values) values := by
  induction values generalizing fuel with
  | nil => exact absurd rfl hne
  | cons x values ih =>
    cases fuel with
    | zero => exact absurd hfuel (Nat.not_succ_le_zero _)
    | succ fuel =>
      have hhead := h x List.mem_cons_self values.isEmpty
      rw [markLast, untilLast]
      refine hhead.bind ?_
      cases values with
      | nil => exact parses_pure [x]
      | cons y values =>
        have htail := ih (fun z hz => h z (List.mem_cons_of_mem _ hz)) (List.cons_ne_nil _ _)
          (Nat.le_of_succ_le_succ hfuel)
        exact htail.map (f := (x :: ·))

end OneCollect.Theory
