import Mathlib.Logic.Function.Basic
import OneCollect.Theory.Bytes
import OneCollect.Theory.Leb128

/-! Call frame programs, as the debugging format defines them.

A program is decoded into instructions (`program`). Each instruction changes the row under
construction (`step`): the rule of the CFA and the rule of every register. A program that
moves the location closes the row, so the whole program is a table of rows (`rows`), and an
address has the row in force at it (`inForce`): the rows are read up to the first one that
starts behind the address. `inForce_rows` gives that row as the state after a prefix of the
program, `inForce_eq_lastAt` as the last row at or below the address. -/

namespace OneCollect.Theory.CallFrame

/-! ## Instructions -/

/-- Operands as they are encoded; `offset`, `valOffset` and the `Sf` forms are factored. -/
inductive Instr where
  | nop
  | setLoc (address : Int)
  | advance (delta : Nat)
  | offset (reg : Nat) (n : Int)
  | valOffset (reg : Nat) (n : Int)
  | restore (reg : Nat)
  | undefined (reg : Nat)
  | sameValue (reg : Nat)
  | register (reg other : Nat)
  | expression (reg size : Nat)
  | valExpression (reg size : Nat)
  | rememberState
  | restoreState
  | defCfa (reg off : Nat)
  | defCfaSf (reg : Nat) (n : Int)
  | defCfaRegister (reg : Nat)
  | defCfaOffset (off : Nat)
  | defCfaOffsetSf (n : Int)
  | defCfaExpression (size : Nat)
  | argsSize (size : Nat)
  | invalid
  deriving DecidableEq, Repr

/-- The instruction starts a new row. -/
def Instr.moves : Instr → Bool
  | setLoc _ => true
  | advance _ => true
  | _ => false

/-- A signed or unsigned operand of at most 62 bits. -/
def Fits62 (n : Int) : Prop := -2 ^ 62 ≤ n ∧ n < 2 ^ 62

instance (n : Int) : Decidable (Fits62 n) := inferInstanceAs (Decidable (_ ∧ _))

/-- The LEB128 operands have at most 62 bits. -/
def Instr.Fits : Instr → Prop
  | offset reg n => Fits62 reg ∧ Fits62 n
  | valOffset reg n => Fits62 reg ∧ Fits62 n
  | restore reg => Fits62 reg
  | undefined reg => Fits62 reg
  | sameValue reg => Fits62 reg
  | register reg other => Fits62 reg ∧ Fits62 other
  | expression reg size => Fits62 reg ∧ Fits62 size
  | valExpression reg size => Fits62 reg ∧ Fits62 size
  | defCfa reg off => Fits62 reg ∧ Fits62 off
  | defCfaSf reg n => Fits62 reg ∧ Fits62 n
  | defCfaRegister reg => Fits62 reg
  | defCfaOffset off => Fits62 off
  | defCfaOffsetSf n => Fits62 n
  | defCfaExpression size => Fits62 size
  | argsSize size => Fits62 size
  | _ => True

instance : DecidablePred Instr.Fits := fun i => by
  unfold Instr.Fits
  split <;> infer_instance

/-! ## Decoding -/

section Decoding

-- `pointer` reads an encoded address at a position
variable (pointer : Nat → Option (Int × Nat)) (bytes : List UInt8)

def ulebAt (cursor : Nat) : Option (Nat × Nat) :=
  (uleb (bytes.drop cursor)).map fun (n, len) => (n, cursor + len)

def slebAt (cursor : Nat) : Option (Int × Nat) :=
  (sleb (bytes.drop cursor)).map fun (n, len) => (n, cursor + len)

def wordAt (width cursor : Nat) : Option (Nat × Nat) :=
  if cursor + width ≤ bytes.length then
    some (fromLe ((bytes.drop cursor).take width), cursor + width)
  else none

/-- A register and a second operand. -/
def regAnd {α : Type} (second : Nat → Option (α × Nat)) (make : Nat → α → Instr)
    (cursor : Nat) : Option (Instr × Nat) := do
  let (reg, cursor) ← ulebAt bytes cursor
  let (operand, cursor) ← second cursor
  some (make reg operand, cursor)

def one (make : Nat → Instr) (cursor : Nat) : Option (Instr × Nat) := do
  let (operand, cursor) ← ulebAt bytes cursor
  some (make operand, cursor)

/-- A register and a block of bytes behind its size. -/
def regAndBlock (make : Nat → Nat → Instr) (cursor : Nat) : Option (Instr × Nat) := do
  let (reg, cursor) ← ulebAt bytes cursor
  let (size, cursor) ← ulebAt bytes cursor
  some (make reg size, cursor + size)

def decodeExtended (opcode cursor : Nat) : Option (Instr × Nat) :=
  match opcode with
  | 0x00 => some (.nop, cursor)
  | 0x01 => (pointer cursor).map fun (address, cursor) => (.setLoc address, cursor)
  | 0x02 => (wordAt bytes 1 cursor).map fun (delta, cursor) => (.advance delta, cursor)
  | 0x03 => (wordAt bytes 2 cursor).map fun (delta, cursor) => (.advance delta, cursor)
  | 0x04 => (wordAt bytes 4 cursor).map fun (delta, cursor) => (.advance delta, cursor)
  | 0x05 => regAnd bytes (ulebAt bytes) (fun reg n => .offset reg n) cursor
  | 0x06 => one bytes .restore cursor
  | 0x07 => one bytes .undefined cursor
  | 0x08 => one bytes .sameValue cursor
  | 0x09 => regAnd bytes (ulebAt bytes) .register cursor
  | 0x0a => some (.rememberState, cursor)
  | 0x0b => some (.restoreState, cursor)
  | 0x0c => regAnd bytes (ulebAt bytes) .defCfa cursor
  | 0x0d => one bytes .defCfaRegister cursor
  | 0x0e => one bytes .defCfaOffset cursor
  | 0x0f => (ulebAt bytes cursor).map fun (size, cursor) => (.defCfaExpression size, cursor + size)
  | 0x10 => regAndBlock bytes .expression cursor
  | 0x11 => regAnd bytes (slebAt bytes) .offset cursor
  | 0x12 => regAnd bytes (slebAt bytes) .defCfaSf cursor
  | 0x13 => (slebAt bytes cursor).map fun (n, cursor) => (.defCfaOffsetSf n, cursor)
  | 0x14 => regAnd bytes (ulebAt bytes) (fun reg n => .valOffset reg n) cursor
  | 0x15 => regAnd bytes (slebAt bytes) .valOffset cursor
  | 0x16 => regAndBlock bytes .valExpression cursor
  | 0x2e => one bytes .argsSize cursor
  | _ => none

/-- The instruction at a position, and the position behind it. -/
def decode (cursor : Nat) : Option (Instr × Nat) := do
  let opcode ← bytes[cursor]?
  match opcode.toNat / 64 with
  | 0 => decodeExtended pointer bytes (opcode.toNat % 64) (cursor + 1)
  | 1 => some (.advance (opcode.toNat % 64), cursor + 1)
  | 2 => (ulebAt bytes (cursor + 1)).map fun (n, cursor) =>
    (.offset (opcode.toNat % 64) n, cursor)
  | _ => some (.restore (opcode.toNat % 64), cursor + 1)

/-- The instructions from a position to the end; what is no instruction ends them. -/
def program : (turns cursor : Nat) → List Instr
  | 0, _ => []
  | turns + 1, cursor =>
    if cursor < bytes.length then
      match decode pointer bytes cursor with
      | some (instr, cursor) => instr :: program turns cursor
      | none => [.invalid]
    else []

theorem program_cons {turns cursor next : Nat} {instr : Instr} (hlt : cursor < bytes.length)
    (h : decode pointer bytes cursor = some (instr, next)) :
    program pointer bytes (turns + 1) cursor = instr :: program pointer bytes turns next := by
  rw [program, if_pos hlt, h]

theorem program_end {turns cursor : Nat} (hle : ¬ cursor < bytes.length) :
    program pointer bytes (turns + 1) cursor = [] := by
  rw [program, if_neg hle]

end Decoding

section Pointers

variable {pointer pointer' : Nat → Option (Int × Nat)} {bytes : List UInt8}

theorem decodeExtended_pointer {opcode : Nat} (h : opcode ≠ 0x01) (cursor : Nat) :
    decodeExtended pointer bytes opcode cursor = decodeExtended pointer' bytes opcode cursor := by
  unfold decodeExtended
  split <;> first | rfl | exact absurd rfl h

/-- Two readers of addresses that end at the same position decode the same instruction, but
for the address of `setLoc`. -/
theorem decode_pointer
    (hpointer : ∀ cursor address next, pointer cursor = some (address, next) →
      ∃ address', pointer' cursor = some (address', next))
    {cursor next : Nat} {instr : Instr} (h : decode pointer bytes cursor = some (instr, next)) :
    decode pointer' bytes cursor = some (instr, next) ∨
      ∃ address address', instr = .setLoc address ∧
        decode pointer' bytes cursor = some (.setLoc address', next) := by
  obtain ⟨opcode, hget, h⟩ := Option.bind_eq_some_iff.mp h
  have hdecode : decode pointer' bytes cursor =
      match opcode.toNat / 64 with
      | 0 => decodeExtended pointer' bytes (opcode.toNat % 64) (cursor + 1)
      | 1 => some (.advance (opcode.toNat % 64), cursor + 1)
      | 2 => (ulebAt bytes (cursor + 1)).map fun (n, cursor) =>
        (.offset (opcode.toNat % 64) n, cursor)
      | _ => some (.restore (opcode.toNat % 64), cursor + 1) := by
    rw [decode, hget]
    rfl
  rw [hdecode]
  cases hprimary : opcode.toNat / 64 with
  | zero =>
    simp only [hprimary] at h ⊢
    by_cases hset : opcode.toNat % 64 = 0x01
    · rw [hset] at h ⊢
      obtain ⟨⟨address, next'⟩, hread, heq⟩ := Option.map_eq_some_iff.mp h
      cases heq
      obtain ⟨address', hread'⟩ := hpointer _ _ _ hread
      exact Or.inr ⟨address, address', rfl, by rw [decodeExtended, hread']; rfl⟩
    · rw [decodeExtended_pointer hset]
      exact Or.inl h
  | succ primary =>
    simp only [hprimary] at h ⊢
    rcases primary with _ | _ | primary <;> exact Or.inl h

end Pointers

/-! ## Rows -/

inductive Rule where
  | unspecified
  | undefined
  | sameValue
  | offset (n : Int)
  | valOffset (n : Int)
  | register (reg : Nat)
  | expression
  | valExpression
  deriving DecidableEq, Repr

structure Cfa where
  reg : Nat := 0
  off : Int := 0
  deriving DecidableEq, Repr

structure Row where
  cfa : Cfa := {}
  rules : Nat → Rule := fun _ => .unspecified

/-- The factors of offsets and of location advances. -/
structure Factors where
  code : Nat
  data : Int
  deriving DecidableEq, Repr

structure State where
  loc : Int
  row : Row := {}
  stack : List Row := []

namespace State

def setRule (st : State) (reg : Nat) (rule : Rule) : State :=
  { st with row := { st.row with rules := Function.update st.row.rules reg rule } }

def setCfa (st : State) (cfa : Cfa) : State := { st with row := { st.row with cfa } }

end State

section Running

-- `init` has the rules that `restore` reinstates
variable (factors : Factors) (init : Nat → Rule)

/-- One instruction. A CFA given by an expression has no register and offset. -/
def step (st : State) : Instr → Option State
  | .nop => some st
  | .setLoc address => some { st with loc := address }
  | .advance delta => some { st with loc := st.loc + delta * factors.code }
  | .offset reg n => some (st.setRule reg (.offset (n * factors.data)))
  | .valOffset reg n => some (st.setRule reg (.valOffset (n * factors.data)))
  | .restore reg => some (st.setRule reg (init reg))
  | .undefined reg => some (st.setRule reg .undefined)
  | .sameValue reg => some (st.setRule reg .sameValue)
  | .register reg other => some (st.setRule reg (.register other))
  | .expression reg _ => some (st.setRule reg .expression)
  | .valExpression reg _ => some (st.setRule reg .valExpression)
  | .rememberState => some { st with stack := st.row :: st.stack }
  | .restoreState =>
    match st.stack with
    | row :: stack => some { st with row, stack }
    | [] => none
  | .defCfa reg off => some (st.setCfa ⟨reg, off⟩)
  | .defCfaSf reg n => some (st.setCfa ⟨reg, n * factors.data⟩)
  | .defCfaRegister reg => some (st.setCfa { st.row.cfa with reg })
  | .defCfaOffset off => some (st.setCfa { st.row.cfa with off := off })
  | .defCfaOffsetSf n => some (st.setCfa { st.row.cfa with off := n * factors.data })
  | .defCfaExpression _ => none
  | .argsSize _ => some st
  | .invalid => none

def run (st : State) : List Instr → Option State
  | [] => some st
  | instr :: instrs => do
    let st ← step factors init st instr
    run st instrs

/-- A row and the location it starts at. -/
structure Located where
  loc : Int
  row : Row

/-- The table of a program: a row is closed when the location moves. -/
def rows (st : State) : List Instr → Option (List Located)
  | [] => some [⟨st.loc, st.row⟩]
  | instr :: instrs => do
    let next ← step factors init st instr
    let table ← rows next instrs
    if instr.moves then some (⟨st.loc, st.row⟩ :: table) else some table

end Running

/-- An entry of a frame table: the location it starts at, the program of its CIE and its own. -/
structure Entry where
  start : Int
  factors : Factors
  cie : List Instr
  fde : List Instr
  deriving DecidableEq, Repr

namespace Entry

/-- The state after the CIE, whose rules are those that `restore` reinstates. -/
def initial (entry : Entry) : Option State := do
  let st ← run entry.factors (fun _ => .unspecified) { loc := entry.start } entry.cie
  some { st with loc := entry.start }

def table (entry : Entry) : Option (List Located) := do
  let st ← entry.initial
  rows entry.factors st.row.rules st entry.fde

end Entry

/-- The row in force at an address: the rows are read until one starts behind it. -/
def inForce (address : Nat) (table : List Located) : Option Row :=
  ((table.takeWhile fun located => toU64 located.loc ≤ address).getLast?).map (·.row)

/-- The last row at or below an address. -/
def lastAt (address : Nat) (table : List Located) : Option Row :=
  ((table.filter fun located => toU64 located.loc ≤ address).getLast?).map (·.row)

/-! ## The row in force -/

section InForce

variable {factors : Factors} {init : Nat → Rule} {st next : State} {instr : Instr}
  {instrs : List Instr} {table : List Located} {address : Nat}

/-- The location after an instruction. -/
def target (factors : Factors) (loc : Int) : Instr → Int
  | .setLoc address => address
  | .advance delta => loc + delta * factors.code
  | _ => loc

theorem step_loc (h : step factors init st instr = some next) :
    next.loc = target factors st.loc instr := by
  cases instr <;> simp only [step, Option.some.injEq, reduceCtorEq] at h
  case restoreState =>
    split at h
    · cases h
      rfl
    · cases h
  all_goals
    subst h
    rfl

theorem target_of_not_moves (h : instr.moves = false) (loc : Int) :
    target factors loc instr = loc := by
  cases instr <;> first | rfl | cases h

theorem step_row_of_moves (hmoves : instr.moves = true)
    (h : step factors init st instr = some next) : next.row = st.row ∧ next.stack = st.stack := by
  cases instr <;> try cases hmoves
  all_goals
    cases h
    exact ⟨rfl, rfl⟩

/-- A `setLoc` names no location below the current one. -/
def Instr.Ahead (loc : Int) : Instr → Prop
  | .setLoc address => loc ≤ address
  | _ => True

/-- The locations of a program never go back. -/
def Forward (factors : Factors) : Int → List Instr → Prop
  | _, [] => True
  | loc, instr :: instrs => instr.Ahead loc ∧ Forward factors (target factors loc instr) instrs

theorem le_target {loc : Int} (h : instr.Ahead loc) : loc ≤ target factors loc instr := by
  cases instr
  case setLoc address => exact h
  case advance delta =>
    have : (0 : Int) ≤ delta * factors.code := by positivity
    simp only [target]
    omega
  all_goals exact le_refl loc

/-- The instructions that are executed for an address: up to the one that moves the location
behind it. -/
def upTo (factors : Factors) (address : Nat) (loc : Int) : List Instr → List Instr
  | [] => []
  | instr :: instrs =>
    if instr.moves = true ∧ address < toU64 (target factors loc instr) then []
    else instr :: upTo factors address (target factors loc instr) instrs

/-- The first row starts at the location the program starts at. -/
theorem rows_head (h : rows factors init st instrs = some table) :
    ∃ row rest, table = ⟨st.loc, row⟩ :: rest := by
  induction instrs generalizing st table with
  | nil =>
    cases h
    exact ⟨st.row, [], rfl⟩
  | cons instr instrs ih =>
    obtain ⟨next, hstep, h⟩ := Option.bind_eq_some_iff.mp h
    obtain ⟨rest, hrest, h⟩ := Option.bind_eq_some_iff.mp h
    cases hmoves : instr.moves with
    | true =>
      rw [hmoves, if_pos rfl] at h
      cases h
      exact ⟨st.row, rest, rfl⟩
    | false =>
      rw [hmoves, if_neg Bool.false_ne_true] at h
      cases h
      have hloc := step_loc hstep
      rw [target_of_not_moves hmoves] at hloc
      rw [← hloc]
      exact ih hrest

theorem inForce_of_lt (h : rows factors init st instrs = some table)
    (hlt : address < toU64 st.loc) : inForce address table = none := by
  obtain ⟨row, rest, rfl⟩ := rows_head h
  unfold inForce
  rw [List.takeWhile_cons_of_neg (by simpa using hlt)]
  rfl

theorem inForce_cons {located : Located} (hle : toU64 located.loc ≤ address) :
    inForce address (located :: table) = some ((inForce address table).getD located.row) := by
  unfold inForce
  rw [List.takeWhile_cons_of_pos (by simpa using hle), List.getLast?_cons]
  cases (table.takeWhile fun located => decide (toU64 located.loc ≤ address)).getLast? <;> rfl

/-- **The row in force** is the row after the instructions executed for the address. -/
theorem inForce_rows (h : rows factors init st instrs = some table)
    (hle : toU64 st.loc ≤ address) :
    ∃ last, run factors init st (upTo factors address st.loc instrs) = some last ∧
      inForce address table = some last.row := by
  induction instrs generalizing st table with
  | nil =>
    cases h
    exact ⟨st, rfl, inForce_cons hle⟩
  | cons instr instrs ih =>
    obtain ⟨next, hstep, h⟩ := Option.bind_eq_some_iff.mp h
    obtain ⟨rest, hrest, h⟩ := Option.bind_eq_some_iff.mp h
    have hloc := step_loc hstep
    unfold upTo
    rw [← hloc]
    cases hmoves : instr.moves with
    | true =>
      rw [hmoves, if_pos rfl] at h
      cases h
      rw [inForce_cons hle]
      by_cases hlt : address < toU64 next.loc
      · rw [if_pos ⟨rfl, hlt⟩, inForce_of_lt hrest hlt]
        exact ⟨st, rfl, rfl⟩
      · rw [if_neg fun hstop => hlt hstop.2]
        obtain ⟨last, hrun, hlast⟩ := ih hrest (Nat.le_of_not_lt hlt)
        exact ⟨last, by rw [run, hstep]; exact hrun, by rw [hlast]; rfl⟩
    | false =>
      rw [hmoves, if_neg Bool.false_ne_true] at h
      cases h
      rw [target_of_not_moves hmoves] at hloc
      rw [if_neg fun hstop => Bool.false_ne_true hstop.1]
      obtain ⟨last, hrun, hlast⟩ := ih hrest (by rw [hloc]; exact hle)
      exact ⟨last, by rw [run, hstep]; exact hrun, hlast⟩

/-- The rows of a program that never goes back ascend. -/
theorem rows_ascending (h : rows factors init st instrs = some table)
    (hforward : Forward factors st.loc instrs) :
    table.Pairwise fun before after => before.loc ≤ after.loc := by
  suffices hall : (∀ located ∈ table, st.loc ≤ located.loc) ∧
      table.Pairwise fun before after => before.loc ≤ after.loc from hall.2
  induction instrs generalizing st table with
  | nil =>
    cases h
    simp
  | cons instr instrs ih =>
    obtain ⟨next, hstep, h⟩ := Option.bind_eq_some_iff.mp h
    obtain ⟨rest, hrest, h⟩ := Option.bind_eq_some_iff.mp h
    obtain ⟨hahead, hforward⟩ := hforward
    have hle : st.loc ≤ next.loc := by
      rw [step_loc hstep]
      exact le_target hahead
    rw [← step_loc hstep] at hforward
    obtain ⟨hfrom, hascending⟩ := ih hrest hforward
    have hfrom' : ∀ located ∈ rest, st.loc ≤ located.loc := fun located hmem =>
      le_trans hle (hfrom located hmem)
    cases hmoves : instr.moves with
    | true =>
      rw [hmoves, if_pos rfl] at h
      cases h
      exact ⟨List.forall_mem_cons.mpr ⟨le_refl _, hfrom'⟩,
        List.pairwise_cons.mpr ⟨hfrom', hascending⟩⟩
    | false =>
      rw [hmoves, if_neg Bool.false_ne_true] at h
      cases h
      exact ⟨hfrom', hascending⟩

/-- Locations that lie in one turn of the address space are ordered as addresses. -/
theorem toU64_mono {a b : Int} (h : a ≤ b) (hturn : a / 2 ^ 64 = b / 2 ^ 64) :
    toU64 a ≤ toU64 b := by
  unfold toU64
  omega

/-- **In a program that never goes back** the row in force is the last row at or below the
address, if the locations do not wrap around. -/
theorem inForce_eq_lastAt (h : rows factors init st instrs = some table)
    (hforward : Forward factors st.loc instrs)
    (hturn : ∀ located ∈ table, located.loc / 2 ^ 64 = st.loc / 2 ^ 64) :
    inForce address table = lastAt address table := by
  have hascending : table.Pairwise fun before after => toU64 before.loc ≤ toU64 after.loc :=
    (rows_ascending h hforward).imp_of_mem fun hbefore hafter hle =>
      toU64_mono hle ((hturn _ hbefore).trans (hturn _ hafter).symm)
  clear h hturn
  unfold inForce lastAt
  suffices hsame : (table.takeWhile fun located => decide (toU64 located.loc ≤ address)) =
      table.filter fun located => decide (toU64 located.loc ≤ address) by rw [hsame]
  induction hascending with
  | nil => rfl
  | @cons located rest hle _ ih =>
    by_cases hin : toU64 located.loc ≤ address
    · rw [List.takeWhile_cons_of_pos (by simpa using hin),
        List.filter_cons_of_pos (by simpa using hin), ih]
    · rw [List.takeWhile_cons_of_neg (by simpa using hin),
        List.filter_cons_of_neg (by simpa using hin)]
      refine (List.filter_eq_nil_iff.mpr fun later hlater => ?_).symm
      have := hle later hlater
      simp only [decide_eq_true_iff]
      omega

end InForce

end OneCollect.Theory.CallFrame
