import Mathlib.Tactic.Linarith

/-! Checked machine arithmetic and indexing. A call of the modelled program ends in
a value, in an `Err` with its text, or in a panic. Arithmetic follows the language
with overflow checks on: a sum or a difference outside the type panics (`OverflowChecks`
has both builds). Unsigned
words are naturals, signed words integers; `toI64` and `toU64` are the two `as`
casts between them. -/

namespace OneCollect.Theory

/-- The two ways a call ends without a value. -/
inductive Fault where
  | error (text : String)
  | panic
  deriving DecidableEq, Repr

abbrev Exec (α : Type) := Except Fault α

def panicked {α : Type} : Exec α := .error .panic

def fail {α : Type} (text : String) : Exec α := .error (.error text)

/-- One computation after another: the only way to a value. -/
theorem bind_eq_ok {α β : Type} {x : Exec α} {f : α → Exec β} {b : β} :
    (x >>= f) = .ok b ↔ ∃ a, x = .ok a ∧ f a = .ok b := by
  cases x with
  | error e => simp [bind, Except.bind]
  | ok a => simp [bind, Except.bind]

theorem exists_eq_ok {α : Type} {x : Exec α} (h : x.toOption.isSome = true) : ∃ a, x = .ok a := by
  cases x with
  | error fault => cases h
  | ok a => exact ⟨a, rfl⟩

@[simp] theorem ok_bind {α β : Type} (a : α) (f : α → Exec β) :
    (Except.ok a >>= f : Exec β) = f a := rfl

@[simp] theorem pure_eq_ok {α : Type} (a : α) : (pure a : Exec α) = .ok a := rfl

@[simp] theorem panicked_ne_ok {α : Type} (a : α) : (panicked : Exec α) ≠ .ok a := by
  simp [panicked]

@[simp] theorem fail_ne_ok {α : Type} (text : String) (a : α) : (fail text : Exec α) ≠ .ok a := by
  simp [fail]

/-- A guarded value: `a` when the check `c` passes, else a panic. -/
theorem guarded_eq_ok {α : Type} {c : Prop} [Decidable c] {a b : α} :
    (if c then (.ok a : Exec α) else panicked) = .ok b ↔ c ∧ b = a := by
  by_cases hc : c
  · simp [hc, eq_comm]
  · simp [hc]

/-! ## Unsigned words -/

def addU64 (a b : Nat) : Exec Nat := if a + b < 2 ^ 64 then .ok (a + b) else panicked

def subU64 (a b : Nat) : Exec Nat := if b ≤ a then .ok (a - b) else panicked

def mulU64 (a b : Nat) : Exec Nat := if a * b < 2 ^ 64 then .ok (a * b) else panicked

theorem addU64_eq_ok {a b c : Nat} : addU64 a b = .ok c ↔ a + b < 2 ^ 64 ∧ c = a + b :=
  guarded_eq_ok

theorem subU64_eq_ok {a b c : Nat} : subU64 a b = .ok c ↔ b ≤ a ∧ c = a - b :=
  guarded_eq_ok

theorem mulU64_eq_ok {a b c : Nat} : mulU64 a b = .ok c ↔ a * b < 2 ^ 64 ∧ c = a * b :=
  guarded_eq_ok

/-! ## Signed words -/

def InI64 (x : Int) : Prop := -2 ^ 63 ≤ x ∧ x < 2 ^ 63

instance (x : Int) : Decidable (InI64 x) := inferInstanceAs (Decidable (_ ∧ _))

/-- The value of a signed operation whose exact result is `x`. -/
def checkI64 (x : Int) : Exec Int := if InI64 x then .ok x else panicked

theorem checkI64_eq_ok {x y : Int} : checkI64 x = .ok y ↔ InI64 x ∧ y = x :=
  guarded_eq_ok

/-- `as i64` on a 64-bit word. -/
def toI64 (n : Nat) : Int := if n < 2 ^ 63 then n else (n : Int) - 2 ^ 64

/-- `as u64` on a signed word. -/
def toU64 (x : Int) : Nat := (x % 2 ^ 64).toNat

theorem toU64_lt (x : Int) : toU64 x < 2 ^ 64 := by
  unfold toU64; omega

theorem toU64_of_nonneg {x : Int} (h : 0 ≤ x) (h' : x < 2 ^ 64) : toU64 x = x.toNat := by
  unfold toU64; rw [Int.emod_eq_of_lt h h']

theorem toU64_toI64 {n : Nat} (h : n < 2 ^ 64) : toU64 (toI64 n) = n := by
  unfold toU64 toI64; split <;> omega

theorem inI64_toI64 {n : Nat} (h : n < 2 ^ 64) : InI64 (toI64 n) := by
  unfold InI64 toI64; split <;> omega

/-! ## With and without overflow checks

A build may switch the checks off; arithmetic then wraps around. -/

inductive OverflowChecks where
  | on
  | off
  deriving DecidableEq, Repr

namespace OverflowChecks

def addU64 : OverflowChecks → Nat → Nat → Exec Nat
  | on, a, b => Theory.addU64 a b
  | off, a, b => .ok ((a + b) % 2 ^ 64)

def subU64 : OverflowChecks → Nat → Nat → Exec Nat
  | on, a, b => Theory.subU64 a b
  | off, a, b => .ok ((a + 2 ^ 64 - b) % 2 ^ 64)

def mulU64 : OverflowChecks → Nat → Nat → Exec Nat
  | on, a, b => Theory.mulU64 a b
  | off, a, b => .ok ((a * b) % 2 ^ 64)

/-- The value of a signed operation whose exact result is `x`. -/
def i64 : OverflowChecks → Int → Exec Int
  | on, x => checkI64 x
  | off, x => .ok (toI64 (toU64 x))

/-- The word of some bits whose exact value is `n`. -/
def word (bits n : Nat) : OverflowChecks → Exec Nat
  | on => if n < 2 ^ bits then .ok n else panicked
  | off => .ok (n % 2 ^ bits)

theorem addU64_of_lt (checks : OverflowChecks) {a b : Nat} (h : a + b < 2 ^ 64) :
    checks.addU64 a b = .ok (a + b) := by
  cases checks with
  | on => exact addU64_eq_ok.mpr ⟨h, rfl⟩
  | off => rw [addU64, Nat.mod_eq_of_lt h]

theorem subU64_of_le (checks : OverflowChecks) {a b : Nat} (h : b ≤ a) (ha : a < 2 ^ 64) :
    checks.subU64 a b = .ok (a - b) := by
  cases checks with
  | on => exact subU64_eq_ok.mpr ⟨h, rfl⟩
  | off =>
    have hsum : a + 2 ^ 64 - b = (a - b) + 2 ^ 64 := by omega
    rw [subU64, hsum, Nat.add_mod_right, Nat.mod_eq_of_lt (by omega)]

theorem i64_of_inI64 (checks : OverflowChecks) {x : Int} (h : InI64 x) : checks.i64 x = .ok x := by
  cases checks with
  | on => exact checkI64_eq_ok.mpr ⟨h, rfl⟩
  | off =>
    unfold InI64 at h
    have : toI64 (toU64 x) = x := by unfold toI64 toU64; split <;> omega
    rw [i64, this]

end OverflowChecks

/-! ## Slices -/

section Slices

variable {α : Type}

/-- `xs[i]`. -/
def getAt (xs : List α) (i : Nat) : Exec α :=
  match xs[i]? with
  | some x => .ok x
  | none => panicked

/-- `&xs[start .. stop]`. -/
def slice (xs : List α) (start stop : Nat) : Exec (List α) :=
  if start ≤ stop ∧ stop ≤ xs.length then .ok ((xs.drop start).take (stop - start)) else panicked

theorem getAt_eq_ok {xs : List α} {i : Nat} {x : α} : getAt xs i = .ok x ↔ xs[i]? = some x := by
  unfold getAt
  cases xs[i]? <;> simp

theorem slice_eq_ok {xs ys : List α} {start stop : Nat} :
    slice xs start stop = .ok ys ↔
      (start ≤ stop ∧ stop ≤ xs.length) ∧ ys = (xs.drop start).take (stop - start) :=
  guarded_eq_ok

theorem slice_length {xs ys : List α} {start stop : Nat} (h : slice xs start stop = .ok ys) :
    ys.length = stop - start := by
  obtain ⟨hb, rfl⟩ := slice_eq_ok.mp h
  simp only [List.length_take, List.length_drop]
  omega

end Slices

/-! ## How a call ends

`Ends safe x post`: `x` ends in a value with `post`, or it panics, which the assumption
`safe` excludes. It never ends in an `Err`. -/

def Ends {α : Type} (safe : Prop) (x : Exec α) (post : α → Prop) : Prop :=
  (∃ a, x = .ok a ∧ post a) ∨ (x = panicked ∧ ¬ safe)

section Ends

variable {α β : Type} {safe : Prop} {x : Exec α} {P Q : α → Prop}

theorem ends_ok {a : α} (h : P a) : Ends safe (.ok a) P := Or.inl ⟨a, rfl, h⟩

theorem ends_panicked (h : ¬ safe) : Ends safe (panicked : Exec α) P := Or.inr ⟨rfl, h⟩

theorem Ends.mono (h : Ends safe x P) (hpq : ∀ a, P a → Q a) : Ends safe x Q := by
  obtain ⟨a, ha, hp⟩ | hpanic := h
  · exact Or.inl ⟨a, ha, hpq a hp⟩
  · exact Or.inr hpanic

theorem Ends.of_ok {a : α} (h : Ends safe x P) (ha : x = .ok a) : P a := by
  obtain ⟨a', rfl, hp⟩ | ⟨rfl, -⟩ := h
  · cases ha
    exact hp
  · cases ha

theorem Ends.bind {f : α → Exec β} {R : β → Prop} (h : Ends safe x P)
    (hf : ∀ a, P a → Ends safe (f a) R) : Ends safe (x >>= f) R := by
  obtain ⟨a, rfl, hp⟩ | ⟨rfl, hsafe⟩ := h
  · exact hf a hp
  · exact Or.inr ⟨rfl, hsafe⟩

theorem ends_getAt {xs : List α} {i : Nat} (h : i < xs.length) :
    Ends safe (getAt xs i) (fun a => xs[i]? = some a) :=
  Or.inl ⟨xs[i], getAt_eq_ok.mpr (List.getElem?_eq_getElem h), List.getElem?_eq_getElem h⟩

theorem ends_addU64 {checks : OverflowChecks} (h : safe → checks = .off) (a b : Nat) :
    Ends safe (checks.addU64 a b) (fun _ => True) := by
  cases checks with
  | on =>
    rw [OverflowChecks.addU64, Theory.addU64]
    by_cases hsum : a + b < 2 ^ 64
    · rw [if_pos hsum]
      exact ends_ok trivial
    · rw [if_neg hsum]
      exact ends_panicked fun hs => nomatch h hs
  | off => exact ends_ok trivial

theorem ends_i64 {checks : OverflowChecks} (h : safe → checks = .off) (x : Int) :
    Ends safe (checks.i64 x) (fun y => InI64 x → y = x) := by
  by_cases hx : InI64 x
  · rw [OverflowChecks.i64_of_inI64 checks hx]
    exact ends_ok fun _ => rfl
  · cases checks with
    | on =>
      rw [OverflowChecks.i64, checkI64, if_neg hx]
      exact ends_panicked fun hs => nomatch h hs
    | off => exact ends_ok fun hx' => absurd hx' hx

end Ends

/-! ## Calls that may also end in an `Err`

`Yields safe x post`: `x` ends in a value with `post`, or it fails, which the assumption `safe`
excludes. With `safe` false it only speaks of values. -/

def Yields {α : Type} (safe : Prop) (x : Exec α) (post : α → Prop) : Prop :=
  match x with
  | .ok a => post a
  | .error _ => ¬ safe

section Yields

variable {α β : Type} {safe : Prop} {x : Exec α} {P Q : α → Prop}

theorem yields_ok {a : α} (h : P a) : Yields safe (.ok a) P := h

theorem Yields.mono (h : Yields safe x P) (hpq : ∀ a, P a → Q a) : Yields safe x Q := by
  cases x with
  | error fault => exact h
  | ok a => exact hpq a h

theorem Yields.of_ok {a : α} (h : Yields safe x P) (ha : x = .ok a) : P a := by
  subst ha
  exact h

theorem Yields.bind {f : α → Exec β} {R : β → Prop} (h : Yields safe x P)
    (hf : ∀ a, P a → Yields safe (f a) R) : Yields safe (x >>= f) R := by
  cases x with
  | error fault => exact h
  | ok a => exact hf a h

/-- The same where the first two steps are one. -/
theorem Yields.bind_bind {γ : Type} {f : α → Exec β} {g : β → Exec γ} {Q : β → Prop} {R : γ → Prop}
    (h : Yields safe (x >>= f) Q) (hg : ∀ b, Q b → Yields safe (g b) R) :
    Yields safe (x >>= fun a => f a >>= g) R := by
  rw [← bind_assoc]
  exact h.bind hg

/-- Of a call about which nothing is assumed, its value is known to be its value. -/
theorem yields_value (x : Exec α) : Yields False x (fun a => x = .ok a) := by
  cases x with
  | error fault => exact id
  | ok a => exact yields_ok rfl

theorem yields_getAt {xs : List α} {i : Nat} {a : α} (h : xs[i]? = some a) :
    Yields safe (getAt xs i) (· = a) := by
  rw [getAt_eq_ok.mpr h]
  exact yields_ok rfl

/-- In both builds the word of the sum. -/
theorem yields_addU64 {checks : OverflowChecks} (h : safe → checks = .off) (a b : Nat) :
    Yields safe (checks.addU64 a b) (· = (a + b) % 2 ^ 64) := by
  cases checks with
  | on =>
    rw [OverflowChecks.addU64, Theory.addU64]
    by_cases hsum : a + b < 2 ^ 64
    · rw [if_pos hsum]
      exact yields_ok (Nat.mod_eq_of_lt hsum).symm
    · rw [if_neg hsum]
      exact fun hs => absurd (h hs) (by decide)
  | off => exact yields_ok rfl

end Yields

/-! ## Calls without a panic

A call that ends in a value or in an `Err`. What excludes a panic is read off the call, one
step at a time. -/

def NoPanic {α : Type} (x : Exec α) : Prop := x ≠ panicked

section NoPanic

variable {α β : Type} {x y : Exec α}

@[simp] theorem noPanic_ok (a : α) : NoPanic (.ok a : Exec α) := (panicked_ne_ok a).symm

@[simp] theorem noPanic_fail (text : String) : NoPanic (fail text : Exec α) := by
  simp [NoPanic, fail, panicked]

@[simp] theorem not_noPanic_panicked : ¬ NoPanic (panicked : Exec α) := fun h => h rfl

theorem noPanic_bind {f : α → Exec β} :
    NoPanic (x >>= f) ↔ NoPanic x ∧ ∀ a, x = .ok a → NoPanic (f a) := by
  cases x with
  | ok a =>
    rw [ok_bind]
    refine ⟨fun h => ⟨noPanic_ok a, fun a' ha => ?_⟩, fun h => h.2 a rfl⟩
    cases ha
    exact h
  | error fault =>
    have hsame : (Except.error fault >>= f : Exec β) = .error fault := rfl
    rw [hsame]
    simp [NoPanic, panicked]

theorem noPanic_ite {c : Prop} [Decidable c] :
    NoPanic (if c then x else y) ↔ (c → NoPanic x) ∧ (¬ c → NoPanic y) := by
  by_cases hc : c
  · simp [hc]
  · simp [hc]

/-- A guarded value is one exactly when the check passes. -/
theorem noPanic_guarded {c : Prop} [Decidable c] {a : α} :
    NoPanic (if c then (.ok a : Exec α) else panicked) ↔ c := by
  rw [noPanic_ite]
  exact ⟨fun h => by_contra fun hc => not_noPanic_panicked (h.2 hc),
    fun hc => ⟨fun _ => noPanic_ok a, fun h => absurd hc h⟩⟩

theorem noPanic_addU64 {a b : Nat} : NoPanic (addU64 a b) ↔ a + b < 2 ^ 64 := noPanic_guarded

theorem noPanic_checkI64 {x : Int} : NoPanic (checkI64 x) ↔ InI64 x := noPanic_guarded

theorem noPanic_slice {xs : List α} {start stop : Nat} :
    NoPanic (slice xs start stop) ↔ start ≤ stop ∧ stop ≤ xs.length := noPanic_guarded

theorem noPanic_getAt {xs : List α} {i : Nat} : NoPanic (getAt xs i) ↔ i < xs.length := by
  unfold getAt
  by_cases hi : i < xs.length
  · rw [List.getElem?_eq_getElem hi]
    exact iff_of_true (noPanic_ok _) hi
  · rw [List.getElem?_eq_none (Nat.not_lt.mp hi)]
    exact iff_of_false not_noPanic_panicked hi

end NoPanic

/-! ### What holds behind a call

`Safely x post`: `x` does not panic, and a value it ends in has `post`. Read from the end of a
call to its start, it is what the call asks of its arguments. -/

def Safely {α : Type} (x : Exec α) (post : α → Prop) : Prop :=
  NoPanic x ∧ ∀ a, x = .ok a → post a

/-- A value, or a panic where there is none. -/
def orPanic {α : Type} : Option α → Exec α
  | some a => .ok a
  | none => panicked

theorem orPanic_eq_ok {α : Type} {o : Option α} {a : α} : orPanic o = .ok a ↔ o = some a := by
  cases o <;> simp [orPanic]

theorem noPanic_orPanic_bind {α β : Type} {o : Option α} {y : Exec β} :
    NoPanic (orPanic o >>= fun _ => y) ↔ (∃ a, o = some a) ∧ NoPanic y := by
  cases o with
  | none => exact iff_of_false not_noPanic_panicked (by simp)
  | some a => simp [orPanic]

section Safely

variable {α β : Type} {x y : Exec α} {P Q : α → Prop}

theorem safely_true : (Safely x fun _ => True) ↔ NoPanic x :=
  and_iff_left fun _ _ => trivial

theorem safely_ok {a : α} : Safely (.ok a) P ↔ P a := by
  refine ⟨fun h => h.2 a rfl, fun h => ⟨noPanic_ok a, fun a' ha => ?_⟩⟩
  cases ha
  exact h

theorem safely_fail (text : String) : Safely (fail text) P :=
  ⟨noPanic_fail text, fun a h => absurd h (fail_ne_ok text a)⟩

theorem not_safely_panicked : ¬ Safely (panicked : Exec α) P := fun h => not_noPanic_panicked h.1

theorem safely_bind {f : α → Exec β} {R : β → Prop} :
    Safely (x >>= f) R ↔ Safely x fun a => Safely (f a) R := by
  unfold Safely
  rw [noPanic_bind]
  constructor
  · rintro ⟨⟨hx, hf⟩, hpost⟩
    exact ⟨hx, fun a ha => ⟨hf a ha, fun b hb => hpost b (bind_eq_ok.mpr ⟨a, ha, hb⟩)⟩⟩
  · rintro ⟨hx, hf⟩
    refine ⟨⟨hx, fun a ha => (hf a ha).1⟩, fun b hb => ?_⟩
    obtain ⟨a, ha, hb⟩ := bind_eq_ok.mp hb
    exact (hf a ha).2 b hb

theorem safely_congr (h : ∀ a, P a ↔ Q a) : Safely x P ↔ Safely x Q := by
  rw [funext fun a => propext (h a)]

theorem safely_ite {c : Prop} [Decidable c] :
    Safely (if c then x else y) P ↔ (c → Safely x P) ∧ (¬ c → Safely y P) := by
  by_cases hc : c
  · simp [hc]
  · simp [hc]

/-- Of a call that never panics only its value is asked. -/
theorem safely_of_noPanic (h : NoPanic x) : Safely x P ↔ ∀ a, x = .ok a → P a :=
  and_iff_right h

theorem safely_guarded {c : Prop} [Decidable c] {a : α} :
    Safely (if c then .ok a else panicked) P ↔ c ∧ P a := by
  rw [safely_ite]
  refine ⟨fun h => ?_, fun ⟨hc, ha⟩ => ⟨fun _ => safely_ok.mpr ha, fun hn => absurd hc hn⟩⟩
  have hc : c := by_contra fun hn => not_safely_panicked (h.2 hn)
  exact ⟨hc, safely_ok.mp (h.1 hc)⟩

/-- A check that ends the call with an error. -/
theorem safely_refuse {c : Prop} [Decidable c] {text : String} {f : α → Exec β}
    {z : Exec β} {R : β → Prop} :
    Safely (if c then fail text >>= f else z) R ↔ (¬ c → Safely z R) := by
  rw [safely_ite]
  exact and_iff_right fun _ => safely_bind.mpr (safely_fail text)

theorem noPanic_refuse {c : Prop} [Decidable c] {text : String} {f : α → Exec β}
    {z : Exec β} (h : ¬ c → NoPanic z) : NoPanic (if c then fail text >>= f else z) := by
  rw [← safely_true, safely_refuse]
  exact fun hc => safely_true.mpr (h hc)

theorem safely_orPanic {o : Option α} : Safely (orPanic o) P ↔ ∃ a, o = some a ∧ P a := by
  cases o with
  | none => simp [orPanic, not_safely_panicked]
  | some a => simp [orPanic, safely_ok]

/-- A search in front of a call: where nothing is found the call has its property. -/
theorem safely_found {x : Exec (Option α)} {f : Option α → Exec β} {R : β → Prop}
    (hnone : Safely (f none) R) :
    Safely (x >>= f) R ↔ NoPanic x ∧ ∀ a, x = .ok (some a) → Safely (f (some a)) R := by
  rw [safely_bind, Safely, Option.forall]
  exact and_congr_right fun _ => and_iff_right fun _ => hnone

theorem safely_getAt {xs : List α} {i : Nat} :
    Safely (getAt xs i) P ↔ ∃ a, xs[i]? = some a ∧ P a :=
  safely_orPanic

end Safely

namespace OverflowChecks

/-! ### Words with a property

The result of an operation is the exact one, or what of it is a word. -/

def Within (bits n : Nat) (P : Nat → Prop) : OverflowChecks → Prop
  | on => n < 2 ^ bits ∧ P n
  | off => P (n % 2 ^ bits)

/-- The same of a difference. -/
def Less (a b : Nat) (P : Nat → Prop) : OverflowChecks → Prop
  | on => b ≤ a ∧ P (a - b)
  | off => P ((a + 2 ^ 64 - b) % 2 ^ 64)

variable {checks : OverflowChecks} {a b n bits : Nat} {P Q : Nat → Prop}

theorem within_congr (h : ∀ m, P m ↔ Q m) : checks.Within bits n P ↔ checks.Within bits n Q := by
  rw [funext fun m => propext (h m)]

theorem within_true : (checks.Within bits n fun _ => True) ↔ (checks = .on → n < 2 ^ bits) := by
  cases checks with
  | on => simp [Within]
  | off => simp [Within]

theorem safely_word : Safely (checks.word bits n) P ↔ checks.Within bits n P := by
  cases checks with
  | on => exact safely_guarded
  | off => exact safely_ok

theorem safely_addU64 : Safely (checks.addU64 a b) P ↔ checks.Within 64 (a + b) P := by
  cases checks with
  | on => exact safely_guarded
  | off => exact safely_ok

theorem safely_mulU64 : Safely (checks.mulU64 a b) P ↔ checks.Within 64 (a * b) P := by
  cases checks with
  | on => exact safely_guarded
  | off => exact safely_ok

theorem safely_subU64 : Safely (checks.subU64 a b) P ↔ checks.Less a b P := by
  cases checks with
  | on => exact safely_guarded
  | off => exact safely_ok

end OverflowChecks

theorem safely_addU64 {a b : Nat} {P : Nat → Prop} :
    Safely (addU64 a b) P ↔ a + b < 2 ^ 64 ∧ P (a + b) := safely_guarded

theorem safely_subU64 {a b : Nat} {P : Nat → Prop} :
    Safely (subU64 a b) P ↔ b ≤ a ∧ P (a - b) := safely_guarded

theorem safely_checkI64 {x : Int} {P : Int → Prop} :
    Safely (checkI64 x) P ↔ InI64 x ∧ P x := safely_guarded

end OneCollect.Theory
