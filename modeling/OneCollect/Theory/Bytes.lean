import Mathlib.Algebra.Order.Ring.Nat
import OneCollect.Theory.Checked

/-! Little-endian words: `toLe w n` writes the low `w` bytes of `n`, `fromLe` reads a word
back (`fromLe_toLe`). `readLe` is a word at a position of a byte list, and fails where the
list ends. -/

namespace OneCollect.Theory

/-- The `width` low bytes of `n`, lowest first. -/
def toLe : (width : Nat) → Nat → List UInt8
  | 0, _ => []
  | width + 1, n => UInt8.ofNat n :: toLe width (n / 256)

def fromLe : List UInt8 → Nat
  | [] => 0
  | byte :: bytes => byte.toNat + 256 * fromLe bytes

@[simp] theorem length_toLe (width n : Nat) : (toLe width n).length = width := by
  induction width generalizing n with
  | zero => rfl
  | succ width ih => simp [toLe, ih]

theorem length_flatMap_of_length {α : Type} {encode : α → List UInt8} {width : Nat}
    (h : ∀ x, (encode x).length = width) (xs : List α) :
    (xs.flatMap encode).length = xs.length * width := by
  induction xs with
  | nil => rw [List.length_nil, Nat.zero_mul]; rfl
  | cons x xs ih =>
    rw [List.flatMap_cons, List.length_append, h, ih, List.length_cons, Nat.succ_mul, Nat.add_comm]

theorem length_flatMap_toLe (width : Nat) (words : List Nat) :
    (words.flatMap (toLe width)).length = width * words.length := by
  rw [length_flatMap_of_length (length_toLe width), Nat.mul_comm]

theorem fromLe_toLe (width n : Nat) : fromLe (toLe width n) = n % 256 ^ width := by
  induction width generalizing n with
  | zero => simp [toLe, fromLe, Nat.mod_one]
  | succ width ih =>
    have hbyte : (UInt8.ofNat n).toNat = n % 256 := by simp
    rw [toLe, fromLe, ih, hbyte, Nat.pow_succ, Nat.mul_comm (256 ^ width), Nat.mod_mul]

theorem fromLe_toLe_of_lt {width n : Nat} (h : n < 256 ^ width) : fromLe (toLe width n) = n := by
  rw [fromLe_toLe, Nat.mod_eq_of_lt h]

theorem fromLe_lt (bytes : List UInt8) : fromLe bytes < 256 ^ bytes.length := by
  induction bytes with
  | nil => simp [fromLe]
  | cons byte bytes ih =>
    have hbyte : byte.toNat < 256 := byte.toNat_lt
    rw [fromLe, List.length_cons, Nat.pow_succ]
    omega

/-- As many bytes are those of their value. -/
theorem toLe_fromLe {width : Nat} {bytes : List UInt8} (h : bytes.length = width) :
    toLe width (fromLe bytes) = bytes := by
  induction width generalizing bytes with
  | zero => rw [List.length_eq_zero_iff.mp h, toLe]
  | succ width ih =>
    cases bytes with
    | nil => simp at h
    | cons byte bytes =>
      have hbyte : byte.toNat < 256 := byte.toNat_lt
      have hlow : UInt8.ofNat (byte.toNat + 256 * fromLe bytes) = byte := by
        rw [← UInt8.toNat_inj, UInt8.toNat_ofNat']
        omega
      have hhigh : (byte.toNat + 256 * fromLe bytes) / 256 = fromLe bytes := by omega
      rw [fromLe, toLe, hlow, hhigh, ih (Nat.succ.inj h)]

theorem fromLe_append (xs ys : List UInt8) :
    fromLe (xs ++ ys) = fromLe xs + 256 ^ xs.length * fromLe ys := by
  induction xs with
  | nil => simp [fromLe]
  | cons x xs ih =>
    simp only [List.cons_append, fromLe, ih, List.length_cons, Nat.pow_succ]
    have : 256 * (256 ^ xs.length * fromLe ys) = 256 ^ xs.length * 256 * fromLe ys := by
      rw [← Nat.mul_assoc, Nat.mul_comm 256]
    omega

/-- Leaving out the low bytes divides. -/
theorem fromLe_drop {k : Nat} {bytes : List UInt8} (h : k ≤ bytes.length) :
    fromLe (bytes.drop k) = fromLe bytes / 256 ^ k := by
  have hlen : (bytes.take k).length = k := by rw [List.length_take]; omega
  have hlow := fromLe_lt (bytes.take k)
  have hsplit := fromLe_append (bytes.take k) (bytes.drop k)
  rw [List.take_append_drop, hlen] at hsplit
  rw [hlen] at hlow
  rw [hsplit, Nat.add_mul_div_left _ _ (Nat.pow_pos (by decide)), Nat.div_eq_of_lt hlow,
    Nat.zero_add]

theorem toLe_zero (width : Nat) : toLe width 0 = List.replicate width 0 := by
  induction width with
  | zero => rfl
  | succ width ih => rw [toLe, Nat.zero_div, ih, List.replicate_succ]; rfl

@[simp] theorem fromLe_replicate (n : Nat) : fromLe (List.replicate n 0) = 0 := by
  induction n with
  | zero => rfl
  | succ n ih => simp [List.replicate_succ, fromLe, ih]

/-- The word of `width` bytes at `start`. -/
def readLe (width : Nat) (bytes : List UInt8) (start : Nat) : Exec Nat := do
  let word ← slice bytes start (start + width)
  .ok (fromLe word)

theorem readLe_eq_ok {width start n : Nat} {bytes : List UInt8} :
    readLe width bytes start = .ok n ↔
      start + width ≤ bytes.length ∧ n = fromLe ((bytes.drop start).take width) := by
  unfold readLe
  rw [bind_eq_ok]
  constructor
  · rintro ⟨word, hword, hn⟩
    obtain ⟨⟨-, hle⟩, rfl⟩ := slice_eq_ok.mp hword
    cases hn
    exact ⟨hle, by rw [Nat.add_sub_cancel_left]⟩
  · rintro ⟨hle, rfl⟩
    exact ⟨_, slice_eq_ok.mpr ⟨⟨Nat.le_add_right _ _, hle⟩, rfl⟩, by rw [Nat.add_sub_cancel_left]⟩

theorem readLe_lt {width start n : Nat} {bytes : List UInt8} (h : readLe width bytes start = .ok n) :
    n < 256 ^ width := by
  obtain ⟨-, rfl⟩ := readLe_eq_ok.mp h
  exact lt_of_lt_of_le (fromLe_lt _)
    (Nat.pow_le_pow_right (n := 256) (by decide) (List.length_take_le width _))

/-- The word at the end of a prefix. -/
theorem readLe_append {width n : Nat} (before word after : List UInt8) (hw : word.length = width)
    (hn : n = fromLe word) : readLe width (before ++ word ++ after) before.length = .ok n := by
  refine readLe_eq_ok.mpr ⟨by simp [hw], ?_⟩
  rw [List.append_assoc, List.drop_left, ← hw, List.take_left]
  exact hn

theorem ends_readLe {safe : Prop} {width start : Nat} {bytes : List UInt8}
    (h : start + width ≤ bytes.length) :
    Ends safe (readLe width bytes start) (fun n => n < 256 ^ width) :=
  Or.inl ⟨_, readLe_eq_ok.mpr ⟨h, rfl⟩, readLe_lt (readLe_eq_ok.mpr ⟨h, rfl⟩)⟩

end OneCollect.Theory
