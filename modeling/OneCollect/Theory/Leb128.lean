import Mathlib.Algebra.Order.Ring.Int

/-! LEB128 numbers: seven bits a byte, lowest first, the top bit set on all bytes but the last.

`uleb` and `sleb` are the numbers, of any length, with the bytes they take; `toUleb` writes a
number, and `uleb_toUleb` reads it back. In a word of 64 bits the parts are put together with `or`
and shifts (`word_cons`, `word_last`). -/

namespace OneCollect.Theory

/-- The unsigned number at the start, and how many bytes it takes. -/
def uleb : List UInt8 → Option (Nat × Nat)
  | [] => none
  | byte :: bytes =>
    if byte.toNat < 128 then some (byte.toNat, 1)
    else (uleb bytes).map fun (n, len) => (byte.toNat % 128 + 128 * n, len + 1)

/-- The signed number: bit 6 of the last byte is its sign. -/
def sleb : List UInt8 → Option (Int × Nat)
  | [] => none
  | byte :: bytes =>
    if byte.toNat < 64 then some (byte.toNat, 1)
    else if byte.toNat < 128 then some ((byte.toNat : Int) - 128, 1)
    else (sleb bytes).map fun (n, len) => ((byte.toNat % 128 : Nat) + 128 * n, len + 1)

example : uleb [0xe5, 0x8e, 0x26, 0xff] = some (624485, 3) := by decide

example : sleb [0xc0, 0xbb, 0x78] = some (-123456, 3) := by decide

/-- What follows a number is not read. -/
theorem uleb_append {bytes : List UInt8} {read : Nat × Nat} (h : uleb bytes = some read)
    (rest : List UInt8) : uleb (bytes ++ rest) = some read := by
  induction bytes generalizing read with
  | nil => cases h
  | cons byte bytes ih =>
    rw [uleb] at h
    rw [List.cons_append, uleb]
    by_cases hlast : byte.toNat < 128
    · rw [if_pos hlast] at h ⊢
      exact h
    · rw [if_neg hlast] at h ⊢
      obtain ⟨read', hread, rfl⟩ := Option.map_eq_some_iff.mp h
      rw [ih hread, Option.map_some]

theorem length_pos_of_uleb {bytes : List UInt8} {n len : Nat} (h : uleb bytes = some (n, len)) :
    0 < len := by
  cases bytes with
  | nil => cases h
  | cons byte bytes =>
    unfold uleb at h
    split at h
    · cases h
      exact Nat.one_pos
    · obtain ⟨read, -, heq⟩ := Option.map_eq_some_iff.mp h
      cases heq
      exact Nat.succ_pos _

theorem sleb_append {bytes : List UInt8} {read : Int × Nat} (h : sleb bytes = some read)
    (rest : List UInt8) : sleb (bytes ++ rest) = some read := by
  induction bytes generalizing read with
  | nil => cases h
  | cons byte bytes ih =>
    rw [sleb] at h
    rw [List.cons_append, sleb]
    by_cases hpos : byte.toNat < 64
    · rw [if_pos hpos] at h ⊢
      exact h
    · rw [if_neg hpos] at h ⊢
      by_cases hlast : byte.toNat < 128
      · rw [if_pos hlast] at h ⊢
        exact h
      · rw [if_neg hlast] at h ⊢
        obtain ⟨read', hread, rfl⟩ := Option.map_eq_some_iff.mp h
        rw [ih hread, Option.map_some]

/-! ## Writing -/

/-- The bytes of a number, at most `fuel` of them before the last. -/
def ulebBytes : (fuel n : Nat) → List UInt8
  | 0, n => [UInt8.ofNat n]
  | fuel + 1, n =>
    if n < 128 then [UInt8.ofNat n]
    else UInt8.ofNat (n % 128 + 128) :: ulebBytes fuel (n / 128)

def toUleb (n : Nat) : List UInt8 := ulebBytes n n

example : toUleb 624485 = [0xe5, 0x8e, 0x26] := by decide

theorem toNat_ofNat_of_lt {n : Nat} (h : n < 256) : (UInt8.ofNat n).toNat = n := by
  rw [UInt8.toNat_ofNat']
  omega

theorem uleb_ulebBytes {fuel n : Nat} (h : n ≤ fuel) (rest : List UInt8) :
    uleb (ulebBytes fuel n ++ rest) = some (n, (ulebBytes fuel n).length) := by
  induction fuel generalizing n with
  | zero =>
    obtain rfl := Nat.le_zero.mp h
    rfl
  | succ fuel ih =>
    rw [ulebBytes]
    by_cases hlast : n < 128
    · have hbyte : (UInt8.ofNat n).toNat = n := toNat_ofNat_of_lt (by omega)
      rw [if_pos hlast, List.singleton_append, uleb, hbyte, if_pos hlast]
      rfl
    · have hbyte : (UInt8.ofNat (n % 128 + 128)).toNat = n % 128 + 128 :=
        toNat_ofNat_of_lt (by omega)
      rw [if_neg hlast, List.cons_append, uleb, hbyte, if_neg (by omega), ih (by omega)]
      simp only [Option.map_some, Option.some.injEq, Prod.mk.injEq, List.length_cons, and_true]
      omega

/-- A number is read back, whatever follows it. -/
theorem uleb_toUleb (n : Nat) (rest : List UInt8) :
    uleb (toUleb n ++ rest) = some (n, (toUleb n).length) :=
  uleb_ulebBytes (le_refl n) rest

theorem length_ulebBytes_le {k : Nat} (hk : 0 < k) (fuel : Nat) {n : Nat} (h : n < 128 ^ k) :
    (ulebBytes fuel n).length ≤ k := by
  induction fuel generalizing n k with
  | zero => exact hk
  | succ fuel ih =>
    rw [ulebBytes]
    by_cases hlast : n < 128
    · rw [if_pos hlast]
      exact hk
    · rw [if_neg hlast, List.length_cons]
      obtain ⟨k, rfl⟩ := Nat.exists_eq_succ_of_ne_zero (Nat.ne_of_gt hk)
      have hpos : 0 < k := by
        refine Nat.pos_of_ne_zero ?_
        rintro rfl
        exact hlast (lt_of_lt_of_eq h (by decide))
      have hdiv : n / 128 < 128 ^ k := by
        rw [Nat.div_lt_iff_lt_mul (by decide), ← Nat.pow_succ]
        exact h
      exact Nat.succ_le_succ (ih hpos hdiv)

/-- A number below `128 ^ k` takes `k` bytes at most. -/
theorem length_toUleb_le {k : Nat} (hk : 0 < k) {n : Nat} (h : n < 128 ^ k) :
    (toUleb n).length ≤ k :=
  length_ulebBytes_le hk n h

/-! ## Words -/

theorem neg_one_shiftLeft (n : Nat) :
    (BitVec.ofInt 64 (-1)) <<< n = -((1 : BitVec 64) <<< n) := by
  rw [BitVec.shiftLeft_eq_mul_twoPow, BitVec.shiftLeft_eq_mul_twoPow]
  have hone : BitVec.ofInt 64 (-1) = -1 := by decide
  rw [hone, BitVec.neg_mul]

/-- One part in front of a number. -/
theorem word_cons {low : Nat} (h : low < 128) (n : Int) :
    BitVec.ofNat 64 low ||| (BitVec.ofInt 64 n <<< 7) = BitVec.ofInt 64 (low + 128 * n) := by
  have hand : BitVec.ofNat 64 low &&& (BitVec.ofInt 64 n <<< 7) = 0 := by
    refine BitVec.eq_of_getLsbD_eq fun i hi => ?_
    by_cases hle : 7 ≤ i
    · have hpow : 2 ^ 7 ≤ 2 ^ i := Nat.pow_le_pow_right (by decide) hle
      have hlow : low.testBit i = false := Nat.testBit_lt_two_pow (Nat.lt_of_lt_of_le h hpow)
      simp [BitVec.getLsbD_ofNat, hlow]
    · simp [hle]
  have hshift : BitVec.ofInt 64 n <<< 7 = BitVec.ofInt 64 (128 * n) := by
    rw [BitVec.shiftLeft_eq_mul_twoPow, BitVec.ofInt_mul, BitVec.mul_comm]
    rfl
  have hnat : BitVec.ofNat 64 low = BitVec.ofInt 64 low := by
    rw [BitVec.ofInt_natCast]
  rw [← BitVec.add_eq_or_of_and_eq_zero _ _ hand, hshift, hnat, ← BitVec.ofInt_add]

/-- The last part of a number with its sign spread above it. -/
theorem word_last {low : Nat} (h : low < 128) (bit : Nat) :
    (BitVec.ofNat 64 low <<< bit) ||| -((1 : BitVec 64) <<< (bit + 7)) =
      BitVec.ofInt 64 (low - 128) <<< bit := by
  have hcons := word_cons h (-1)
  rw [show (low : Int) + 128 * -1 = low - 128 by omega] at hcons
  rw [← hcons, BitVec.shiftLeft_or_distrib, ← BitVec.shiftLeft_add, Nat.add_comm 7 bit,
    neg_one_shiftLeft]

/-- Above bit 57 the sign is shifted out. -/
theorem word_last_of_le {low : Nat} (h : low < 128) {bit : Nat} (hbit : 64 ≤ bit + 7) :
    BitVec.ofNat 64 low <<< bit = BitVec.ofInt 64 (low - 128) <<< bit := by
  have hzero : (1 : BitVec 64) <<< (bit + 7) = 0 := BitVec.shiftLeft_eq_zero hbit
  rw [← word_last h bit, hzero]
  simp

/-- A number that fits in the word is read as it is. -/
theorem toInt_ofInt_of_inRange {n : Int} (h : -2 ^ 63 ≤ n) (h' : n < 2 ^ 63) :
    (BitVec.ofInt 64 n).toInt = n := by
  rw [BitVec.toInt_ofInt]
  exact Int.bmod_eq_of_le (by omega) (by omega)

end OneCollect.Theory
