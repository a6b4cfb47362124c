import OneCollect.Ruwind.Operands

/-! Fields and encoded pointers between other bytes, and when the readers of `dwarf.rs` read them.

A pointer is a number in the format of its encoding (`rawOf`). The code reads it in full where the
format has a width of its own and the sums fit (`valueOperand_of_fits`, `fits_of_valueOperand`); a
pointer of the machine has no bytes for it (`valueOperand_of_pointer`). -/

namespace OneCollect.Ruwind
open Theory CallFrame

/-! ## Fields at a position -/

section Fields

variable {before bytes after : Bytes}

theorem byteAt_append (byte : UInt8) :
    byteAt (before ++ byte :: after) before.length = some (byte, before.length + 1) := by
  simp [byteAt]

theorem wordAt_append {width : Nat} (h : bytes.length = width) :
    wordAt (before ++ bytes ++ after) width before.length =
      some (fromLe bytes, before.length + width) := by
  rw [wordAt, if_pos (by simp [h]), List.append_assoc, List.drop_left, ← h, List.take_left]

theorem ulebAt_append {n : Nat} (h : uleb bytes = some (n, bytes.length)) :
    ulebAt (before ++ bytes ++ after) before.length = some (n, before.length + bytes.length) := by
  rw [ulebAt, List.append_assoc, List.drop_left, uleb_append h after]
  rfl

theorem slebAt_append {n : Int} (h : sleb bytes = some (n, bytes.length)) :
    slebAt (before ++ bytes ++ after) before.length = some (n, before.length + bytes.length) := by
  rw [slebAt, List.append_assoc, List.drop_left, sleb_append h after]
  rfl

theorem ulebOperand_append {n : Nat} (h : uleb bytes = some (n, bytes.length)) :
    ulebOperand (before ++ bytes ++ after) before.length =
      if bytes.length ≤ 10 then some (wrap n, before.length + bytes.length) else none := by
  rw [ulebOperand, ulebAt_append h, Option.bind_some]
  by_cases hlen : bytes.length ≤ 10
  · rw [if_pos hlen]
    exact if_pos (Nat.add_le_add_left hlen _)
  · rw [if_neg hlen]
    exact if_neg (by omega)

/-- How long a signed number may be for the code to read it. -/
def SlebFits (bytes : Bytes) (n : Int) : Prop := bytes.length ≤ 10 ∧ ¬ (bytes.length = 9 ∧ n < 0)

instance (bytes : Bytes) (n : Int) : Decidable (SlebFits bytes n) :=
  inferInstanceAs (Decidable (_ ∧ _))

theorem slebOperand_append {n : Int} (h : sleb bytes = some (n, bytes.length)) :
    slebOperand (before ++ bytes ++ after) before.length =
      if SlebFits bytes n then some (wrap n, before.length + bytes.length) else none := by
  rw [slebOperand, slebAt_append h, Option.bind_some]
  by_cases hfits : SlebFits bytes n
  · rw [if_pos hfits]
    unfold SlebFits at hfits
    exact if_pos (by omega)
  · rw [if_neg hfits]
    unfold SlebFits at hfits
    exact if_neg (by omega)

end Fields

/-! ## Encoded pointers -/

def wordOf (width : Nat) (value : Nat → Int) (bytes : Bytes) : Option Int :=
  if bytes.length = width then some (value (fromLe bytes)) else none

/-- The number in a format; format 0 is a pointer of the machine. -/
def formatRaw (format : Nat) (bytes : Bytes) : Option Int :=
  match format with
  | 0x00 | 0x04 => wordOf 8 (fun n => n) bytes
  | 0x01 => (uleb bytes).bind fun (n, len) => if len = bytes.length then some (n : Int) else none
  | 0x02 => wordOf 2 (fun n => n) bytes
  | 0x03 => wordOf 4 (fun n => n) bytes
  | 0x09 => (sleb bytes).bind fun (n, len) => if len = bytes.length then some n else none
  | 0x0a => wordOf 2 (signed 16) bytes
  | 0x0b => wordOf 4 (signed 32) bytes
  | 0x0c => wordOf 8 (signed 64) bytes
  | _ => none

/-- Numbers that the code can read: a LEB128 number has at most ten bytes. -/
def FormatFits (format : Nat) (bytes : Bytes) (raw : Int) : Prop :=
  (format = 0x01 → bytes.length ≤ 10) ∧ (format = 0x09 → SlebFits bytes raw)

instance (format : Nat) (bytes : Bytes) (raw : Int) : Decidable (FormatFits format bytes raw) :=
  inferInstanceAs (Decidable (_ ∧ _))

theorem wrap_natCast {n : Nat} (h : n < 2 ^ 64) : wrap n = toI64 n := by
  rw [wrap, BitVec.toInt_ofInt, Int.bmod_def, toI64]
  split <;> split <;> omega

theorem wrap_of_inI64 {n : Int} (h : InI64 n) : wrap n = n := toInt_ofInt_of_inRange h.1 h.2

theorem wordOf_eq_some {width : Nat} {value : Nat → Int} {bytes : Bytes} {raw : Int}
    (h : wordOf width value bytes = some raw) :
    bytes.length = width ∧ raw = value (fromLe bytes) ∧ fromLe bytes < 256 ^ width := by
  unfold wordOf at h
  by_cases hlen : bytes.length = width
  · rw [if_pos hlen] at h
    exact ⟨hlen, (Option.some.inj h).symm, hlen ▸ fromLe_lt bytes⟩
  · rw [if_neg hlen] at h
    cases h

theorem formatRaw_uleb {bytes : Bytes} {raw : Int} (h : formatRaw 0x01 bytes = some raw) :
    ∃ n : Nat, uleb bytes = some (n, bytes.length) ∧ raw = n := by
  obtain ⟨⟨n, len⟩, hread, h⟩ := Option.bind_eq_some_iff.mp h
  dsimp only at h
  by_cases hlen : len = bytes.length
  · rw [if_pos hlen] at h
    cases h
    exact ⟨n, hlen ▸ hread, rfl⟩
  · rw [if_neg hlen] at h
    cases h

theorem formatRaw_sleb {bytes : Bytes} {raw : Int} (h : formatRaw 0x09 bytes = some raw) :
    sleb bytes = some (raw, bytes.length) := by
  obtain ⟨⟨n, len⟩, hread, h⟩ := Option.bind_eq_some_iff.mp h
  dsimp only at h
  by_cases hlen : len = bytes.length
  · rw [if_pos hlen] at h
    cases h
    exact hlen ▸ hread
  · rw [if_neg hlen] at h
    cases h

/-- Outside of format 0 the code reads a number that it can hold, in full. -/
theorem formatOperand_append {format : Nat} {before bytes after : Bytes} {raw : Int}
    (h : formatRaw format bytes = some raw) (hformat : format ≠ 0) :
    formatOperand (before ++ bytes ++ after) before.length format =
      if FormatFits format bytes raw then some (wrap raw, before.length + bytes.length)
      else none := by
  -- a word always fits
  have hword {width : Nat} {value code : Nat → Int} (hraw : wordOf width value bytes = some raw)
      (hcode : ∀ n < 256 ^ width, code n = wrap (value n)) (h1 : format ≠ 0x01)
      (h9 : format ≠ 0x09) :
      ((wordAt (before ++ bytes ++ after) width before.length).map fun (n, next) => (code n, next)) =
        if FormatFits format bytes raw then some (wrap raw, before.length + bytes.length)
        else none := by
    obtain ⟨hlen, rfl, hlt⟩ := wordOf_eq_some hraw
    rw [wordAt_append hlen, Option.map_some,
      if_pos ⟨fun h => absurd h h1, fun h => absurd h h9⟩]
    dsimp only
    rw [hcode _ hlt, hlen]
  have hsmall {n : Int} (hlow : -2 ^ 32 ≤ n) (hhigh : n < 2 ^ 32) : n = wrap n :=
    (wrap_of_inI64 (by unfold InI64; omega)).symm
  have hsigned {n : Nat} (h : n < 256 ^ 8) : toI64 n = wrap (signed 64 n) :=
    (wrap_of_inI64 (inI64_toI64 h)).symm
  unfold formatRaw at h
  split at h
  · exact absurd rfl hformat
  · exact hword h (fun n hn => (wrap_natCast hn).symm) (by decide) (by decide)
  · obtain ⟨n, hread, rfl⟩ := formatRaw_uleb h
    have hfits : FormatFits 0x01 bytes n ↔ bytes.length ≤ 10 :=
      ⟨fun h => h.1 rfl, fun h => ⟨fun _ => h, fun h => absurd h (by decide)⟩⟩
    exact (ulebOperand_append hread).trans (if_congr hfits.symm rfl rfl)
  · exact hword h (fun n hn => hsmall (by omega) (by omega)) (by decide) (by decide)
  · exact hword h (fun n hn => hsmall (by omega) (by omega)) (by decide) (by decide)
  · have hread := formatRaw_sleb h
    have hfits : FormatFits 0x09 bytes raw ↔ SlebFits bytes raw :=
      ⟨fun h => h.2 rfl, fun h => ⟨fun h => absurd h (by decide), fun _ => h⟩⟩
    exact (slebOperand_append hread).trans (if_congr hfits.symm rfl rfl)
  · refine hword h (fun n hn => hsmall ?_ ?_) (by decide) (by decide)
    · unfold signed; split <;> omega
    · unfold signed; split <;> omega
  · refine hword h (fun n hn => hsmall ?_ ?_) (by decide) (by decide)
    · unfold signed; split <;> omega
    · unfold signed; split <;> omega
  · exact hword h (fun n hn => hsigned hn) (by decide) (by decide)
  · cases h

def DW_EH_PE_ALIGNED : UInt8 := 0x50

def formatOf (enc : UInt8) : Nat := (enc &&& DW_EH_PE_FORMAT_MASK).toNat

/-- The application of an encoding; from `0x80` on the pointer is stored at the address. -/
def applicationOf (enc : UInt8) : Nat := (enc &&& DW_EH_PE_APPL_MASK).toNat

/-- The number of an encoded pointer; an aligned one has up to seven zero bytes before it. -/
def rawOf (enc : UInt8) (bytes : Bytes) : Option Int :=
  if enc = DW_EH_PE_ALIGNED then
    if 8 ≤ bytes.length ∧ bytes.length < 16 ∧ fromLe (bytes.take (bytes.length - 8)) = 0 then
      some (fromLe (bytes.drop (bytes.length - 8)) : Nat)
    else none
  else if applicationOf enc % 0x80 ≤ 0x40 then formatRaw (formatOf enc) bytes
  else none

/-- A pointer in a format with a width of its own, whose number and sums the code can hold. -/
structure PointerFits (enc : UInt8) (base : Int) (cursor : Nat) (bytes : Bytes) (raw : Int) :
    Prop where
  format : formatOf enc ≠ 0
  number : FormatFits (formatOf enc) bytes raw
  sums : OriginFits enc base cursor (wrap raw)

section Pointers

variable {enc : UInt8} {base : Int} {before bytes after slice : Bytes} {raw : Int} {cursor : Nat}

theorem formatRaw_of_rawOf (h : rawOf enc bytes = some raw) (hformat : formatOf enc ≠ 0) :
    formatRaw (formatOf enc) bytes = some raw := by
  have hne : enc ≠ DW_EH_PE_ALIGNED := by
    rintro rfl
    exact hformat rfl
  rw [rawOf, if_neg hne] at h
  by_cases happ : applicationOf enc % 0x80 ≤ 0x40
  · rwa [if_pos happ] at h
  · rw [if_neg happ] at h
    cases h

theorem application_of_rawOf (h : rawOf enc bytes = some raw) (hformat : formatOf enc ≠ 0) :
    applicationOf enc % 0x80 ≤ 0x40 := by
  unfold rawOf at h
  split at h
  · next haligned =>
    rw [haligned] at hformat
    exact absurd rfl hformat
  · split at h
    · assumption
    · cases h

theorem applicationOf_mod (enc : UInt8) : applicationOf enc % 16 = 0 := by
  have hmask : ∀ n < 256, (n &&& 0xF0) % 16 = 0 := by decide +kernel
  rw [applicationOf, UInt8.toNat_and]
  exact hmask enc.toNat enc.toNat_lt

theorem valueOperand_of_fits (hraw : formatRaw (formatOf enc) bytes = some raw)
    (hfits : PointerFits enc base before.length bytes raw) :
    valueOperand enc base (before ++ bytes ++ after) before.length =
      some (wrap raw + origin enc base before.length, before.length + bytes.length) := by
  unfold valueOperand
  rw [← formatOf, formatOperand_append hraw hfits.format, if_pos hfits.number]
  exact if_pos hfits.sums

/-- A format without a width is read as 0, and no byte of it. -/
theorem valueOperand_of_pointer (hformat : formatOf enc = 0) {n : Int} {next : Nat}
    (h : valueOperand enc base slice cursor = some (n, next)) :
    n = origin enc base cursor ∧ next = cursor := by
  unfold valueOperand at h
  rw [← formatOf, hformat] at h
  change (if OriginFits enc base cursor 0 then some (0 + origin enc base cursor, cursor) else none) =
    some (n, next) at h
  by_cases hsums : OriginFits enc base cursor 0
  · rw [if_pos hsums] at h
    cases h
    exact ⟨Int.zero_add _, rfl⟩
  · rw [if_neg hsums] at h
    cases h

/-- What is read in a format with a width fits. -/
theorem fits_of_valueOperand (hread : formatRaw (formatOf enc) bytes = some raw)
    (hformat : formatOf enc ≠ 0)
    {n : Int} {next : Nat}
    (h : valueOperand enc base (before ++ bytes ++ after) before.length = some (n, next)) :
    PointerFits enc base before.length bytes raw := by
  unfold valueOperand at h
  rw [← formatOf, formatOperand_append hread hformat] at h
  by_cases hnumber : FormatFits (formatOf enc) bytes raw
  · rw [if_pos hnumber] at h
    by_cases hsums : OriginFits enc base before.length (wrap raw)
    · exact ⟨hformat, hnumber, hsums⟩
    · dsimp only [Option.bind_some] at h
      rw [if_neg hsums] at h
      cases h
  · rw [if_neg hnumber] at h
    cases h

/-- A pointer whose number is 0 consists of zero bytes. -/
theorem zero_of_pointer (h : rawOf enc bytes = some raw) (hformat : formatOf enc = 0)
    (hraw : raw % 2 ^ 64 = 0) : fromLe bytes = 0 := by
  unfold rawOf at h
  split at h
  · split at h
    · next hlen =>
      cases h
      have hlow := fromLe_lt (bytes.drop (bytes.length - 8))
      have hwidth : (bytes.drop (bytes.length - 8)).length = 8 := by
        rw [List.length_drop]
        omega
      rw [hwidth] at hlow
      have hdrop : fromLe (bytes.drop (bytes.length - 8)) = 0 := by omega
      have hsplit := fromLe_append (bytes.take (bytes.length - 8)) (bytes.drop (bytes.length - 8))
      rw [List.take_append_drop, hlen.2.2, hdrop] at hsplit
      rw [hsplit, Nat.mul_zero]
    · cases h
  · split at h
    · rw [hformat] at h
      obtain ⟨-, hvalue, hlt⟩ := wordOf_eq_some h
      omega
    · cases h

theorem length_of_pointer (h : rawOf enc bytes = some raw) (hformat : formatOf enc = 0) :
    8 ≤ bytes.length := by
  unfold rawOf at h
  split at h
  · split at h
    · next hlen => exact hlen.1
    · cases h
  · split at h
    · rw [hformat] at h
      exact (wordOf_eq_some h).1.ge
    · cases h

end Pointers

end OneCollect.Ruwind
