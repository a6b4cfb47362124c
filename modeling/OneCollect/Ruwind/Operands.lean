import OneCollect.Ruwind.Instructions

/-! What the readers of `dwarf.rs` ask of the bytes at their cursor.

A reader does no check of its own: it returns the number at the cursor where there is one it can
hold, and panics otherwise. Each is an optional reading of the bytes (`ulebOperand`,
`slebOperand`, `wordAt`, `valueOperand`) that panics for none, so that a call that begins with it
is safe where the number is there and the rest of the call is (`safely_reads`). -/

namespace OneCollect.Ruwind
open Theory CallFrame

/-- There is a number, and what follows it is as `rest` asks. -/
def Reads {α : Type} (o : Option (α × Nat)) (rest : α → Nat → Prop) : Prop :=
  ∃ n next, o = some (n, next) ∧ rest n next

theorem safely_reads {α : Type} {o : Option (α × Nat)} {P : α × Nat → Prop} :
    Safely (orPanic o) P ↔ Reads o fun n next => P (n, next) := by
  rw [safely_orPanic, Prod.exists]
  rfl

theorem reads_congr {α : Type} {o : Option (α × Nat)} {P Q : α → Nat → Prop}
    (h : ∀ n next, o = some (n, next) → (P n next ↔ Q n next)) : Reads o P ↔ Reads o Q := by
  constructor
  · rintro ⟨n, next, ho, hp⟩
    exact ⟨n, next, ho, (h n next ho).mp hp⟩
  · rintro ⟨n, next, ho, hq⟩
    exact ⟨n, next, ho, (h n next ho).mpr hq⟩

/-! ## Bytes, words and strings -/

def byteAt (slice : Bytes) (cursor : Nat) : Option (UInt8 × Nat) :=
  slice[cursor]?.map fun byte => (byte, cursor + 1)

section Readers

variable {slice : Bytes} {cursor : Nat}

theorem readByte_eq : readByte slice cursor = orPanic (byteAt slice cursor) := by
  unfold readByte byteAt getAt
  cases slice[cursor]? <;> rfl

theorem readWord_eq (width : Nat) :
    readWord width slice cursor = orPanic (wordAt slice width cursor) := by
  unfold readWord readLe Theory.slice wordAt
  by_cases hle : cursor + width ≤ slice.length
  · rw [if_pos ⟨Nat.le_add_right _ _, hle⟩, if_pos hle, Nat.add_sub_cancel_left]
    rfl
  · rw [if_neg fun h => hle h.2, if_neg hle]
    rfl

/-- The length of the string at the cursor: it ends before the first zero byte. -/
def stringOperand (slice : Bytes) (cursor : Nat) : Option (Nat × Nat) :=
  ((slice.drop cursor).findIdx? (· == 0)).map fun len => (len, cursor + len + 1)

theorem stringLoop_eq (rest : Bytes) (pos : Nat) :
    stringLoop rest pos = orPanic ((rest.findIdx? (· == 0)).map (pos + ·)) := by
  induction rest generalizing pos with
  | nil => rfl
  | cons byte rest ih =>
    unfold stringLoop
    rw [List.findIdx?_cons]
    by_cases hzero : byte = 0
    · rw [if_neg (not_not_intro hzero), if_pos (by simp [hzero])]
      rfl
    · rw [if_pos hzero, if_neg (by simp [hzero]), ih, Option.map_map]
      congr 2
      funext len
      show pos + 1 + len = pos + (len + 1)
      omega

theorem readString_eq : readString slice cursor = orPanic (stringOperand slice cursor) := by
  unfold readString stringOperand
  rw [stringLoop_eq]
  cases (slice.drop cursor).findIdx? (· == 0) with
  | none => rfl
  | some len =>
    show (Except.ok (cursor + len - cursor, cursor + len + 1) : Exec _) = _
    rw [Nat.add_sub_cancel_left]
    rfl

/-- A string that is read lies inside its slice. -/
theorem stringOperand_le {len next : Nat} (h : stringOperand slice cursor = some (len, next)) :
    cursor + len ≤ slice.length := by
  obtain ⟨len', hfind, heq⟩ := Option.map_eq_some_iff.mp h
  cases heq
  obtain ⟨hlt, -⟩ := List.findIdx?_eq_some_iff_getElem.mp hfind
  rw [List.length_drop] at hlt
  omega

/-! ## Numbers -/

/-- An unsigned number of at most ten bytes, as a signed word. -/
def ulebOperand (slice : Bytes) (cursor : Nat) : Option (Int × Nat) :=
  (ulebAt slice cursor).bind fun (n, next) =>
    if next ≤ cursor + 10 then some (wrap n, next) else none

/-- A signed number of at most ten bytes; a negative number of nine has no sign extension. -/
def slebOperand (slice : Bytes) (cursor : Nat) : Option (Int × Nat) :=
  (slebAt slice cursor).bind fun (n, next) =>
    if next ≤ cursor + 10 ∧ ¬ (next = cursor + 9 ∧ n < 0) then some (wrap n, next) else none

theorem shl64_bind {β : Type} {bit : Nat} (x : BitVec 64) (f : BitVec 64 → Exec β)
    (h : bit < 64) : (shl64 x bit >>= f) = f (x <<< bit) := by
  rw [shl64, if_pos h, ok_bind]

theorem ulebLoop_eq (rest : Bytes) (value : BitVec 64) (bit pos : Nat) :
    ulebLoop rest value bit pos = orPanic ((uleb rest).bind fun (n, len) =>
      if bit + 7 * len < 71 then some (value ||| BitVec.ofInt 64 n <<< bit, pos + len)
      else none) := by
  induction rest generalizing value bit pos with
  | nil => rfl
  | cons byte rest ih =>
    unfold ulebLoop uleb
    by_cases hbit : bit < 64
    · rw [shl64_bind _ _ hbit, low7_eq]
      by_cases hlast : byte &&& 128 = 0
      · have hlt := (and_128_eq_zero_iff byte).mp hlast
        simp only [if_pos hlast, if_pos hlt, Nat.mod_eq_of_lt hlt, Option.bind_some]
        rw [if_pos (by omega), BitVec.ofInt_natCast]
        rfl
      · rw [if_neg hlast, if_neg (mt (and_128_eq_zero_iff byte).mpr hlast), ih]
        cases uleb rest with
        | none => rfl
        | some read =>
          obtain ⟨n, len⟩ := read
          simp only [Option.map_some, Option.bind_some]
          rw [show bit + 7 + 7 * len = bit + 7 * (len + 1) by omega,
            show pos + 1 + len = pos + (len + 1) by omega,
            or_parts value (Nat.mod_lt _ (by decide)) n bit]
          push_cast
          rfl
    · rw [shl64, if_neg hbit]
      show panicked = _
      by_cases hlt : byte.toNat < 128
      · simp only [if_pos hlt, Option.bind_some]
        rw [if_neg (by omega)]
        rfl
      · rw [if_neg hlt]
        cases uleb rest with
        | none => rfl
        | some read =>
          simp only [Option.map_some, Option.bind_some]
          rw [if_neg (by omega)]
          rfl

theorem readUleb_eq : readUleb slice cursor = orPanic (ulebOperand slice cursor) := by
  unfold readUleb ulebOperand ulebAt
  rw [ulebLoop_eq]
  cases uleb (slice.drop cursor) with
  | none => rfl
  | some read =>
    obtain ⟨n, len⟩ := read
    simp only [Option.bind_some, Option.map_some]
    by_cases hlen : len ≤ 10
    · rw [if_pos (by omega), if_pos (by omega), BitVec.shiftLeft_zero, wrap]
      show (Except.ok _ : Exec _) = .ok _
      simp
    · rw [if_neg (by omega), if_neg (by omega)]
      rfl

theorem slebLoop_eq (rest : Bytes) (value : BitVec 64) (bit pos : Nat) :
    slebLoop rest value bit pos = orPanic ((sleb rest).bind fun (n, len) =>
      if bit + 7 * len < 71 ∧ ¬ (bit + 7 * len = 63 ∧ n < 0) then
        some (value ||| BitVec.ofInt 64 n <<< bit, pos + len)
      else none) := by
  induction rest generalizing value bit pos with
  | nil => rfl
  | cons byte rest ih =>
    unfold slebLoop sleb
    by_cases hbit : bit < 64
    · rw [shl64_bind _ _ hbit, low7_eq]
      by_cases hlast : byte &&& 128 = 0
      · have hlt := (and_128_eq_zero_iff byte).mp hlast
        rw [if_pos hlast, Nat.mod_eq_of_lt hlt]
        by_cases hneg : 64 ≤ byte.toNat
        · simp only [if_neg (Nat.not_lt.mpr hneg), if_pos hlt, Option.bind_some]
          have hsign := (and_64_ne_zero_iff byte hlt).mpr hneg
          by_cases hlow : bit + 7 < 64
          · rw [if_pos ⟨hlow, hsign⟩, signExtension]
            by_cases hedge : bit + 7 = 63
            · rw [if_pos hedge, if_neg (by omega)]
              rfl
            · rw [if_neg hedge, if_pos (by omega), ok_bind, BitVec.or_assoc, word_last hlt]
              rfl
          · rw [if_neg fun h => hlow h.1, if_pos (by omega), word_last_of_le hlt (by omega)]
            rfl
        · have hsign : ¬ (bit + 7 < 64 ∧ byte &&& 64 ≠ 0) := fun h =>
            hneg ((and_64_ne_zero_iff byte hlt).mp h.2)
          simp only [if_neg hsign, if_pos (Nat.not_le.mp hneg), Option.bind_some]
          rw [if_pos (by omega), BitVec.ofInt_natCast]
          rfl
      · have hge : ¬ byte.toNat < 128 := mt (and_128_eq_zero_iff byte).mpr hlast
        rw [if_neg hlast, if_neg (by omega), if_neg hge, ih]
        cases sleb rest with
        | none => rfl
        | some read =>
          obtain ⟨n, len⟩ := read
          have hlow : byte.toNat % 128 < 128 := Nat.mod_lt _ (by decide)
          simp only [Option.map_some, Option.bind_some]
          rw [or_parts value hlow n bit]
          by_cases hfits : bit + 7 + 7 * len < 71 ∧ ¬ (bit + 7 + 7 * len = 63 ∧ n < 0)
          · rw [if_pos hfits, if_pos (by omega), Nat.add_assoc pos, Nat.add_comm 1 len]
          · rw [if_neg hfits, if_neg (by omega)]
    · rw [shl64, if_neg hbit]
      show panicked = _
      by_cases hneg : byte.toNat < 64
      · simp only [if_pos hneg, Option.bind_some]
        rw [if_neg (by omega)]
        rfl
      · rw [if_neg hneg]
        by_cases hlt : byte.toNat < 128
        · simp only [if_pos hlt, Option.bind_some]
          rw [if_neg (by omega)]
          rfl
        · rw [if_neg hlt]
          cases sleb rest with
          | none => rfl
          | some read =>
            simp only [Option.map_some, Option.bind_some]
            rw [if_neg (by omega)]
            rfl

theorem readSleb_eq : readSleb slice cursor = orPanic (slebOperand slice cursor) := by
  unfold readSleb slebOperand slebAt
  rw [slebLoop_eq]
  cases sleb (slice.drop cursor) with
  | none => rfl
  | some read =>
    obtain ⟨n, len⟩ := read
    simp only [Option.bind_some, Option.map_some]
    by_cases hlen : len ≤ 10 ∧ ¬ (len = 9 ∧ n < 0)
    · rw [if_pos (by omega), if_pos (by omega), BitVec.shiftLeft_zero, wrap]
      show (Except.ok _ : Exec _) = .ok _
      simp
    · rw [if_neg (by omega), if_neg (by omega)]
      rfl

/-! No reader goes back. -/

theorem byteAt_next {byte : UInt8} {next : Nat} (h : byteAt slice cursor = some (byte, next)) :
    next = cursor + 1 := by
  obtain ⟨_, _, heq⟩ := Option.map_eq_some_iff.mp h
  cases heq
  rfl

theorem wordAt_le {width n next : Nat} (h : wordAt slice width cursor = some (n, next)) :
    cursor ≤ next := by
  unfold wordAt at h
  split at h
  · cases h
    exact Nat.le_add_right _ _
  · cases h

theorem ulebOperand_lt {n : Int} {next : Nat} (h : ulebOperand slice cursor = some (n, next)) :
    cursor < next := by
  obtain ⟨⟨n', next'⟩, hread, h⟩ := Option.bind_eq_some_iff.mp h
  obtain ⟨⟨_, len⟩, huleb, heq⟩ := Option.map_eq_some_iff.mp hread
  cases heq
  have hpos := length_pos_of_uleb huleb
  dsimp only at h
  split at h
  · cases h
    omega
  · cases h

theorem ulebOperand_le {n : Int} {next : Nat} (h : ulebOperand slice cursor = some (n, next)) :
    cursor ≤ next :=
  (ulebOperand_lt h).le

theorem slebOperand_le {n : Int} {next : Nat} (h : slebOperand slice cursor = some (n, next)) :
    cursor ≤ next := by
  obtain ⟨⟨n', next'⟩, hread, h⟩ := Option.bind_eq_some_iff.mp h
  obtain ⟨⟨_, len⟩, -, heq⟩ := Option.map_eq_some_iff.mp hread
  cases heq
  dsimp only at h
  split at h
  · cases h
    exact Nat.le_add_right _ _
  · cases h

end Readers

/-! ## Encoded values -/

section Values

variable (enc : UInt8) (base : Int) (slice : Bytes) (cursor : Nat)

/-- The value in its format; a format that is not known has no bytes. -/
def formatOperand (format : Nat) : Option (Int × Nat) :=
  match format with
  | 0x01 => ulebOperand slice cursor
  | 0x02 => (wordAt slice 2 cursor).map fun (n, next) => ((n : Int), next)
  | 0x03 => (wordAt slice 4 cursor).map fun (n, next) => ((n : Int), next)
  | 0x04 | 0x0c => (wordAt slice 8 cursor).map fun (n, next) => (toI64 n, next)
  | 0x09 => slebOperand slice cursor
  | 0x0a => (wordAt slice 2 cursor).map fun (n, next) => (signed 16 n, next)
  | 0x0b => (wordAt slice 4 cursor).map fun (n, next) => (signed 32 n, next)
  | _ => some (0, cursor)

/-- The sums that a relative encoding makes are signed words. -/
def OriginFits (value : Int) : Prop :=
  (enc &&& DW_EH_PE_APPL_MASK = DW_EH_PE_PCREL →
    InI64 (value + base) ∧ InI64 (value + base + cursor)) ∧
  (enc &&& DW_EH_PE_APPL_MASK = DW_EH_PE_DATAREL → InI64 (value + base))

instance (value : Int) : Decidable (OriginFits enc base cursor value) :=
  inferInstanceAs (Decidable (_ ∧ _))

/-- The value of an encoding, in full. -/
def valueOperand : Option (Int × Nat) :=
  (formatOperand slice cursor (enc &&& DW_EH_PE_FORMAT_MASK).toNat).bind fun (value, next) =>
    if OriginFits enc base cursor value then some (value + origin enc base cursor, next) else none

variable {enc base slice cursor}

theorem formatOperand_unknown {format : Nat} (h : ∀ n ∈ [1, 2, 3, 4, 9, 10, 11, 12], format ≠ n) :
    formatOperand slice cursor format = some (0, cursor) := by
  unfold formatOperand
  split
  all_goals first | rfl | exact absurd rfl (h _ (by decide))

theorem formatOperand_le {format : Nat} {n : Int} {next : Nat}
    (h : formatOperand slice cursor format = some (n, next)) : cursor ≤ next := by
  have hword {width : Nat} {f : Nat → Int}
      (h : (wordAt slice width cursor).map (fun (n, next) => (f n, next)) = some (n, next)) :
      cursor ≤ next := by
    obtain ⟨⟨_, _⟩, hread, heq⟩ := Option.map_eq_some_iff.mp h
    cases heq
    exact wordAt_le hread
  unfold formatOperand at h
  split at h
  all_goals first | exact ulebOperand_le h | exact slebOperand_le h | exact hword h | cases h
  exact le_refl _

theorem valueOperand_le {n : Int} {next : Nat}
    (h : valueOperand enc base slice cursor = some (n, next)) : cursor ≤ next := by
  obtain ⟨⟨value, next'⟩, hread, h⟩ := Option.bind_eq_some_iff.mp h
  dsimp only at h
  split at h
  · cases h
    exact formatOperand_le hread
  · cases h

theorem readFormat_eq (format : UInt8) :
    readFormat format slice cursor = orPanic (formatOperand slice cursor format.toNat) := by
  have hword (width : Nat) (f : Nat → Int) :
      (readWord width slice cursor >>= fun (n, next) => (.ok (f n, next) : Exec (Int × Nat))) =
        orPanic ((wordAt slice width cursor).map fun (n, next) => (f n, next)) := by
    rw [readWord_eq]
    cases wordAt slice width cursor <;> rfl
  unfold readFormat
  by_cases huleb : format = DW_EH_PE_ULEB128
  · rw [if_pos huleb, huleb]
    exact readUleb_eq
  rw [if_neg huleb]
  by_cases hudata2 : format = DW_EH_PE_UDATA2
  · rw [if_pos hudata2, hudata2]
    exact hword 2 fun n => n
  rw [if_neg hudata2]
  by_cases hudata4 : format = DW_EH_PE_UDATA4
  · rw [if_pos hudata4, hudata4]
    exact hword 4 fun n => n
  rw [if_neg hudata4]
  by_cases hudata8 : format = DW_EH_PE_UDATA8
  · rw [if_pos hudata8, hudata8]
    exact hword 8 toI64
  rw [if_neg hudata8]
  by_cases hsleb : format = DW_EH_PE_SLEB128
  · rw [if_pos hsleb, hsleb]
    exact readSleb_eq
  rw [if_neg hsleb]
  by_cases hsdata2 : format = DW_EH_PE_SDATA2
  · rw [if_pos hsdata2, hsdata2]
    exact hword 2 (signed 16)
  rw [if_neg hsdata2]
  by_cases hsdata4 : format = DW_EH_PE_SDATA4
  · rw [if_pos hsdata4, hsdata4]
    exact hword 4 (signed 32)
  rw [if_neg hsdata4]
  by_cases hsdata8 : format = DW_EH_PE_SDATA8
  · rw [if_pos hsdata8, hsdata8]
    exact hword 8 toI64
  rw [if_neg hsdata8]
  have hne {n : UInt8} (h : format ≠ n) : format.toNat ≠ n.toNat := fun heq =>
    h (UInt8.toNat_inj.mp heq)
  rw [formatOperand_unknown]
  · rfl
  · simp only [List.forall_mem_cons]
    exact ⟨hne huleb, hne hudata2, hne hudata4, hne hudata8, hne hsleb, hne hsdata2,
      hne hsdata4, hne hsdata8, fun n hn => absurd hn (List.not_mem_nil)⟩

theorem readValue_eq :
    readValue enc base slice cursor = orPanic (valueOperand enc base slice cursor) := by
  unfold readValue valueOperand
  rw [readFormat_eq]
  cases formatOperand slice cursor (enc &&& DW_EH_PE_FORMAT_MASK).toNat with
  | none => rfl
  | some read =>
    obtain ⟨value, next⟩ := read
    rw [Option.bind_some]
    show _ = orPanic (if OriginFits enc base cursor value then _ else none)
    by_cases hpcrel : enc &&& DW_EH_PE_APPL_MASK = DW_EH_PE_PCREL
    · have hsums : OriginFits enc base cursor value ↔
          InI64 (value + base) ∧ InI64 (value + base + cursor) :=
        ⟨fun h => h.1 hpcrel, fun h => ⟨fun _ => h, fun _ => h.1⟩⟩
      simp only [orPanic, ok_bind, if_pos hpcrel, hsums, origin, checkI64]
      by_cases hfirst : InI64 (value + base)
      · by_cases hsecond : InI64 (value + base + cursor)
        · simp [hfirst, hsecond, ← Int.add_assoc]
        · simp [hfirst, hsecond]
          rfl
      · simp [hfirst]
        rfl
    · by_cases hdatarel : enc &&& DW_EH_PE_APPL_MASK = DW_EH_PE_DATAREL
      · have hsums : OriginFits enc base cursor value ↔ InI64 (value + base) :=
          ⟨fun h => h.2 hdatarel, fun h => ⟨fun hp => absurd hp hpcrel, fun _ => h⟩⟩
        simp only [orPanic, ok_bind, if_neg hpcrel, if_pos hdatarel, hsums, origin, checkI64]
        by_cases hfirst : InI64 (value + base)
        · simp [hfirst]
        · simp [hfirst]
          rfl
      · have hsums : OriginFits enc base cursor value :=
          ⟨fun hp => absurd hp hpcrel, fun hd => absurd hd hdatarel⟩
        simp [orPanic, if_neg hpcrel, if_neg hdatarel, hsums, origin]

end Values

end OneCollect.Ruwind
