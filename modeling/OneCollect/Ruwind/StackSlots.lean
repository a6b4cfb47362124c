import OneCollect.Ruwind.StackReads

/-! Which slots of a captured stack are read: by `stack_value`, through which the rows of frames
and the chain of frame pointers read, and by the scan of `unwind_prolog`.

The scan reads every slot of the stack (`unwindProlog_scans`). `stack_value` reads every slot but
the last one (`slots_read_iff`). -/

namespace OneCollect.Ruwind
open Theory

namespace Unwinder

/-! ## Slots -/

section Slots

variable {checks : OverflowChecks} {stackData : Bytes} {rsp cfa : Nat} {off addr : Int}

/-- The 8 bytes at an address lie in the stack that was captured at `rsp`. -/
def InStack (rsp : Nat) (stackData : Bytes) (addr : Int) : Prop :=
  (rsp : Int) ≤ addr ∧ addr + 8 ≤ rsp + stackData.length

instance : Decidable (InStack rsp stackData addr) := inferInstanceAs (Decidable (_ ∧ _))

/-- The word in the slot at an address. -/
def slot (rsp : Nat) (stackData : Bytes) (addr : Int) : Option Nat :=
  if InStack rsp stackData addr then
    some (fromLe ((stackData.drop (addr - rsp).toNat).take 8))
  else none

/-- The word `off` bytes from `cfa`; nothing is read from a frame below the stack pointer. -/
def slotFrom (rsp cfa : Nat) (off : Int) (stackData : Bytes) : Option Nat :=
  if rsp ≤ cfa then slot rsp stackData (cfa + off) else none

/-- The address `off` bytes from `cfa` is one. -/
def Addresses (cfa : Nat) (off : Int) : Prop := 0 ≤ cfa + off ∧ cfa + off < 2 ^ 64

instance (cfa : Nat) (off : Int) : Decidable (Addresses cfa off) :=
  inferInstanceAs (Decidable (_ ∧ _))

/-- The slot is the last one of the stack. -/
def LastSlot (rsp cfa : Nat) (off : Int) (stackData : Bytes) : Prop :=
  rsp ≤ cfa ∧ 8 ≤ stackData.length ∧ cfa + off + 8 = rsp + stackData.length

theorem slot_isSome : (slot rsp stackData addr).isSome = true ↔ InStack rsp stackData addr := by
  unfold slot
  split
  · exact iff_of_true rfl ‹_›
  · exact iff_of_false Bool.false_ne_true ‹_›

/-- As a signed word, the sum that `stack_value` forms is the position of the slot; or it is
negative, and the position is behind every stack. -/
theorem wrapped_eq (hle : rsp ≤ cfa) (hoff : InI64 off) (haddr : Addresses cfa off) :
    toI64 (toU64 (toI64 (cfa - rsp) + off)) = cfa + off - rsp ∨
      toI64 (toU64 (toI64 (cfa - rsp) + off)) < 0 ∧ 2 ^ 63 ≤ cfa + off - rsp := by
  obtain ⟨hlow, hhigh⟩ := haddr
  obtain ⟨hoffLow, hoffHigh⟩ := hoff
  have hcast : ((cfa - rsp : Nat) : Int) = cfa - rsp := Int.ofNat_sub hle
  unfold toI64 toU64
  split
  · split
    · omega
    · omega
  · split
    · omega
    · omega

theorem i64_wraps {x y : Int} (h : checks.i64 x = .ok y) : y = toI64 (toU64 x) := by
  cases checks with
  | on =>
    obtain ⟨hx, rfl⟩ := checkI64_eq_ok.mp h
    have hoff := OverflowChecks.off.i64_of_inI64 hx
    exact (Except.ok.inj hoff).symm
  | off => exact (Except.ok.inj h).symm

theorem exists_i64 {x : Int} : (∃ y, checks.i64 x = .ok y) ↔ checks = .off ∨ InI64 x := by
  cases checks with
  | on => exact (exists_congr fun y => checkI64_eq_ok).trans (by simp)
  | off => exact iff_of_true ⟨_, rfl⟩ (.inl rfl)

/-- What `stack_value` reads once it has formed the sum: the slots in front of the last one. -/
theorem stackValue_of_i64 (hle : rsp ≤ cfa) (hlen : stackData.length < 2 ^ 63) {offset : Int}
    (hoffset : checks.i64 (toI64 (cfa - rsp) + off) = .ok offset) :
    stackValue checks rsp cfa off stackData =
      .ok (if 0 ≤ offset ∧ offset < (stackData.length : Int) - 8 then
        some (fromLe ((stackData.drop offset.toNat).take 8)) else none) := by
  have hmax : checks.i64 (toI64 stackData.length - 8) = .ok ((stackData.length : Int) - 8) := by
    have hword : toI64 stackData.length = stackData.length := if_pos hlen
    rw [hword]
    exact checks.i64_of_inI64 (by unfold InI64; omega)
  unfold stackValue
  rw [if_neg (Nat.not_lt.mpr hle), hoffset, ok_bind, hmax, ok_bind]
  by_cases hin : 0 ≤ offset ∧ offset < (stackData.length : Int) - 8
  · have hread : readLe 8 stackData offset.toNat = .ok _ := readLe_eq_ok.mpr ⟨by omega, rfl⟩
    rw [if_neg (by omega), if_pos hin, hread, ok_bind]
  · rw [if_pos (by omega), if_neg hin]

/-- The slots in front of the last one are all but the last one. -/
theorem front_eq_slotFrom_iff (hle : rsp ≤ cfa) (hlen : stackData.length < 2 ^ 63) {offset : Int}
    (h : offset = cfa + off - rsp ∨ offset < 0 ∧ 2 ^ 63 ≤ cfa + off - rsp) :
    (if 0 ≤ offset ∧ offset < (stackData.length : Int) - 8 then
        some (fromLe ((stackData.drop offset.toNat).take 8)) else none) =
      slotFrom rsp cfa off stackData ↔ ¬ LastSlot rsp cfa off stackData := by
  rw [slotFrom, if_pos hle, slot]
  rcases h with rfl | ⟨hneg, hfar⟩
  · by_cases hin : 0 ≤ cfa + off - rsp ∧ cfa + off - rsp < (stackData.length : Int) - 8
    · rw [if_pos hin, if_pos ⟨by omega, by omega⟩]
      exact iff_of_true rfl fun hlast => absurd hlast.2.2 (by omega)
    · by_cases hstack : InStack rsp stackData (cfa + off)
      · obtain ⟨hlow, hhigh⟩ := hstack
        rw [if_neg hin, if_pos ⟨hlow, hhigh⟩]
        exact iff_of_false (by simp) (not_not.mpr ⟨hle, by omega, by omega⟩)
      · rw [if_neg hin, if_neg hstack]
        refine iff_of_true rfl fun hlast => hstack ⟨?_, ?_⟩
        · have := hlast.2
          omega
        · exact hlast.2.2.le
  · have hout : ¬ InStack rsp stackData (cfa + off) := fun hin => absurd hin.2 (by omega)
    rw [if_neg (by omega), if_neg hout]
    exact iff_of_true rfl fun hlast => absurd hlast.2.2 (by omega)

/-- **`stack_value`** reads the word of the slot, unless the sum overflows or the slot is the last
one. -/
theorem stackValue_eq_slotFrom_iff (hoff : InI64 off) (haddr : Addresses cfa off)
    (hlen : stackData.length < 2 ^ 63) :
    stackValue checks rsp cfa off stackData = .ok (slotFrom rsp cfa off stackData) ↔
      ¬ LastSlot rsp cfa off stackData ∧ (checks = .off ∨ ValueFits rsp cfa off) := by
  by_cases hle : rsp ≤ cfa
  · have hlt : ¬ cfa < rsp := Nat.not_lt.mpr hle
    have hfits : ValueFits rsp cfa off ↔ InI64 (toI64 (cfa - rsp) + off) := or_iff_right hlt
    rw [hfits, ← exists_i64]
    by_cases hsum : ∃ offset, checks.i64 (toI64 (cfa - rsp) + off) = .ok offset
    · rw [and_iff_left hsum]
      obtain ⟨offset, hoffset⟩ := hsum
      have hwraps := wrapped_eq hle hoff haddr
      rw [← i64_wraps hoffset] at hwraps
      rw [stackValue_of_i64 hle hlen hoffset, Except.ok.injEq]
      exact front_eq_slotFrom_iff hle hlen hwraps
    · refine iff_of_false (fun h => hsum ?_) fun h => hsum h.2
      unfold stackValue at h
      rw [if_neg hlt] at h
      obtain ⟨offset, hoffset, -⟩ := bind_eq_ok.mp h
      exact ⟨offset, hoffset⟩
  · have hlt : cfa < rsp := Nat.lt_of_not_le hle
    unfold stackValue slotFrom
    rw [if_pos hlt, if_neg hle]
    exact iff_of_true rfl ⟨fun h => hle h.1, .inr (.inl hlt)⟩

end Slots

/-! ## The scan -/

section Scan

variable {checks : OverflowChecks} {process : Unwindable} {stackData : Bytes} {rsp : Nat}

/-- The scan over the words of slots: it ends in front of the first address without one. -/
def scanSlots (process : Unwindable) (word : Int → Option Nat) (cfa maxCfa : Nat) :
    (turns : Nat) → (first : Nat) → (addr : Int) → Option (Nat × Nat)
  | 0, _, _ => none
  | turns + 1, first, addr =>
    (word addr).bind fun second =>
      if first > cfa ∧ first ≤ maxCfa ∧ (process second).isSome then some (first, second)
      else scanSlots process word cfa maxCfa turns second (addr + 8)

/-- A caller from the slots at `cfa` and above. -/
def scanFrom (process : Unwindable) (word : Int → Option Nat) (cfa maxCfa : Nat) :
    Option (Nat × Nat) :=
  (word cfa).bind fun first => scanSlots process word cfa maxCfa 64 first (cfa + 8)

theorem readLe_slot {offset : Nat} (h : offset + 8 ≤ stackData.length) :
    ∃ word, readLe 8 stackData offset = .ok word ∧ slot rsp stackData (rsp + offset) = some word := by
  refine ⟨_, readLe_eq_ok.mpr ⟨h, rfl⟩, ?_⟩
  have hposition : ((rsp : Int) + offset - rsp).toNat = offset := by omega
  rw [slot, if_pos ⟨by omega, by omega⟩, hposition]

theorem slot_eq_none {offset : Nat} (h : stackData.length < offset + 8) :
    slot rsp stackData (rsp + offset) = none :=
  if_neg fun hin => absurd hin.2 (by omega)

/-- The loop reads the slots, the last one too. -/
theorem scan_eq_scanSlots (hlen : 8 ≤ stackData.length) (cfa maxCfa turns first offset : Nat) :
    scan process stackData cfa maxCfa (stackData.length - 8) turns first offset =
      .ok (scanSlots process (slot rsp stackData) cfa maxCfa turns first (rsp + offset)) := by
  induction turns generalizing first offset with
  | zero => rfl
  | succ turns ih =>
    unfold scan scanSlots
    by_cases hin : offset ≤ stackData.length - 8
    · obtain ⟨second, hread, hslot⟩ := @readLe_slot stackData rsp offset (by omega)
      rw [if_pos hin, hread, ok_bind, hslot, Option.bind_some]
      split
      · rfl
      · rw [ih, Nat.cast_add, ← Int.add_assoc]
        rfl
    · rw [if_neg hin, slot_eq_none (by omega)]
      rfl

/-- A stack without two slots has no caller for the scan. -/
theorem scanFrom_of_not_canScan {self : Unwinder} (h : ¬ self.CanScan stackData) (maxCfa : Nat) :
    scanFrom process (slot self.rsp stackData) (self.register REG_RSP) maxCfa = none := by
  unfold scanFrom
  cases hfirst : slot self.rsp stackData (self.register REG_RSP) with
  | none => rfl
  | some first =>
    obtain ⟨hlow, hhigh⟩ := slot_isSome.mp (Option.isSome_of_eq_some hfirst)
    have hsecond : slot self.rsp stackData (self.register REG_RSP + 8) = none := by
      refine if_neg fun hin => h ⟨by omega, ?_⟩
      have := hin.2
      omega
    rw [Option.bind_some, scanSlots, hsecond]
    rfl

/-- **The scan of `unwind_prolog`**, where the chain of frame pointers leads nowhere, looks at every
slot of the stack from the stack pointer on. -/
theorem unwindProlog_scans {self : Unwinder} (hself : self.Words)
    (hlen : stackData.length < 2 ^ 63)
    (hroom : checks = .off ∨ self.register REG_RSP + stackData.length < 2 ^ 64)
    (hnone : ¬ ∃ link, self.PrologChain process stackData link) (error : Option UnwindError) :
    ∃ out, unwindProlog checks process stackData self error = .ok out ∧
      out.1 = (scanFrom process (slot self.rsp stackData) (self.register REG_RSP)
        ((self.register REG_RSP + stackData.length) % 2 ^ 64)).map Prod.snd := by
  by_cases hstart : self.CanScan stackData
  · obtain ⟨hle, hsize⟩ := hstart
    have hmax : checks.addU64 (self.register REG_RSP) stackData.length =
        .ok ((self.register REG_RSP + stackData.length) % 2 ^ 64) := by
      rcases hroom with rfl | hroom
      · rfl
      · rw [checks.addU64_of_lt hroom, Nat.mod_eq_of_lt hroom]
    obtain ⟨link, hwalk, hiff⟩ := @chainWalk_eq checks process stackData self.rsp _ hlen 16
      (self.register REG_RBP) (hself.register_lt REG_RBP)
    obtain rfl : link = none :=
      Option.eq_none_iff_forall_ne_some.mpr fun link h => hnone ⟨link, (hiff link).mp h⟩
    have hposition : (self.register REG_RSP : Int) =
        self.rsp + (self.register REG_RSP - self.rsp : Nat) := by omega
    unfold unwindProlog
    rw [hself.sized.getAt_register (by decide), ok_bind, hself.sized.getAt_register (by decide),
      ok_bind]
    dsimp only
    rw [if_neg (by omega), hmax, ok_bind, hwalk, ok_bind]
    dsimp only
    by_cases hfar : self.register REG_RSP - self.rsp > stackData.length - 8
    · rw [if_pos hfar, scanFrom, hposition, slot_eq_none (by omega)]
      exact ⟨_, rfl, rfl⟩
    · obtain ⟨first, hread, hslot⟩ :=
        @readLe_slot stackData self.rsp (self.register REG_RSP - self.rsp) (by omega)
      have hnext : (self.register REG_RSP : Int) + 8 =
          self.rsp + (self.register REG_RSP - self.rsp + 8 : Nat) := by omega
      rw [if_neg hfar, hread, ok_bind, @scan_eq_scanSlots process stackData self.rsp (by omega),
        ok_bind, scanFrom, ← hnext, hposition, hslot, Option.bind_some, ← hposition]
      cases scanSlots process (slot self.rsp stackData) _ _ 64 first _ with
      | none => exact ⟨_, rfl, rfl⟩
      | some found => exact ⟨_, rfl, rfl⟩
  · rw [unwindProlog_of_not_canScan hself.sized hstart, scanFrom_of_not_canScan hstart]
    exact ⟨_, rfl, rfl⟩

/-- Where the chain of frame pointers leads nowhere, `unwind_prolog` finds its caller among all
slots of the stack. -/
def ScansSlots (checks : OverflowChecks) (rsp : Nat) (stackData : Bytes) : Prop :=
  ∀ (process : Unwindable) (self : Unwinder) (error : Option UnwindError),
    self.Words → self.rsp = rsp →
    (checks = .off ∨ self.register REG_RSP + stackData.length < 2 ^ 64) →
    (¬ ∃ link, self.PrologChain process stackData link) →
    ∃ out, unwindProlog checks process stackData self error = .ok out ∧
      out.1 = (scanFrom process (slot rsp stackData) (self.register REG_RSP)
        ((self.register REG_RSP + stackData.length) % 2 ^ 64)).map Prod.snd

theorem scansSlots (checks : OverflowChecks) (rsp : Nat) (hlen : stackData.length < 2 ^ 63) :
    ScansSlots checks rsp stackData := by
  rintro process self error hself rfl hroom hnone
  exact unwindProlog_scans hself hlen hroom hnone error

/-- **The slots that are read.** The rows of frames and the frame pointers read the slots that the
scan reads, all those of the stack, exactly where the slot is not the last one and the sum of its
position does not overflow. -/
theorem slots_read_iff {cfa : Nat} {off : Int} (hoff : InI64 off) (haddr : Addresses cfa off)
    (hlen : stackData.length < 2 ^ 63) :
    stackValue checks rsp cfa off stackData = .ok (slotFrom rsp cfa off stackData) ∧
        ScansSlots checks rsp stackData ↔
      ¬ LastSlot rsp cfa off stackData ∧ (checks = .off ∨ ValueFits rsp cfa off) :=
  (and_iff_left (scansSlots checks rsp hlen)).trans (stackValue_eq_slotFrom_iff hoff haddr hlen)

/-- The first of two slots. -/
theorem slots_read_first :
    stackValue .on 0x70000000 0x70000008 (-8) (List.replicate 16 0) =
        .ok (slotFrom 0x70000000 0x70000008 (-8) (List.replicate 16 0)) ∧
        ScansSlots .on 0x70000000 (List.replicate 16 0) ↔
      ¬ LastSlot 0x70000000 0x70000008 (-8) (List.replicate 16 0) ∧
        (OverflowChecks.on = .off ∨ ValueFits 0x70000000 0x70000008 (-8)) :=
  slots_read_iff (by decide) (by decide) (by decide)

/-- The second of two slots, which the scan reads. -/
theorem slots_not_read_last :
    ¬ ∀ (checks : OverflowChecks) (rsp cfa : Nat) (off : Int) (stackData : Bytes), InI64 off →
      Addresses cfa off → stackData.length < 2 ^ 63 →
      stackValue checks rsp cfa off stackData = .ok (slotFrom rsp cfa off stackData) ∧
        ScansSlots checks rsp stackData := by
  intro h
  have hread := (h .on 0x70000000 0x70000010 (-8) (List.replicate 16 0) (by decide) (by decide)
    (by decide)).1
  have hnone : stackValue .on 0x70000000 0x70000010 (-8) (List.replicate 16 0) = .ok none := rfl
  have hsome : slotFrom 0x70000000 0x70000010 (-8) (List.replicate 16 0) = some 0 := rfl
  rw [hnone, hsome, Except.ok.injEq] at hread
  cases hread

end Scan

end Unwinder

end OneCollect.Ruwind
