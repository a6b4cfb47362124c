import OneCollect.Ruwind.Walk

/-! What the unwinder of `x64unwinder.rs` reads from a captured stack, and when its arithmetic
stays in range.

`stackWord` is the word that `stack_value` returns, `FrameChain` the chain of saved frame
pointers that `unwind_prolog` follows. In the chain no sum overflows: its first read bounds the
others. What can overflow is the bound of the scan, the frame address of a row, and the position
of a slot of that row (`arithmetic_fits_iff`). -/

namespace OneCollect.Ruwind
open Theory

namespace Unwinder

/-! ## Words of the stack -/

section Words

variable {checks : OverflowChecks} {stackData : Bytes} {rsp cfa : Nat} {off : Int}

/-- The sum that `stack_value` forms is a signed word. -/
def ValueFits (rsp cfa : Nat) (off : Int) : Prop := cfa < rsp ∨ InI64 (toI64 (cfa - rsp) + off)

/-- The word `off` bytes from `cfa`, in a stack captured at `rsp`. -/
def stackWord (rsp cfa : Nat) (off : Int) (stackData : Bytes) : Option Nat :=
  let offset := toI64 (cfa - rsp) + off
  if rsp ≤ cfa ∧ 0 ≤ offset ∧ offset < (stackData.length : Int) - 8 then
    some (fromLe ((stackData.drop offset.toNat).take 8))
  else none

theorem stackWord_isSome :
    (stackWord rsp cfa off stackData).isSome = true ↔ rsp ≤ cfa ∧
      0 ≤ toI64 (cfa - rsp) + off ∧ toI64 (cfa - rsp) + off < (stackData.length : Int) - 8 := by
  unfold stackWord
  dsimp only
  split
  · rename_i h
    exact iff_of_true rfl h
  · rename_i h
    exact iff_of_false (by simp) h

/-- No index is out of bounds: a sum that fits gives the word or nothing. -/
theorem stackValue_eq (hlen : stackData.length < 2 ^ 63) (hfits : ValueFits rsp cfa off) :
    stackValue checks rsp cfa off stackData = .ok (stackWord rsp cfa off stackData) := by
  unfold stackValue stackWord
  by_cases hlt : cfa < rsp
  · rw [if_pos hlt]
    exact congrArg _ (if_neg fun h => absurd h.1 (Nat.not_le.mpr hlt)).symm
  · have hsum := hfits.resolve_left hlt
    have hmax : InI64 (toI64 stackData.length - 8) := by
      unfold InI64 toI64
      omega
    have hlen' : toI64 stackData.length = stackData.length := if_pos hlen
    rw [if_neg hlt, checks.i64_of_inI64 hsum, ok_bind, checks.i64_of_inI64 hmax, ok_bind, hlen']
    dsimp only
    by_cases hin : 0 ≤ toI64 (cfa - rsp) + off ∧
        toI64 (cfa - rsp) + off < (stackData.length : Int) - 8
    · rw [if_neg (by omega), if_pos ⟨Nat.not_lt.mp hlt, hin⟩]
      have hread : readLe 8 stackData (toI64 (cfa - rsp) + off).toNat = .ok _ :=
        readLe_eq_ok.mpr ⟨by omega, rfl⟩
      rw [hread, ok_bind]
    · rw [if_pos (by omega), if_neg fun h => hin h.2]

theorem stackValue_noPanic (hlen : stackData.length < 2 ^ 63) :
    NoPanic (stackValue .on rsp cfa off stackData) ↔ ValueFits rsp cfa off := by
  by_cases hfits : ValueFits rsp cfa off
  · rw [stackValue_eq hlen hfits]
    exact iff_of_true (noPanic_ok _) hfits
  · obtain ⟨hle, hsum⟩ := not_or.mp hfits
    refine iff_of_false (fun h => hsum ?_) hfits
    rw [stackValue, if_neg hle, noPanic_bind] at h
    exact noPanic_checkI64.mp h.1

end Words

/-! ## The chain of frame pointers -/

section Chain

variable {checks : OverflowChecks} {process : Unwindable} {stackData : Bytes}
  {rsp maxCfa : Nat}

/-- Within `depth` links the saved frame pointers lead from `chainRbp` to a link with its frame
pointer and its return address, the first one that lies in a module. Each link saves an aligned
address above its own. -/
inductive FrameChain (process : Unwindable) (stackData : Bytes) (rsp maxCfa : Nat) :
    Nat → Nat → Nat × Nat × Nat → Prop
  | here {depth chainRbp savedRbp retAddr : Nat}
      (hsaved : stackWord rsp chainRbp 0 stackData = some savedRbp)
      (hret : stackWord rsp chainRbp 8 stackData = some retAddr)
      (hfound : (process retAddr).isSome = true) :
      FrameChain process stackData rsp maxCfa (depth + 1) chainRbp (chainRbp, savedRbp, retAddr)
  | next {depth chainRbp savedRbp retAddr : Nat} {link : Nat × Nat × Nat}
      (hsaved : stackWord rsp chainRbp 0 stackData = some savedRbp)
      (hret : stackWord rsp chainRbp 8 stackData = some retAddr)
      (hmissed : ¬ (process retAddr).isSome = true)
      (hgoes : ¬ (savedRbp ≤ chainRbp ∨ savedRbp > maxCfa ∨ savedRbp &&& 0x7 ≠ 0))
      (hrest : FrameChain process stackData rsp maxCfa depth savedRbp link) :
      FrameChain process stackData rsp maxCfa (depth + 1) chainRbp link

/-- Behind a word that is there, the next word is in range. -/
theorem valueFits_next (hlen : stackData.length < 2 ^ 63) {chainRbp : Nat}
    (h : (stackWord rsp chainRbp 0 stackData).isSome = true) : ValueFits rsp chainRbp 8 := by
  obtain ⟨-, hlow, hhigh⟩ := stackWord_isSome.mp h
  refine .inr ?_
  unfold InI64
  omega

theorem valueFits_zero {cfa : Nat} (h : cfa < 2 ^ 64) : ValueFits rsp cfa 0 := by
  refine .inr ?_
  rw [Int.add_zero]
  exact inI64_toI64 (by omega)

theorem stackWord_lt {cfa value : Nat} {off : Int} (h : stackWord rsp cfa off stackData = some value) :
    value < 2 ^ 64 := by
  unfold stackWord at h
  dsimp only at h
  split at h
  · obtain rfl := Option.some.inj h
    exact lt_of_lt_of_le (fromLe_lt _)
      (Nat.pow_le_pow_right (n := 256) (by decide) (List.length_take_le 8 _))
  · cases h

theorem FrameChain.found {depth chainRbp : Nat} {link : Nat × Nat × Nat}
    (h : FrameChain process stackData rsp maxCfa depth chainRbp link) :
    (process link.2.2).isSome = true := by
  induction h with
  | here _ _ hfound => exact hfound
  | next _ _ _ _ _ ih => exact ih

/-- A link saves a word. -/
theorem FrameChain.saved_lt {depth chainRbp : Nat} {link : Nat × Nat × Nat}
    (h : FrameChain process stackData rsp maxCfa depth chainRbp link) : link.2.1 < 2 ^ 64 := by
  induction h with
  | here hsaved _ _ => exact stackWord_lt hsaved
  | next _ _ _ _ _ ih => exact ih

/-- A link lies in the captured stack with both its words. -/
theorem FrameChain.bounds {depth chainRbp : Nat} {link : Nat × Nat × Nat}
    (h : FrameChain process stackData rsp maxCfa depth chainRbp link)
    (hrbp : chainRbp < 2 ^ 64) : rsp ≤ link.1 ∧ link.1 + 16 < rsp + stackData.length := by
  induction h with
  | @here _ chainRbp _ _ hsaved hret _ =>
    obtain ⟨hle, hlow, hhigh⟩ := stackWord_isSome.mp (Option.isSome_of_eq_some hsaved)
    obtain ⟨-, -, hnext⟩ := stackWord_isSome.mp (Option.isSome_of_eq_some hret)
    have hword : toI64 (chainRbp - rsp) = (chainRbp - rsp : Nat) := by
      unfold toI64 at hlow ⊢
      split
      · rfl
      · omega
    rw [hword] at hnext
    dsimp only
    omega
  | next hsaved _ _ _ _ ih => exact ih (stackWord_lt hsaved)

/-- One link, by its two words. -/
theorem frameChain_succ {depth chainRbp savedRbp retAddr : Nat} {link : Nat × Nat × Nat}
    (hsaved : stackWord rsp chainRbp 0 stackData = some savedRbp)
    (hret : stackWord rsp chainRbp 8 stackData = some retAddr) :
    FrameChain process stackData rsp maxCfa (depth + 1) chainRbp link ↔
      ((process retAddr).isSome = true ∧ (chainRbp, savedRbp, retAddr) = link) ∨
      (¬ (process retAddr).isSome = true ∧
        ¬ (savedRbp ≤ chainRbp ∨ savedRbp > maxCfa ∨ savedRbp &&& 0x7 ≠ 0) ∧
        FrameChain process stackData rsp maxCfa depth savedRbp link) := by
  constructor
  · intro h
    cases h with
    | here hsaved' hret' hfound =>
      cases hsaved.symm.trans hsaved'
      cases hret.symm.trans hret'
      exact .inl ⟨hfound, rfl⟩
    | next hsaved' hret' hmissed hgoes hrest =>
      cases hsaved.symm.trans hsaved'
      cases hret.symm.trans hret'
      exact .inr ⟨hmissed, hgoes, hrest⟩
  · rintro (⟨hfound, rfl⟩ | ⟨hmissed, hgoes, hrest⟩)
    · exact .here hsaved hret hfound
    · exact .next hsaved hret hmissed hgoes hrest

/-- A link has both its words. -/
theorem FrameChain.words {depth chainRbp : Nat} {link : Nat × Nat × Nat}
    (h : FrameChain process stackData rsp maxCfa depth chainRbp link) :
    stackWord rsp chainRbp 0 stackData ≠ none ∧ stackWord rsp chainRbp 8 stackData ≠ none := by
  cases h with
  | here hsaved hret => simp [hsaved, hret]
  | next hsaved hret => simp [hsaved, hret]

/-- **The chain walk** finds what the chain leads to, and no sum of it overflows. -/
theorem chainWalk_eq (hlen : stackData.length < 2 ^ 63) (depth : Nat) {chainRbp : Nat}
    (hrbp : chainRbp < 2 ^ 64) :
    ∃ link, chainWalk checks process stackData rsp maxCfa depth chainRbp = .ok link ∧
      ∀ found, link = some found ↔
        FrameChain process stackData rsp maxCfa depth chainRbp found := by
  induction depth generalizing chainRbp with
  | zero =>
    refine ⟨none, rfl, fun found => iff_of_false (by simp) ?_⟩
    intro h
    cases h
  | succ depth ih =>
    unfold chainWalk
    rw [stackValue_eq hlen (valueFits_zero hrbp), ok_bind]
    cases hsaved : stackWord rsp chainRbp 0 stackData with
    | none => exact ⟨none, rfl, fun found => iff_of_false (by simp) fun h => h.words.1 hsaved⟩
    | some savedRbp =>
      have hnext := valueFits_next hlen (Option.isSome_of_eq_some hsaved)
      dsimp only
      rw [stackValue_eq hlen hnext, ok_bind]
      cases hret : stackWord rsp chainRbp 8 stackData with
      | none => exact ⟨none, rfl, fun found => iff_of_false (by simp) fun h => h.words.2 hret⟩
      | some retAddr =>
        simp only [frameChain_succ hsaved hret]
        by_cases hfound : (process retAddr).isSome = true
        · refine ⟨_, if_pos hfound, fun found => ?_⟩
          rw [Option.some_inj]
          exact ⟨fun h => .inl ⟨hfound, h⟩, fun h => h.elim And.right fun h => absurd hfound h.1⟩
        · rw [if_neg hfound]
          by_cases hstop : savedRbp ≤ chainRbp ∨ savedRbp > maxCfa ∨ savedRbp &&& 0x7 ≠ 0
          · refine ⟨none, if_pos hstop, fun found => iff_of_false (by simp) ?_⟩
            exact fun h => h.elim (fun h => hfound h.1) fun h => h.2.1 hstop
          · obtain ⟨link, hlink, hiff⟩ := ih (stackWord_lt hsaved)
            refine ⟨link, (if_neg hstop).trans hlink, fun found => (hiff found).trans ?_⟩
            exact ⟨fun h => .inr ⟨hfound, hstop, h⟩,
              fun h => h.elim (fun h => absurd h.1 hfound) fun h => h.2.2⟩

end Chain

/-! ## The registers -/

/-- The registers are there and hold words. -/
structure Words (unwinder : Unwinder) : Prop where
  sized : unwinder.Sized
  registers : ∀ value ∈ unwinder.registers, value < 2 ^ 64

def register (self : Unwinder) (reg : Nat) : Nat := self.registers.getD reg 0

theorem reset_words (self : Unwinder) {rbp rsp : Nat} (rip : Nat) (hrbp : rbp < 2 ^ 64)
    (hrsp : rsp < 2 ^ 64) : (self.reset rip rbp rsp).Words := by
  refine ⟨self.reset_sized rip rbp rsp, fun value hmem => ?_⟩
  rcases List.mem_or_eq_of_mem_set hmem with hmem | rfl
  · rcases List.mem_or_eq_of_mem_set hmem with hmem | rfl
    · rw [List.eq_of_mem_replicate hmem]
      decide
    · exact hrbp
  · exact hrsp

theorem Words.setRegister {self : Unwinder} (h : self.Words) (reg : Nat) {value : Nat}
    (hvalue : value < 2 ^ 64) : (self.setRegister reg value).Words := by
  refine ⟨h.sized.setRegister reg value, fun value' hmem => ?_⟩
  rcases List.mem_or_eq_of_mem_set hmem with hmem | rfl
  · exact h.registers value' hmem
  · exact hvalue

section Registers

variable {self : Unwinder} {reg : Nat}

theorem Sized.getAt_register (h : self.Sized) (hreg : reg ≤ REG_RA) :
    getAt self.registers reg = .ok (self.register reg) := by
  have hlt : reg < self.registers.length := by rw [h.registers]; omega
  refine getAt_eq_ok.mpr ?_
  rw [register, List.getD_eq_getElem?_getD, List.getElem?_eq_getElem hlt]
  rfl

theorem Sized.getAt_offset (h : self.Sized) (hreg : reg ≤ REG_RA) :
    getAt self.offsets reg = .ok (self.offsets.getD reg 0) := by
  have hlt : reg < self.offsets.length := by rw [h.offsets]; omega
  refine getAt_eq_ok.mpr ?_
  rw [List.getD_eq_getElem?_getD, List.getElem?_eq_getElem hlt]
  rfl

theorem Words.register_lt (h : self.Words) (reg : Nat) : self.register reg < 2 ^ 64 := by
  unfold register
  rw [List.getD_eq_getElem?_getD]
  cases hget : self.registers[reg]? with
  | none => exact Nat.two_pow_pos 64
  | some value => exact h.registers value (List.mem_of_getElem? hget)

theorem Sized.register_set (h : self.Sized) (hreg : reg ≤ REG_RA) (value : Nat) :
    (self.setRegister reg value).register reg = value := by
  have hlt : reg < self.registers.length := by rw [h.registers]; omega
  unfold register Unwinder.setRegister
  rw [List.getD_eq_getElem?_getD, List.getElem?_set_self hlt]
  rfl

theorem register_set_of_ne {other : Nat} (hne : other ≠ reg) (value : Nat) :
    (self.setRegister other value).register reg = self.register reg := by
  unfold register setRegister
  rw [List.getD_eq_getElem?_getD, List.getElem?_set_ne hne, ← List.getD_eq_getElem?_getD]

end Registers

/-! ## The scan -/

section Prolog

variable {checks : OverflowChecks} {process : Unwindable} {stackData : Bytes} {self : Unwinder}

/-- What the stack walk needs to start. -/
def CanScan (self : Unwinder) (stackData : Bytes) : Prop :=
  self.rsp ≤ self.register REG_RSP ∧ 16 ≤ stackData.length

theorem unwindProlog_of_not_canScan (hself : self.Sized) (h : ¬ self.CanScan stackData)
    (error : Option UnwindError) :
    unwindProlog checks process stackData self error = .ok (none, self, error) := by
  unfold unwindProlog
  rw [hself.getAt_register (by decide), ok_bind, hself.getAt_register (by decide), ok_bind]
  refine if_pos ?_
  unfold CanScan at h
  omega

/-- The links that the stack walk can find from the frame pointer. -/
def PrologChain (process : Unwindable) (stackData : Bytes) (self : Unwinder)
    (link : Nat × Nat × Nat) : Prop :=
  FrameChain process stackData self.rsp
    ((self.register REG_RSP + stackData.length) % 2 ^ 64) 16 (self.register REG_RBP) link

theorem addU64_eq_mod {a b c : Nat} (h : checks.addU64 a b = .ok c) : c = (a + b) % 2 ^ 64 := by
  cases checks with
  | on =>
    obtain ⟨hlt, rfl⟩ := addU64_eq_ok.mp h
    exact (Nat.mod_eq_of_lt hlt).symm
  | off => exact (Except.ok.inj h).symm

/-- Above a link of the chain there is room where there is room above the stack. -/
theorem addU64_link {cfa maxCfa rsp len link : Nat} (hmax : checks.addU64 cfa len = .ok maxCfa)
    (hcfa : rsp ≤ cfa) (hlink : link + 16 < rsp + len) :
    checks.addU64 link 16 = .ok ((link + 16) % 2 ^ 64) := by
  cases checks with
  | on =>
    have hlt := (addU64_eq_ok.mp hmax).1
    rw [OverflowChecks.addU64_of_lt _ (by omega), Nat.mod_eq_of_lt (by omega)]
  | off => rfl

/-- **The stack walk.** A link of the chain gives the caller; without one, the scan finds a
caller above the stack pointer, if at all. -/
theorem unwindProlog_eq (hself : self.Words) (hlen : stackData.length < 2 ^ 63)
    (hstart : self.CanScan stackData) {maxCfa : Nat}
    (hmax : checks.addU64 (self.register REG_RSP) stackData.length = .ok maxCfa)
    (error : Option UnwindError) :
    ∃ out, unwindProlog checks process stackData self error = .ok out ∧ out.2.1.Words ∧
      (∀ ip, out.1 = some ip → (process ip).isSome = true) ∧
      ((∃ link, self.PrologChain process stackData link ∧ out.1 = some link.2.2 ∧
          out.2.1.register REG_RSP = (link.1 + 16) % 2 ^ 64) ∨
        ((¬ ∃ link, self.PrologChain process stackData link) ∧
          ∀ ip, out.1 = some ip → self.register REG_RSP < out.2.1.register REG_RSP)) := by
  obtain ⟨hle, hsize⟩ := hstart
  have hrbp := hself.register_lt REG_RBP
  obtain ⟨link, hwalk, hiff⟩ := @chainWalk_eq checks process stackData self.rsp maxCfa hlen 16
    (self.register REG_RBP) hrbp
  rw [addU64_eq_mod hmax] at hiff
  unfold unwindProlog
  rw [hself.sized.getAt_register (by decide), ok_bind, hself.sized.getAt_register (by decide),
    ok_bind]
  dsimp only
  rw [if_neg (by omega), hmax, ok_bind, hwalk, ok_bind]
  cases link with
  | some link =>
    have hchain := (hiff link).mp rfl
    obtain ⟨chainRbp, savedRbp, retAddr⟩ := link
    have habove : checks.addU64 chainRbp 16 = .ok ((chainRbp + 16) % 2 ^ 64) :=
      addU64_link hmax hle (hchain.bounds hrbp).2
    dsimp only
    rw [habove, ok_bind]
    refine ⟨_, rfl, ?_, ?_, .inl ⟨_, hchain, rfl, ?_⟩⟩
    · exact (hself.setRegister REG_RSP (Nat.mod_lt _ (by decide))).setRegister REG_RBP
        hchain.saved_lt
    · rintro _ ⟨⟩
      exact hchain.found
    rw [register_set_of_ne (by decide), hself.sized.register_set (by decide)]
  | none =>
    have hnone : ¬ ∃ link, self.PrologChain process stackData link := by
      rintro ⟨link, hlink⟩
      exact absurd ((hiff link).mpr hlink) (by simp)
    dsimp only
    by_cases hfar : self.register REG_RSP - self.rsp > stackData.length - 8
    · rw [if_pos hfar]
      exact ⟨_, rfl, hself, fun _ h => (by cases h), .inr ⟨hnone, fun _ h => by cases h⟩⟩
    · have hfirst := @ends_readLe True 8 (self.register REG_RSP - self.rsp) stackData (by omega)
      obtain ⟨first, hfirst, hword⟩ | ⟨-, hno⟩ := hfirst
      · have hscan := @scan_ends process stackData True (self.register REG_RSP) maxCfa
          (stackData.length - 8) (by omega) 64 first (self.register REG_RSP - self.rsp + 8)
        obtain ⟨slots, hslots, hfound⟩ | ⟨-, hno⟩ := hscan
        · rw [if_neg hfar, hfirst, ok_bind, hslots, ok_bind]
          cases slots with
          | none =>
            exact ⟨_, rfl, hself, fun _ h => (by cases h), .inr ⟨hnone, fun _ h => by cases h⟩⟩
          | some slots =>
            have hslot := (hfound slots rfl).2.2 hword
            refine ⟨_, rfl, (hself.setRegister REG_RSP hslot).setRegister REG_RBP hslot, ?_,
              .inr ⟨hnone, fun _ _ => ?_⟩⟩
            · rintro _ ⟨⟩
              exact (hfound slots rfl).2.1
            rw [register_set_of_ne (by decide), hself.sized.register_set (by decide)]
            exact (hfound slots rfl).1
        · exact absurd trivial hno
      · exact absurd trivial hno

/-- Where the stack walk ends in a value, it did not start or had room for its bound. -/
theorem unwindProlog_started (hself : self.Sized) {error : Option UnwindError}
    {out : Option Nat × Unwinder × Option UnwindError}
    (h : unwindProlog checks process stackData self error = .ok out) :
    out = (none, self, error) ∨ (self.CanScan stackData ∧
      ∃ maxCfa, checks.addU64 (self.register REG_RSP) stackData.length = .ok maxCfa) := by
  by_cases hstart : self.CanScan stackData
  · refine .inr ⟨hstart, ?_⟩
    obtain ⟨hle, hsize⟩ := hstart
    unfold unwindProlog at h
    rw [hself.getAt_register (by decide), ok_bind, hself.getAt_register (by decide), ok_bind] at h
    dsimp only at h
    rw [if_neg (by omega)] at h
    obtain ⟨maxCfa, hmax, -⟩ := bind_eq_ok.mp h
    exact ⟨maxCfa, hmax⟩
  · rw [unwindProlog_of_not_canScan hself hstart] at h
    exact .inl (Except.ok.inj h).symm

theorem unwindProlog_noPanic (hself : self.Words) (hlen : stackData.length < 2 ^ 63)
    (error : Option UnwindError) :
    NoPanic (unwindProlog .on process stackData self error) ↔
      (self.CanScan stackData → self.register REG_RSP + stackData.length < 2 ^ 64) := by
  by_cases hstart : self.CanScan stackData
  · by_cases hfits : self.register REG_RSP + stackData.length < 2 ^ 64
    · obtain ⟨out, hout, -⟩ := @unwindProlog_eq .on process stackData self hself hlen hstart _
        (OverflowChecks.addU64_of_lt _ hfits) error
      rw [hout]
      exact iff_of_true (noPanic_ok _) fun _ => hfits
    · refine iff_of_false (fun h => hfits ?_) fun h => hfits (h hstart)
      obtain ⟨hle, hsize⟩ := hstart
      unfold unwindProlog at h
      rw [hself.sized.getAt_register (by decide), ok_bind,
        hself.sized.getAt_register (by decide), ok_bind] at h
      dsimp only at h
      rw [if_neg (by omega), noPanic_bind] at h
      exact noPanic_addU64.mp h.1
  · rw [unwindProlog_of_not_canScan hself.sized hstart]
    exact iff_of_true (noPanic_ok _) fun h => absurd h hstart

end Prolog

/-! ## The row of a frame -/

section Row

variable {stackData : Bytes} {self : Unwinder} {cfaData : UnwindCFA}

/-- The sum of the register and the offset of a row, and the frame address it gives. -/
def cfaSum (self : Unwinder) (cfaData : UnwindCFA) : Int :=
  toI64 (self.register cfaData.reg) + cfaData.off

def cfa (self : Unwinder) (cfaData : UnwindCFA) : Nat := toU64 (self.cfaSum cfaData)

def offset (self : Unwinder) (reg : Nat) : Int := self.offsets.getD reg 0

/-- The frame pointer is read from the stack. -/
def SavesRbp (cfaData : UnwindCFA) : Prop := cfaData.offMask &&& REG_RBP_BIT ≠ 0

instance : Decidable (SavesRbp cfaData) := inferInstanceAs (Decidable (_ ≠ _))

/-- The row is followed: it has a return address and a frame above the stack pointer. -/
def Followed (self : Unwinder) (cfaData : UnwindCFA) : Prop :=
  cfaData.offMask &&& REG_RA_BIT ≠ 0 ∧ self.register REG_RSP < self.cfa cfaData

/-- The frame pointer of the caller that the row leads to, if it can be read. -/
def callerRbp? (self : Unwinder) (cfaData : UnwindCFA) (stackData : Bytes) : Option Nat :=
  if SavesRbp cfaData then
    stackWord self.rsp (self.cfa cfaData) (self.offset REG_RBP) stackData
  else some (self.register REG_RBP)

/-- The sums that the row asks for fit: the frame address, then the slots that are read. The
return address is read once the frame pointer was. -/
def RowFits (self : Unwinder) (cfaData : UnwindCFA) (stackData : Bytes) : Prop :=
  cfaData.reg ≤ REG_RA → InI64 (self.cfaSum cfaData) ∧
    (self.Followed cfaData →
      (SavesRbp cfaData → ValueFits self.rsp (self.cfa cfaData) (self.offset REG_RBP)) ∧
      ((self.callerRbp? cfaData stackData).isSome = true →
        ValueFits self.rsp (self.cfa cfaData) (self.offset REG_RA)))

theorem callerRbp_eq {checks : OverflowChecks} (hself : self.Sized)
    (hlen : stackData.length < 2 ^ 63)
    (hfits : SavesRbp cfaData → ValueFits self.rsp (self.cfa cfaData) (self.offset REG_RBP)) :
    callerRbp checks stackData self cfaData (self.cfa cfaData) =
      .ok (self.callerRbp? cfaData stackData) := by
  unfold callerRbp callerRbp?
  by_cases hsaves : SavesRbp cfaData
  · refine (if_pos hsaves).trans ?_
    rw [if_pos hsaves, hself.getAt_offset (by decide), ok_bind]
    exact stackValue_eq hlen (hfits hsaves)
  · refine (if_neg hsaves).trans ?_
    rw [if_neg hsaves, hself.getAt_register (by decide), ok_bind]

theorem callerRbp_noPanic (hself : self.Sized) (hlen : stackData.length < 2 ^ 63) :
    NoPanic (callerRbp .on stackData self cfaData (self.cfa cfaData)) ↔
      (SavesRbp cfaData → ValueFits self.rsp (self.cfa cfaData) (self.offset REG_RBP)) := by
  unfold callerRbp
  rw [noPanic_ite, hself.getAt_offset (by decide), ok_bind, hself.getAt_register (by decide),
    ok_bind]
  exact ⟨fun h hsaves => (stackValue_noPanic hlen).mp (h.1 hsaves),
    fun h => ⟨fun hsaves => (stackValue_noPanic hlen).mpr (h hsaves), fun _ => noPanic_ok _⟩⟩

/-- **One row** of a frame table does its sums. -/
theorem applyRow_noPanic (hself : self.Sized) (hlen : stackData.length < 2 ^ 63)
    (error : Option UnwindError) :
    NoPanic (applyRow .on stackData self cfaData error) ↔ self.RowFits cfaData stackData := by
  unfold applyRow RowFits
  rw [noPanic_ite]
  refine (and_iff_right fun _ => noPanic_ok _).trans (imp_congr_ctx Nat.not_lt fun hreg => ?_)
  rw [hself.getAt_register hreg, ok_bind, noPanic_bind]
  have hcheck : NoPanic (OverflowChecks.on.i64
      (toI64 (self.register cfaData.reg) + cfaData.off)) ↔ InI64 (self.cfaSum cfaData) :=
    noPanic_checkI64
  rw [hcheck]
  refine and_congr_right fun hsum => ?_
  have hcfa : OverflowChecks.on.i64 (toI64 (self.register cfaData.reg) + cfaData.off) =
      .ok (self.cfaSum cfaData) := OverflowChecks.i64_of_inI64 _ hsum
  rw [hcfa]
  simp only [Except.ok.injEq, forall_eq']
  rw [noPanic_ite, hself.getAt_register (by decide), ok_bind, noPanic_ite]
  have hfollowed : self.Followed cfaData ↔ ¬ cfaData.offMask &&& REG_RA_BIT = 0 ∧
      ¬ self.register REG_RSP ≥ toU64 (self.cfaSum cfaData) := and_congr_right' Nat.not_le.symm
  rw [hfollowed, and_imp]
  refine (and_iff_right fun _ => noPanic_ok _).trans (imp_congr_right fun _ => ?_)
  refine (and_iff_right fun _ => noPanic_ok _).trans (imp_congr_right fun _ => ?_)
  rw [noPanic_bind]
  have hcaller := @callerRbp_noPanic stackData self cfaData hself hlen
  refine (and_congr_left' hcaller).trans (and_congr_right fun hfits => ?_)
  have hread := @callerRbp_eq stackData self cfaData .on hself hlen hfits
  change (∀ rbp, callerRbp .on stackData self cfaData (self.cfa cfaData) = .ok rbp → _) ↔ _
  rw [hread]
  simp only [Except.ok.injEq, forall_eq']
  cases hrbp : self.callerRbp? cfaData stackData with
  | none => exact iff_of_true (noPanic_ok _) fun h => absurd h (by simp)
  | some rbp =>
    have hoff : getAt ((self.setRegister REG_RBP rbp).setRegister REG_RSP
        (toU64 (self.cfaSum cfaData))).offsets REG_RA = .ok (self.offset REG_RA) :=
      hself.getAt_offset (le_refl _)
    dsimp only
    rw [hoff, ok_bind, noPanic_bind]
    have hvalue := @stackValue_noPanic stackData self.rsp (self.cfa cfaData)
      (self.offset REG_RA) hlen
    refine (and_iff_left fun ip _ => ?_).trans (hvalue.trans ⟨fun h _ => h, fun h => h rfl⟩)
    cases ip <;> exact noPanic_ok _

/-- **The sums of the unwinder** stay in range and its reads in the stack, if and only if the
stack walk that can start has room for its bound above the stack pointer, and the row of the
frame fits. -/
theorem arithmetic_fits_iff {process : Unwindable} (hself : self.Words)
    (hlen : stackData.length < 2 ^ 63) {offsets : List Int}
    (hoffsets : offsets.length = REG_RA + 1) (error : Option UnwindError) :
    (NoPanic (unwindProlog .on process stackData self error) ∧
        NoPanic (applyRow .on stackData { self with offsets } cfaData error)) ↔
      (self.CanScan stackData → self.register REG_RSP + stackData.length < 2 ^ 64) ∧
        RowFits { self with offsets } cfaData stackData :=
  and_congr (unwindProlog_noPanic hself hlen error)
    (@applyRow_noPanic stackData { self with offsets } cfaData
      ⟨hself.sized.registers, hoffsets⟩ hlen error)

/-- A frame of 16 bytes in the middle of a captured stack. -/
theorem arithmetic_fits_frame :
    (NoPanic (unwindProlog .on (fun _ => none) (List.replicate 64 0)
          (Unwinder.new.reset 0x40000500 0x70000010 0x70000000) none) ∧
        NoPanic (applyRow .on (List.replicate 64 0)
          { Unwinder.new.reset 0x40000500 0x70000010 0x70000000 with
            offsets := List.replicate 16 0 ++ [-8] } ⟨REG_RSP, 16, REG_RA_BIT⟩ none)) ↔
      ((Unwinder.new.reset 0x40000500 0x70000010 0x70000000).CanScan (List.replicate 64 0) →
          (Unwinder.new.reset 0x40000500 0x70000010 0x70000000).register REG_RSP +
            (List.replicate 64 (0 : UInt8)).length < 2 ^ 64) ∧
        RowFits { Unwinder.new.reset 0x40000500 0x70000010 0x70000000 with
            offsets := List.replicate 16 0 ++ [-8] } ⟨REG_RSP, 16, REG_RA_BIT⟩
          (List.replicate 64 0) :=
  arithmetic_fits_iff (reset_words _ _ (by decide) (by decide)) (by decide) (by decide) none

/-- A stack pointer in the last words of the address space, and a frame address from a register
at the end of the signed words. -/
theorem arithmetic_overflows :
    unwindProlog .on (fun _ => none) (List.replicate 16 0)
        (Unwinder.new.reset 0x40000500 0 (2 ^ 64 - 8)) none = panicked ∧
      applyRow .on (List.replicate 64 0) (Unwinder.new.reset 0x40000500 (2 ^ 63 - 1) 0x70000000)
        ⟨REG_RBP, 16, REG_RA_BIT⟩ none = panicked :=
  ⟨rfl, rfl⟩

end Row

end Unwinder

end OneCollect.Ruwind
