import OneCollect.Ruwind.Unwinder

/-! What a walk records, whatever the tables, the stack and the registers hold.

Every part of the loop ends (`Theory.Ends`); the only way out without a value is a panic.
`PanicFree` names what excludes one: arithmetic that wraps around and tables whose bytes
decode. The loop keeps `AtHead`, and each of its exits leaves `Recorded` frames. -/

namespace OneCollect.Ruwind
open Theory

/-! ## Tables that decode -/

namespace FrameOffsets

def Loads (accessor : ModuleAccessor) (key : ModuleKey) (offset : FrameOffset) : Prop :=
  ∃ offset', ensureParsed accessor key offset = .ok offset'

/-- What has been read of a table decodes. -/
def Readable (accessor : ModuleAccessor) (key : ModuleKey) (self : FrameOffsets) : Prop :=
  self.filled = true → ∀ offset ∈ self.frameOffsets, Loads accessor key offset

end FrameOffsets

/-- Every table of an accessor decodes. -/
def ReadableAccessor (accessor : ModuleAccessor) : Prop :=
  ∀ key, ∃ offsets, FrameOffsets.load accessor key = .ok offsets ∧
    ∀ offset ∈ offsets, FrameOffsets.Loads accessor key offset

def Unwinder.Readable (accessor : ModuleAccessor) (self : Unwinder) : Prop :=
  ∀ key, (self.frameCache key).Readable accessor key

/-- A build and its input without panics. -/
structure PanicFree (checks : OverflowChecks) (accessor : ModuleAccessor) (unwinder : Unwinder)
    (stackData : Bytes) : Prop where
  checks_off : checks = .off
  stack_lt : stackData.length < 2 ^ 63
  accessor_readable : ReadableAccessor accessor
  unwinder_readable : unwinder.Readable accessor

namespace FrameOffsets

variable {accessor : ModuleAccessor} {key : ModuleKey} {safe : Prop}

theorem load_ends (hsafe : safe → ReadableAccessor accessor) :
    Ends safe (load accessor key)
      (fun offsets => safe → ∀ offset ∈ offsets, Loads accessor key offset) := by
  have hpost : ∀ offsets, load accessor key = .ok offsets →
      safe → ∀ offset ∈ offsets, Loads accessor key offset := by
    intro offsets hload hs
    obtain ⟨offsets', hload', hloads⟩ := hsafe hs key
    rw [hload] at hload'
    cases hload'
    exact hloads
  cases hload : load accessor key with
  | ok offsets => exact ends_ok (hpost offsets hload)
  | error fault =>
    cases fault with
    | panic =>
      refine ends_panicked fun hs => ?_
      obtain ⟨offsets, hload', -⟩ := hsafe hs key
      rw [hload] at hload'
      cases hload'
    | error text =>
      unfold load at hload
      split at hload
      · cases hload
      · split at hload <;> cases hload

/-- An entry is parsed once. -/
theorem ensureParsed_parsed {offset offset' : FrameOffset}
    (h : ensureParsed accessor key offset = .ok offset') : offset'.isUnparsed = false := by
  unfold ensureParsed at h
  split at h
  · cases hfile : accessor key with
    | none =>
      rw [hfile] at h
      cases h
      rfl
    | some file =>
      rw [hfile] at h
      cases hload : offset.loadRules file with
      | error fault => cases fault <;> simp [FrameHeaderTable.parseOffset, hload] at h; subst h; rfl
      | ok loaded =>
        simp only [FrameHeaderTable.parseOffset, hload, Except.ok.injEq] at h
        subst h
        obtain ⟨_, _, _, _, -, -, -, rfl⟩ := FrameOffset.loadRules_eq_ok.mp hload
        rfl
  · rename_i hparsed
    cases h
    simpa using hparsed

theorem loads_of_parsed {offset : FrameOffset} (h : offset.isUnparsed = false) :
    Loads accessor key offset :=
  ⟨offset, by rw [ensureParsed, h, if_neg Bool.false_ne_true]⟩

/-- `ensureParsed` passes on no error. -/
theorem ensureParsed_ends {offset : FrameOffset} (hsafe : safe → Loads accessor key offset) :
    Ends safe (ensureParsed accessor key offset) (fun offset' => offset'.isUnparsed = false) := by
  cases h : ensureParsed accessor key offset with
  | ok offset' => exact ends_ok (ensureParsed_parsed h)
  | error fault =>
    cases fault with
    | panic =>
      refine ends_panicked fun hs => ?_
      obtain ⟨offset', hok⟩ := hsafe hs
      rw [h] at hok
      cases hok
    | error text =>
      unfold ensureParsed at h
      split at h
      · split at h
        · cases h
        · split at h <;> cases h
      · cases h

theorem fill_ends {self : FrameOffsets} (haccessor : safe → ReadableAccessor accessor)
    (hself : safe → self.Readable accessor key) :
    Ends safe (self.fill accessor key) (fun filled =>
      safe → ∀ offset ∈ filled.frameOffsets, Loads accessor key offset) := by
  unfold fill
  by_cases hfilled : self.filled = true
  · rw [if_pos hfilled]
    exact ends_ok fun hs => hself hs hfilled
  · rw [if_neg hfilled]
    exact (load_ends haccessor).bind fun offsets hloads => ends_ok hloads

/-- **The lookup** answers, and keeps the table readable. -/
theorem getFrameOffset_ends {checks : OverflowChecks} (hchecks : safe → checks = .off)
    {self : FrameOffsets} (haccessor : safe → ReadableAccessor accessor)
    (hself : safe → self.Readable accessor key) (rva : Nat) :
    Ends safe (self.getFrameOffset checks accessor key rva)
      (fun out => safe → out.2.Readable accessor key) := by
  unfold getFrameOffset
  refine (fill_ends haccessor hself).bind fun filled hloads => ?_
  cases hfind : FrameOffset.find rva filled.frameOffsets with
  | none => exact ends_ok fun hs _ => hloads hs
  | some index =>
    refine (ends_getAt (FrameOffset.find_lt hfind)).bind fun offset hget => ?_
    have hmem := List.mem_of_getElem? hget
    refine (ensureParsed_ends fun hs => hloads hs offset hmem).bind fun offset' hparsed => ?_
    have hset : safe → (FrameOffsets.mk (filled.frameOffsets.set index offset')
        filled.filled).Readable accessor key := by
      intro hs _ offset'' hmem'
      rcases List.mem_or_eq_of_mem_set hmem' with hold | rfl
      · exact hloads hs offset'' hold
      · exact loads_of_parsed hparsed
    dsimp only
    split
    · split
      · refine (ends_addU64 hchecks _ _).bind fun stop _ => ?_
        split <;> exact ends_ok hset
      · exact ends_ok hset
    · exact ends_ok hset

end FrameOffsets

/-! ## The row of an address -/

namespace FrameOffset

variable {safe : Prop}

theorem ends_shl64 {bit : Nat} (h : safe → bit < 64) (x : BitVec 64) :
    Ends safe (shl64 x bit) (fun out => out = x <<< bit) := by
  unfold shl64
  by_cases hbit : bit < 64
  · rw [if_pos hbit]
    exact ends_ok rfl
  · rw [if_neg hbit]
    exact ends_panicked fun hsafe => hbit (h hsafe)

theorem replayReg_ends {maxReg : Nat} (hmax : safe → maxReg ≤ 64) (acc : UnwindCFA × List Int)
    (regState : RegState) :
    Ends safe (replayReg maxReg acc regState) (fun out => out.2.length = acc.2.length) := by
  unfold replayReg
  by_cases hreg : regState.reg ≥ maxReg
  · simp only [if_pos hreg]
    exact ends_ok rfl
  · have hbit : safe → regState.reg < 64 := fun hsafe => by
      have := hmax hsafe
      omega
    simp only [if_neg hreg]
    split
    · exact (ends_shl64 hbit 1).bind fun _ _ => ends_ok rfl
    · split
      · exact ends_ok rfl
      · exact (ends_shl64 hbit 1).bind fun _ _ => ends_ok List.length_set

theorem replayRegs_ends {maxReg : Nat} (hmax : safe → maxReg ≤ 64) (regStates : List RegState)
    (acc : UnwindCFA × List Int) :
    Ends safe (regStates.foldlM (replayReg maxReg) acc)
      (fun out => out.2.length = acc.2.length) := by
  induction regStates generalizing acc with
  | nil => exact ends_ok rfl
  | cons regState regStates ih =>
    rw [List.foldlM_cons]
    exact (replayReg_ends hmax acc regState).bind fun out hout =>
      (ih out).mono fun _ h => h.trans hout

theorem replay_ends {maxReg : Nat} (hmax : safe → maxReg ≤ 64) (rva : Nat)
    (states : List FrameState) (acc : UnwindCFA × List Int) :
    Ends safe (replay maxReg rva states acc) (fun out => out.2.length = acc.2.length) := by
  induction states generalizing acc with
  | nil => exact ends_ok rfl
  | cons state states ih =>
    unfold replay
    split
    · exact ends_ok rfl
    · exact (replayRegs_ends hmax state.regStates _).bind fun out hout =>
        (ih out).mono fun _ h => h.trans hout

theorem unwindToCfa_ends (self : FrameOffset) {regOffsets : List Int}
    (hlen : safe → regOffsets.length ≤ 64) (rva : Nat) :
    Ends safe (self.unwindToCfa regOffsets rva)
      (fun out => out.2.length = regOffsets.length) :=
  replay_ends (fun hsafe => le_trans (Nat.mod_le _ _) (hlen hsafe)) rva _ _

end FrameOffset

/-! ## The parts of a turn -/

namespace Unwinder

variable {checks : OverflowChecks} {process : Unwindable} {stackData : Bytes} {safe : Prop}

theorem stackValue_ends (hchecks : safe → checks = .off) (hlen : safe → stackData.length < 2 ^ 63)
    (rsp cfa : Nat) (off : Int) :
    Ends safe (stackValue checks rsp cfa off stackData) (fun _ => True) := by
  unfold stackValue
  split
  · exact ends_ok trivial
  · refine (ends_i64 hchecks _).bind fun offset _ => ?_
    refine (ends_i64 hchecks _).bind fun maxOffset hmax => ?_
    split
    · exact ends_ok trivial
    · rename_i hin
      rw [not_or, Int.not_lt, ge_iff_le, Int.not_le] at hin
      by_cases hfit : offset.toNat + 8 ≤ stackData.length
      · exact (ends_readLe hfit).bind fun value _ => ends_ok trivial
      · -- the word ends outside the slice: only for a slice no build can hold
        have hpanic : readLe 8 stackData offset.toNat = panicked := by
          unfold readLe slice
          rw [if_neg (by omega)]
          rfl
        rw [hpanic]
        refine ends_panicked fun hs => ?_
        have hlt := hlen hs
        have hi64 : toI64 stackData.length = stackData.length := if_pos hlt
        rw [hi64] at hmax
        have := hmax (by unfold InI64; omega)
        omega

theorem chainWalk_ends (hchecks : safe → checks = .off)
    (hlen : safe → stackData.length < 2 ^ 63) (rsp maxCfa depth chainRbp : Nat) :
    Ends safe (chainWalk checks process stackData rsp maxCfa depth chainRbp)
      (fun link => ∀ found, link = some found → (process found.2.2).isSome) := by
  induction depth generalizing chainRbp with
  | zero => exact ends_ok fun _ h => nomatch h
  | succ depth ih =>
    unfold chainWalk
    refine (stackValue_ends hchecks hlen _ _ _).bind fun savedRbp _ => ?_
    cases savedRbp with
    | none => exact ends_ok fun _ h => nomatch h
    | some savedRbp =>
      refine (stackValue_ends hchecks hlen _ _ _).bind fun retAddr _ => ?_
      cases retAddr with
      | none => exact ends_ok fun _ h => nomatch h
      | some retAddr =>
        dsimp only
        split
        · rename_i hfound
          refine ends_ok fun found h => ?_
          cases h
          exact hfound
        · split
          · exact ends_ok fun _ h => nomatch h
          · exact ih savedRbp

theorem scan_ends {cfa maxCfa maxOffset : Nat} (hmax : maxOffset + 8 ≤ stackData.length)
    (turns first offset : Nat) :
    Ends safe (scan process stackData cfa maxCfa maxOffset turns first offset)
      (fun slots => ∀ found, slots = some found →
        cfa < found.1 ∧ (process found.2).isSome ∧ (first < 2 ^ 64 → found.1 < 2 ^ 64)) := by
  induction turns generalizing first offset with
  | zero => exact ends_ok fun _ h => nomatch h
  | succ turns ih =>
    unfold scan
    split
    · refine (ends_readLe (by omega)).bind fun second hsecond => ?_
      split
      · rename_i hfound
        refine ends_ok fun found h => ?_
        cases h
        exact ⟨hfound.1, hfound.2.2, id⟩
      · refine (ih second (offset + 8)).mono fun slots hslots found h => ?_
        obtain ⟨hlt, hmodule, hword⟩ := hslots found h
        exact ⟨hlt, hmodule, fun _ => hword hsecond⟩
    · exact ends_ok fun _ h => nomatch h

/-- The registers and the offsets have all their slots. -/
structure Sized (unwinder : Unwinder) : Prop where
  registers : unwinder.registers.length = REG_RA + 1
  offsets : unwinder.offsets.length = REG_RA + 1

theorem reset_sized (self : Unwinder) (rip rbp rsp : Nat) : (self.reset rip rbp rsp).Sized :=
  ⟨by simp [reset], by simp [reset]⟩

theorem Sized.setRegister {self : Unwinder} (h : self.Sized) (reg value : Nat) :
    (self.setRegister reg value).Sized :=
  ⟨by rw [Unwinder.setRegister, List.length_set, h.registers], h.offsets⟩

/-- What a part of a turn keeps: the slots, and a property of the cache. -/
structure Keeps (I : (ModuleKey → FrameOffsets) → Prop) (unwinder : Unwinder) : Prop where
  sized : unwinder.Sized
  cache : I unwinder.frameCache

theorem Keeps.setRegister {I : (ModuleKey → FrameOffsets) → Prop} {self : Unwinder}
    (h : self.Keeps I) (reg value : Nat) : (self.setRegister reg value).Keeps I :=
  ⟨h.sized.setRegister reg value, h.cache⟩

/-- The assumptions of a walk: what excludes a panic, and a property of the cache that every
lookup keeps. -/
structure Assumed (safe : Prop) (checks : OverflowChecks) (accessor : ModuleAccessor)
    (stackData : Bytes) (I : (ModuleKey → FrameOffsets) → Prop) : Prop where
  checks_off : safe → checks = .off
  stack_lt : safe → stackData.length < 2 ^ 63
  lookup : ∀ cache key rva, I cache →
    Ends safe ((cache key).getFrameOffset checks accessor key rva)
      (fun out => I (Function.update cache key out.2))

variable {accessor : ModuleAccessor} {I : (ModuleKey → FrameOffsets) → Prop}

/-- **The scan** finds callers in modules only. -/
theorem unwindProlog_ends (hassumed : Assumed safe checks accessor stackData I) {self : Unwinder}
    (hself : self.Keeps I) (error : Option UnwindError) :
    Ends safe (unwindProlog checks process stackData self error)
      (fun out => out.2.1.Keeps I ∧
        ∀ ip, out.1 = some ip → (process ip).isSome) := by
  have hsized := hself.sized.registers
  unfold unwindProlog
  refine (ends_getAt (by rw [hsized]; decide)).bind fun cfa _ => ?_
  refine (ends_getAt (by rw [hsized]; decide)).bind fun rbp _ => ?_
  dsimp only
  split
  · exact ends_ok ⟨hself, fun _ h => nomatch h⟩
  · rename_i hstart
    refine (ends_addU64 hassumed.checks_off _ _).bind fun maxCfa _ => ?_
    refine (chainWalk_ends hassumed.checks_off hassumed.stack_lt _ _ _ _).bind fun link hlink => ?_
    cases link with
    | some link =>
      obtain ⟨chainRbp, savedRbp, retAddr⟩ := link
      refine (ends_addU64 hassumed.checks_off _ _).bind fun above _ => ends_ok ⟨?_, ?_⟩
      · exact (hself.setRegister _ _).setRegister _ _
      · intro ip h
        cases h
        exact hlink _ rfl
    | none =>
      dsimp only
      split
      · exact ends_ok ⟨hself, fun _ h => nomatch h⟩
      · refine (ends_readLe (by omega)).bind fun first _ => ?_
        refine (scan_ends (by omega) _ _ _).bind fun slots hslots => ?_
        cases slots with
        | none => exact ends_ok ⟨hself, fun _ h => nomatch h⟩
        | some slots =>
          obtain ⟨first, second⟩ := slots
          refine ends_ok ⟨(hself.setRegister _ _).setRegister _ _, ?_⟩
          intro ip h
          cases h
          exact (hslots _ rfl).2.1

theorem callerRbp_ends (hchecks : safe → checks = .off)
    (hlen : safe → stackData.length < 2 ^ 63) {self : Unwinder} (hself : self.Sized)
    (cfaData : UnwindCFA) (cfa : Nat) :
    Ends safe (callerRbp checks stackData self cfaData cfa) (fun _ => True) := by
  unfold callerRbp
  split
  · exact (ends_getAt (by rw [hself.offsets]; decide)).bind fun off _ =>
      stackValue_ends hchecks hlen _ _ _
  · exact (ends_getAt (by rw [hself.registers]; decide)).bind fun rbp _ => ends_ok trivial

theorem applyRow_ends (hassumed : Assumed safe checks accessor stackData I) {self : Unwinder}
    (hself : self.Keeps I) (cfaData : UnwindCFA) (error : Option UnwindError) :
    Ends safe (applyRow checks stackData self cfaData error)
      (fun out => out.2.1.Keeps I) := by
  have hregisters := hself.sized.registers
  have hchecks := hassumed.checks_off
  have hlen := hassumed.stack_lt
  unfold applyRow
  split
  · exact ends_ok hself
  · rename_i hreg
    refine (ends_getAt (by rw [hregisters]; omega)).bind fun value _ => ?_
    refine (ends_i64 hchecks _).bind fun sum _ => ?_
    dsimp only
    split
    · exact ends_ok hself
    · refine (ends_getAt (by rw [hregisters]; decide)).bind fun rsp _ => ?_
      split
      · exact ends_ok hself
      · refine (callerRbp_ends hchecks hlen hself.sized _ _).bind fun rbp _ => ?_
        cases rbp with
        | none => exact ends_ok hself
        | some rbp =>
          have hset := (hself.setRegister REG_RBP rbp).setRegister REG_RSP (toU64 sum)
          refine (ends_getAt (by rw [hset.sized.offsets]; decide)).bind fun off _ => ?_
          refine (stackValue_ends hchecks hlen _ _ _).bind fun ip _ => ?_
          cases ip <;> exact ends_ok hset

theorem unwindModule_ends (hassumed : Assumed safe checks accessor stackData I) {self : Unwinder}
    (hself : self.Keeps I) (key : ModuleKey) (rva : Nat) (error : Option UnwindError) :
    Ends safe (unwindModule checks accessor stackData self key rva error)
      (fun out => out.2.1.Keeps I) := by
  unfold unwindModule
  refine (hassumed.lookup self.frameCache key rva hself.cache).bind ?_
  rintro ⟨offset, frames⟩ hcache
  cases offset with
  | none => exact ends_ok ⟨⟨hself.sized.registers, hself.sized.offsets⟩, hcache⟩
  | some offset =>
    have hoffsets := hself.sized.offsets
    refine (FrameOffset.unwindToCfa_ends offset (fun _ => by rw [hoffsets]; decide) rva).bind ?_
    rintro ⟨cfaData, offsets⟩ hout
    have hself' : Keeps I
        { self with frameCache := Function.update self.frameCache key frames, offsets } :=
      ⟨⟨hself.sized.registers, hout.trans hoffsets⟩, hcache⟩
    exact applyRow_ends hassumed hself' cfaData error

/-- The sections a process finds tell the position of the addresses they are found for. -/
def HasPositions (safe : Prop) (process : Unwindable) : Prop :=
  ∀ ip module, process ip = some module → Ends safe (module.rva ip) (fun _ => True)

theorem callerOf_ends (hassumed : Assumed safe checks accessor stackData I)
    (hprocess : HasPositions safe process) {self : Unwinder} (hself : self.Keeps I)
    {module : CodeSection} (hmodule : process self.rip = some module)
    (error : Option UnwindError) :
    Ends safe (callerOf checks accessor stackData process self module error)
      (fun out => out.2.1.Keeps I) := by
  unfold callerOf
  split
  · exact (unwindProlog_ends hassumed hself error).mono fun _ h => h.1
  · refine (hprocess _ _ hmodule).bind fun rva _ => ?_
    refine (unwindModule_ends hassumed hself module.key rva error).bind ?_
    rintro ⟨ip, unwinder, error'⟩ hkeeps
    dsimp only
    split
    · exact (unwindProlog_ends hassumed hkeeps none).mono fun _ h => h.1
    · exact ends_ok hkeeps

theorem recover_ends (hassumed : Assumed safe checks accessor stackData I) {self : Unwinder}
    (hself : self.Keeps I) (savedRsp savedRbp nextIp : Nat) (error : Option UnwindError) :
    Ends safe (recover checks stackData process self savedRsp savedRbp nextIp error)
      (fun out => out.2.1.Keeps I) := by
  unfold recover
  split
  · have hset := (hself.setRegister REG_RSP savedRsp).setRegister REG_RBP savedRbp
    refine (unwindProlog_ends hassumed hset error).bind ?_
    rintro ⟨recovered, unwinder, error'⟩ hkeeps
    cases recovered <;> exact ends_ok hkeeps.1
  · exact ends_ok hself

end Unwinder

/-! ## The frames of a walk -/

namespace Walk

variable {checks : OverflowChecks} {process : Unwindable} {accessor : ModuleAccessor}
  {stackData : Bytes} {safe : Prop} {before : List Nat} {rip : Nat}
  {I : (ModuleKey → FrameOffsets) → Prop}

/-- `n` frames behind those before: the first address, then addresses in modules. -/
def Recorded (process : Unwindable) (before : List Nat) (rip : Nat) (frames : List Nat)
    (n : Nat) : Prop :=
  ∃ callers, frames = before ++ rip :: callers ∧ n = callers.length + 1 ∧ n ≤ 128 ∧
    ∀ ip ∈ callers, ip ≠ 0 ∧ (process ip).isSome

theorem Recorded.concat {frames : List Nat} {n ip : Nat}
    (h : Recorded process before rip frames n) (hn : n < 128) (hip : ip ≠ 0)
    (hfound : (process ip).isSome) : Recorded process before rip (frames ++ [ip]) (n + 1) := by
  obtain ⟨callers, rfl, rfl, -, hall⟩ := h
  refine ⟨callers ++ [ip], by simp, by simp, by omega, fun ip' hmem => ?_⟩
  rcases List.mem_append.mp hmem with hold | hnew
  · exact hall ip' hold
  · cases List.mem_singleton.mp hnew
    exact ⟨hip, hfound⟩

/-- The head of the loop: the address to unwind from is the last frame, not yet known to lie
in a module. -/
structure AtHead (I : (ModuleKey → FrameOffsets) → Prop) (process : Unwindable)
    (before : List Nat) (rip : Nat) (s : Walk) : Prop where
  keeps : s.unwinder.Keeps I
  frames : (s.unwinder.rip = rip ∧ s.stackFrames = before ++ [rip] ∧ s.result.framesPushed = 1) ∨
    (∃ frames n, Recorded process before rip frames n ∧
      s.stackFrames = frames ++ [s.unwinder.rip] ∧ s.result.framesPushed = n + 1 ∧ n < 128 ∧
      s.unwinder.rip ≠ 0)

/-- An address at the head that lies in a module is a recorded frame. -/
theorem AtHead.recorded {s : Walk} (h : AtHead I process before rip s)
    (hfound : (process s.unwinder.rip).isSome) :
    Recorded process before rip s.stackFrames s.result.framesPushed := by
  obtain ⟨hrip, hframes, hn⟩ | ⟨frames, n, hrec, hframes, hn, hlt, hne⟩ := h.frames
  · exact ⟨[], hframes, hn, by omega, by simp⟩
  · rw [hframes, hn]
    exact hrec.concat hlt hne hfound

/-- An address at the head that lies in no module is dropped. -/
theorem AtHead.trim {s : Walk} (h : AtHead I process before rip s) :
    Recorded process before rip s.trim.stackFrames s.trim.result.framesPushed := by
  unfold Walk.trim
  obtain ⟨hrip, hframes, hn⟩ | ⟨frames, n, hrec, hframes, hn, hlt, hne⟩ := h.frames
  · rw [if_neg (by omega)]
    exact ⟨[], hframes, hn, by omega, by simp⟩
  · have hpos : 0 < n := by obtain ⟨callers, -, hn, -, -⟩ := hrec; omega
    rw [if_pos (by omega)]
    simp only [hframes, hn, List.dropLast_concat, Nat.add_sub_cancel]
    exact hrec

/-- A pushed frame that ends the loop is dropped. -/
theorem trim_push {s : Walk} (h : Recorded process before rip s.stackFrames s.result.framesPushed)
    (unwinder : Unwinder) (error : Option UnwindError) (ip : Nat) :
    Recorded process before rip (s.push unwinder error ip).trim.stackFrames
      (s.push unwinder error ip).trim.result.framesPushed := by
  have hpos : 0 < s.result.framesPushed := by obtain ⟨callers, -, hn, -, -⟩ := h; omega
  unfold Walk.trim Walk.push
  rw [if_pos (by dsimp only; omega)]
  simpa using h

@[simp] theorem unwinder_trim (s : Walk) : s.trim.unwinder = s.unwinder := by
  unfold Walk.trim
  split <;> rfl

/-- A walk that has ended: recorded frames, and what the lookups keep. -/
def Ended (I : (ModuleKey → FrameOffsets) → Prop) (process : Unwindable) (before : List Nat)
    (rip : Nat) (s : Walk) : Prop :=
  Recorded process before rip s.stackFrames s.result.framesPushed ∧ s.unwinder.Keeps I

/-- **One turn** leaves the head of the loop, or frames that are recorded at its end. -/
theorem turn_ends (hassumed : Unwinder.Assumed safe checks accessor stackData I)
    (hprocess : Unwinder.HasPositions safe process) {s : Walk}
    (h : AtHead I process before rip s) {module : CodeSection}
    (hmodule : process s.unwinder.rip = some module) :
    Ends safe (s.turn checks process accessor stackData module) (fun out =>
      (out.1 = .again ∧ AtHead I process before rip out.2 ∧
        out.2.result.framesPushed = s.result.framesPushed + 1) ∨
      (out.1 = .break ∧ Ended I process before rip out.2.trim) ∨
      (out.1 = .return ∧ Ended I process before rip out.2)) := by
  have hrec := h.recorded (by rw [hmodule]; rfl)
  have hregisters := h.keeps.sized.registers
  unfold turn
  refine (ends_getAt (by rw [hregisters]; decide)).bind fun savedRsp _ => ?_
  refine (ends_getAt (by rw [hregisters]; decide)).bind fun savedRbp _ => ?_
  refine (Unwinder.callerOf_ends hassumed hprocess h.keeps hmodule _).bind ?_
  rintro ⟨ip, unwinder, error⟩ hkeeps
  cases ip with
  | none => exact ends_ok (Or.inr (Or.inr ⟨rfl, hrec, hkeeps⟩))
  | some nextIp =>
    refine (Unwinder.recover_ends hassumed hkeeps savedRsp savedRbp nextIp error).bind ?_
    rintro ⟨nextIp, unwinder, error⟩ hkeeps
    have hpushed : (s.push unwinder error nextIp).unwinder.Keeps I :=
      ⟨⟨hkeeps.sized.registers, hkeeps.sized.offsets⟩, hkeeps.cache⟩
    have htrim : Ended I process before rip (s.push unwinder error nextIp).trim :=
      ⟨trim_push hrec unwinder error nextIp, by rw [unwinder_trim]; exact hpushed⟩
    dsimp only
    split
    · exact ends_ok (Or.inr (Or.inl ⟨rfl, htrim⟩))
    · rename_i hcap
      split
      · exact ends_ok (Or.inr (Or.inl ⟨rfl, htrim⟩))
      · rename_i hne
        have hlt : s.result.framesPushed < 128 := by
          unfold Walk.push at hcap
          dsimp only at hcap
          omega
        exact ends_ok (Or.inl ⟨rfl, ⟨hpushed, Or.inr ⟨_, _, hrec, rfl, rfl, hlt, hne⟩⟩, rfl⟩)

/-- **The loop** ends within the turns the cap of frames leaves, and with recorded frames. -/
theorem loop_ends (hassumed : Unwinder.Assumed safe checks accessor stackData I)
    (hprocess : Unwinder.HasPositions safe process) (turns : Nat) {s : Walk}
    (h : AtHead I process before rip s) (hturns : 129 ≤ turns + s.result.framesPushed) :
    Ends safe (s.loop checks process accessor stackData turns) (fun out =>
      ∃ ended, out = some ended ∧ Ended I process before rip ended) := by
  induction turns generalizing s with
  | zero =>
    obtain ⟨-, -, hn⟩ | ⟨-, n, -, -, hn, hlt, -⟩ := h.frames <;> omega
  | succ turns ih =>
    unfold loop
    cases hmodule : process s.unwinder.rip with
    | none => exact ends_ok ⟨_, rfl, h.trim, by rw [unwinder_trim]; exact h.keeps⟩
    | some module =>
      refine (turn_ends hassumed hprocess h hmodule).bind ?_
      rintro ⟨next, s'⟩ (⟨rfl, hhead, hn⟩ | ⟨rfl, hended⟩ | ⟨rfl, hended⟩)
      · exact ih hhead (by dsimp only at hn; omega)
      · exact ends_ok ⟨_, rfl, hended⟩
      · exact ends_ok ⟨_, rfl, hended⟩

end Walk

/-! ## The machine -/

theorem Process.findModule_contains {self : Process} {ip : Nat} {module : Module}
    (h : self.findModule ip = some module) : module.start ≤ ip ∧ ip ≤ module.stop := by
  unfold Process.findModule at h
  dsimp only at h
  split at h
  · split at h
    · rename_i hin
      cases h
      exact hin
    · cases h
  · cases h

theorem Process.find_hasPositions {checks : OverflowChecks} {safe : Prop}
    (hchecks : safe → checks = .off) (self : Process) :
    Unwinder.HasPositions safe (self.find checks) := by
  intro ip section_ h
  obtain ⟨module, hmodule, rfl⟩ := Option.map_eq_some_iff.mp h
  have hstart : subU64 ip module.start = .ok (ip - module.start) :=
    if_pos (Process.findModule_contains hmodule).1
  change Ends safe (module.rva checks ip) _
  unfold Module.rva
  rw [hstart, ok_bind]
  exact (ends_addU64 hchecks _ _).bind fun position _ => ends_addU64 hchecks _ _

/-- A walk of a mapped process ends with recorded frames, and keeps what its lookups keep. -/
theorem Machine.unwindProcess_ends {safe : Prop} {checks : OverflowChecks}
    {accessor : ModuleAccessor} {stackData : Bytes} {I : (ModuleKey → FrameOffsets) → Prop}
    (hassumed : Unwinder.Assumed safe checks accessor stackData I) (machine : Machine) {pid : Nat}
    {process : Process} (hmapped : machine.processes pid = some process) {unwinder : Unwinder}
    (hcache : I unwinder.frameCache) (rip rbp rsp : Nat) (stackFrames : List Nat) :
    Ends safe
      (machine.unwindProcess checks pid unwinder accessor rip rbp rsp stackData stackFrames)
      (fun out => ∃ unwound, out = some unwound ∧
        Walk.Ended I (process.sort.find checks) stackFrames rip unwound.walk) := by
  unfold Machine.unwindProcess
  rw [hmapped]
  refine (Walk.loop_ends hassumed (process.sort.find_hasPositions hassumed.checks_off) 129
    ⟨⟨unwinder.reset_sized rip rbp rsp, hcache⟩, Or.inl ⟨rfl, rfl, rfl⟩⟩
    (Nat.le_add_right 129 1)).bind ?_
  rintro out ⟨ended, rfl, hended⟩
  exact ends_ok ⟨_, rfl, hended⟩

/-- The lookups keep the tables of a panic-free walk readable. -/
theorem PanicFree.assumed (checks : OverflowChecks) (accessor : ModuleAccessor)
    (unwinder : Unwinder) (stackData : Bytes) :
    Unwinder.Assumed (PanicFree checks accessor unwinder stackData) checks accessor stackData
      (fun cache => PanicFree checks accessor unwinder stackData →
        ∀ key, (cache key).Readable accessor key) where
  checks_off := fun hs => hs.checks_off
  stack_lt := fun hs => hs.stack_lt
  lookup := by
    intro cache key rva hcache
    refine (FrameOffsets.getFrameOffset_ends (fun hs => hs.checks_off)
      (fun hs => hs.accessor_readable) (fun hs => hcache hs key) rva).mono ?_
    rintro ⟨offset, frames⟩ hframes hs key'
    by_cases hkey : key' = key
    · subst hkey
      rw [Function.update_self]
      exact hframes hs
    · rw [Function.update_of_ne hkey]
      exact hcache hs key'

/-- A process with one section and no files. -/
def anonymousProcess : Process := Process.addModule {} (Module.newAnon 0x40000000 0x40001000)

end OneCollect.Ruwind
