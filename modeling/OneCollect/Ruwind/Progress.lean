import OneCollect.Ruwind.StackReads
import OneCollect.Theory.Transition

/-! Forward progress of the unwinder: whether a turn of the loop that finds a caller in a module
moves the stack pointer up.

A row of a frame table and the scan of the stack do, by their own guards. The chain of frame
pointers starts from the register, which may be stale, and is only checked against the captured
stack: `turn_progresses_iff` says that it is the one way back. -/

namespace OneCollect.Ruwind
open Theory

namespace Unwinder

section Conditions

variable (checks : OverflowChecks) (process : Unwindable) (stackData : Bytes)

/-- The stack walk can start, and the frame pointer leads to a link that is not above the stack
pointer with all of its 16 bytes. -/
def StaleChain (self : Unwinder) : Prop :=
  self.CanScan stackData ∧
    (∃ maxCfa, checks.addU64 (self.register REG_RSP) stackData.length = .ok maxCfa) ∧
    ∃ link, self.PrologChain process stackData link ∧
      (link.1 + 16) % 2 ^ 64 ≤ self.register REG_RSP

/-- Two states with the same registers over the same stack. -/
structure SameStack (unwinder unwinder' : Unwinder) : Prop where
  registers : unwinder'.registers = unwinder.registers
  rsp : unwinder'.rsp = unwinder.rsp

end Conditions

section Same

variable {checks : OverflowChecks} {process : Unwindable} {stackData : Bytes}
  {u v : Unwinder}

theorem SameStack.register (h : SameStack u v) (reg : Nat) : v.register reg = u.register reg := by
  rw [Unwinder.register, Unwinder.register, h.registers]

theorem SameStack.canScan (h : SameStack u v) : v.CanScan stackData ↔ u.CanScan stackData := by
  rw [CanScan, CanScan, h.register, h.rsp]

theorem SameStack.prologChain (h : SameStack u v) (link : Nat × Nat × Nat) :
    v.PrologChain process stackData link ↔ u.PrologChain process stackData link := by
  rw [PrologChain, PrologChain, h.register, h.register, h.rsp]

theorem SameStack.staleChain (h : SameStack u v) :
    v.StaleChain checks process stackData ↔ u.StaleChain checks process stackData := by
  simp only [StaleChain, h.canScan, h.prologChain, h.register]

theorem PrologChain.unique (hu : u.Words) (hlen : stackData.length < 2 ^ 63)
    {link link' : Nat × Nat × Nat} (h : u.PrologChain process stackData link)
    (h' : u.PrologChain process stackData link') : link = link' := by
  obtain ⟨found, -, hiff⟩ := @chainWalk_eq .off process stackData u.rsp
    ((u.register REG_RSP + stackData.length) % 2 ^ 64) hlen 16 _ (hu.register_lt REG_RBP)
  exact Option.some.inj (((hiff link).mpr h).symm.trans ((hiff link').mpr h'))

/-! ## The stack walk -/

/-- Without a stale chain, the stack walk finds callers above the stack pointer only. -/
theorem unwindProlog_above (hu : u.Words) (hlen : stackData.length < 2 ^ 63)
    (hfresh : ¬ u.StaleChain checks process stackData) {error error' : Option UnwindError}
    {ip : Nat} (h : unwindProlog checks process stackData u error = .ok (some ip, v, error')) :
    u.register REG_RSP < v.register REG_RSP := by
  obtain hnone | ⟨hstart, maxCfa, hmax⟩ := unwindProlog_started hu.sized h
  · cases hnone
  obtain ⟨out, hout, -, -, ⟨link, hlink, -, hrsp⟩ | ⟨-, hscan⟩⟩ :=
    unwindProlog_eq hu hlen hstart hmax error
  · obtain rfl := Except.ok.inj (hout.symm.trans h)
    refine Nat.not_le.mp fun hback => hfresh ⟨hstart, ⟨_, hmax⟩, link, hlink, ?_⟩
    exact hrsp ▸ hback
  · obtain rfl := Except.ok.inj (hout.symm.trans h)
    exact hscan ip rfl

/-- The stack walk finds callers in modules only. -/
theorem unwindProlog_found (hu : u.Words) (hlen : stackData.length < 2 ^ 63)
    {error error' : Option UnwindError} {ip : Option Nat}
    (h : unwindProlog checks process stackData u error = .ok (ip, v, error')) :
    v.Words ∧ ∀ a, ip = some a → (process a).isSome = true := by
  obtain hnone | ⟨hstart, maxCfa, hmax⟩ := unwindProlog_started hu.sized h
  · cases hnone
    exact ⟨hu, fun _ h => by cases h⟩
  obtain ⟨out, hout, hwords, hfound, -⟩ := unwindProlog_eq hu hlen hstart hmax error
  obtain rfl := Except.ok.inj (hout.symm.trans h)
  exact ⟨hwords, hfound⟩

/-- Over a stale chain, the stack walk finds a caller in a module and goes no further up. -/
theorem unwindProlog_stale (hu : u.Words) (hlen : stackData.length < 2 ^ 63)
    (hstale : u.StaleChain checks process stackData) (error : Option UnwindError) :
    ∃ ip v error', unwindProlog checks process stackData u error = .ok (some ip, v, error') ∧
      (process ip).isSome = true ∧ v.register REG_RSP ≤ u.register REG_RSP := by
  obtain ⟨hstart, ⟨maxCfa, hmax⟩, link, hlink, hback⟩ := hstale
  obtain ⟨⟨ip, v, error'⟩, hout, -, -, ⟨link', hlink', hip, hrsp⟩ | ⟨hnone, -⟩⟩ :=
    unwindProlog_eq hu hlen hstart hmax error
  · obtain rfl := hlink.unique hu hlen hlink'
    dsimp only at hip hrsp
    subst hip
    exact ⟨_, v, error', hout, hlink.found, hrsp.trans_le hback⟩
  · exact absurd ⟨link, hlink⟩ hnone

end Same

/-! ## The row of a frame -/

section Row

variable {checks : OverflowChecks} {accessor : ModuleAccessor} {process : Unwindable}
  {stackData : Bytes} {u : Unwinder} {cfaData : UnwindCFA}

theorem stackValue_word (rsp cfa : Nat) (off : Int) :
    Yields False (stackValue checks rsp cfa off stackData)
      (fun value => ∀ n, value = some n → n < 2 ^ 64) := by
  unfold stackValue
  split
  · exact yields_ok fun _ h => by cases h
  · refine (yields_value _).bind fun offset _ => (yields_value _).bind fun maxOffset _ => ?_
    split
    · exact yields_ok fun _ h => by cases h
    · refine (yields_value _).bind fun value hvalue => yields_ok ?_
      rintro _ ⟨⟩
      exact readLe_lt hvalue

theorem callerRbp_word (hu : u.Words) (cfa : Nat) :
    Yields False (callerRbp checks stackData u cfaData cfa)
      (fun value => ∀ n, value = some n → n < 2 ^ 64) := by
  unfold callerRbp
  split
  · exact (yields_value _).bind fun off _ => stackValue_word _ _ _
  · rw [hu.sized.getAt_register (by decide), ok_bind]
    refine yields_ok ?_
    rintro _ ⟨⟩
    exact hu.register_lt REG_RBP

/-- What a row leaves: an error of its own, or registers of which only the two have changed,
the stack pointer upwards. -/
structure RowLeaves (before : Unwinder) (out : Option Nat × Unwinder × Option UnwindError) :
    Prop where
  words : out.2.1.Words
  error : out.1 = none → out.2.2 ≠ some .NoModuleFound
  sets : ∀ ip, out.1 = some ip →
    ∃ rbp cfa, out.2.1 = (before.setRegister REG_RBP rbp).setRegister REG_RSP cfa
  above : ∀ ip, out.1 = some ip → before.register REG_RSP < out.2.1.register REG_RSP

theorem applyRow_leaves (hu : u.Words) (error : Option UnwindError) :
    Yields False (applyRow checks stackData u cfaData error) (RowLeaves u) := by
  have hfailed {e : UnwindError} (he : e ≠ .NoModuleFound) : RowLeaves u (none, u, some e) :=
    ⟨hu, fun _ h => he (Option.some.inj h), fun _ h => (by cases h), fun _ h => by cases h⟩
  unfold applyRow
  split
  · exact yields_ok (hfailed (by decide))
  · refine (yields_value _).bind fun value _ => (yields_value _).bind fun sum _ => ?_
    dsimp only
    split
    · exact yields_ok (hfailed (by decide))
    · rw [hu.sized.getAt_register (by decide), ok_bind]
      split
      · exact yields_ok (hfailed (by decide))
      · rename_i hback
        refine (callerRbp_word hu _).bind fun rbp hrbp => ?_
        cases rbp with
        | none => exact yields_ok (hfailed (by decide))
        | some rbp =>
          have hwords := (hu.setRegister REG_RBP (hrbp rbp rfl)).setRegister REG_RSP (toU64_lt sum)
          refine (yields_value _).bind fun off _ => (yields_value _).bind fun ip _ => ?_
          cases ip with
          | none =>
            exact yields_ok ⟨hwords, fun _ => (by simp), fun _ h => (by cases h),
              fun _ h => by cases h⟩
          | some ip =>
            refine yields_ok ⟨hwords, fun h => (by cases h), fun _ _ => ⟨rbp, _, rfl⟩,
              fun _ _ => ?_⟩
            rw [(hu.sized.setRegister REG_RBP rbp).register_set (by decide)]
            exact Nat.not_le.mp hback

/-- The frame table of the module has no entry for the address. -/
def NoEntry (checks : OverflowChecks) (accessor : ModuleAccessor) (u : Unwinder)
    (key : ModuleKey) (rva : Nat) : Prop :=
  ∃ frames, (u.frameCache key).getFrameOffset checks accessor key rva = .ok (none, frames)

/-- Without an entry the module is not found and the registers stay; with one its row is
applied. -/
theorem unwindModule_cases (hu : u.Words) {key : ModuleKey} {rva : Nat}
    {error error' : Option UnwindError} {ip : Option Nat} {v : Unwinder}
    (h : unwindModule checks accessor stackData u key rva error = .ok (ip, v, error')) :
    (NoEntry checks accessor u key rva ∧ ip = none ∧ error' = some .NoModuleFound ∧
        SameStack u v ∧ v.Words) ∨
      ∃ w, SameStack u w ∧ RowLeaves w (ip, v, error') := by
  obtain ⟨⟨offset, frames⟩, hlookup, h⟩ := bind_eq_ok.mp h
  cases offset with
  | none =>
    cases h
    exact .inl ⟨⟨frames, hlookup⟩, rfl, rfl, ⟨rfl, rfl⟩,
      ⟨hu.sized.registers, hu.sized.offsets⟩, hu.registers⟩
  | some offset =>
    obtain ⟨⟨cfaData, offsets⟩, hrow, h⟩ := bind_eq_ok.mp h
    have hlen := (@FrameOffset.unwindToCfa_ends False offset _ False.elim rva).of_ok hrow
    let w : Unwinder :=
      { u with frameCache := Function.update u.frameCache key frames, offsets }
    have hwords : w.Words :=
      ⟨⟨hu.sized.registers, hlen.trans hu.sized.offsets⟩, hu.registers⟩
    exact .inr ⟨w, ⟨rfl, rfl⟩, (applyRow_leaves hwords error).of_ok h⟩

theorem unwindModule_of_noEntry {key : ModuleKey} {rva : Nat}
    (h : NoEntry checks accessor u key rva) (error : Option UnwindError) :
    ∃ v, SameStack u v ∧ v.offsets = u.offsets ∧
      unwindModule checks accessor stackData u key rva error =
        .ok (none, v, some .NoModuleFound) := by
  obtain ⟨frames, hlookup⟩ := h
  refine ⟨{ u with frameCache := Function.update u.frameCache key frames }, ⟨rfl, rfl⟩, rfl, ?_⟩
  unfold unwindModule
  rw [hlookup]
  rfl

end Row

/-! ## The caller of a frame -/

section Caller

variable {checks : OverflowChecks} {accessor : ModuleAccessor} {process : Unwindable}
  {stackData : Bytes} {u v : Unwinder} {module : CodeSection}
  {error error' : Option UnwindError}

/-- The caller is looked for on the stack from the start: the module has no frame table, or no
entry for the address. -/
def ScansFirst (checks : OverflowChecks) (accessor : ModuleAccessor) (u : Unwinder)
    (module : CodeSection) : Prop :=
  module.unwindType = .Prolog ∨
    ∃ rva, module.rva u.rip = .ok rva ∧ NoEntry checks accessor u module.key rva

/-- The row of the frame leads to an address other than 0 outside all modules. -/
def LeadsAstray (checks : OverflowChecks) (accessor : ModuleAccessor) (process : Unwindable)
    (stackData : Bytes) (u : Unwinder) (module : CodeSection) (error : Option UnwindError) :
    Prop :=
  module.unwindType ≠ .Prolog ∧ ∃ rva ip v error', module.rva u.rip = .ok rva ∧
    unwindModule checks accessor stackData u module.key rva error = .ok (some ip, v, error') ∧
    ip ≠ 0 ∧ process ip = none

/-- The two ways to a caller. -/
theorem callerOf_cases (hu : u.Words) {ip : Option Nat}
    (h : callerOf checks accessor stackData process u module error = .ok (ip, v, error')) :
    (ScansFirst checks accessor u module ∧ ∃ w error'', SameStack u w ∧ w.Words ∧
        unwindProlog checks process stackData w error'' = .ok (ip, v, error')) ∨
      (module.unwindType ≠ .Prolog ∧ ∃ rva w, module.rva u.rip = .ok rva ∧
        unwindModule checks accessor stackData u module.key rva error = .ok (ip, v, error') ∧
        SameStack u w ∧ RowLeaves w (ip, v, error')) := by
  unfold callerOf at h
  by_cases htype : module.unwindType = .Prolog
  · rw [if_pos htype] at h
    exact .inl ⟨.inl htype, u, error, ⟨rfl, rfl⟩, hu, h⟩
  · rw [if_neg htype] at h
    obtain ⟨rva, hrva, h⟩ := bind_eq_ok.mp h
    obtain ⟨⟨ip', w, error''⟩, hmodule, h⟩ := bind_eq_ok.mp h
    obtain ⟨hno, rfl, rfl, hsame, hwords⟩ | ⟨w', hsame, hleaves⟩ := unwindModule_cases hu hmodule
    · exact .inl ⟨.inr ⟨rva, hrva, hno⟩, w, none, hsame, hwords, h⟩
    · have hmiss : ¬ (ip' = none ∧ error'' = some .NoModuleFound) := fun hmiss =>
        hleaves.error hmiss.1 hmiss.2
      dsimp only at h
      rw [if_neg hmiss] at h
      cases h
      exact .inr ⟨htype, rva, w', hrva, hmodule, hsame, hleaves⟩

/-- Where the stack is scanned first, over a stale chain, a caller in a module is found and the
stack pointer goes no further up. -/
theorem callerOf_stale (hu : u.Words) (hlen : stackData.length < 2 ^ 63)
    (hscans : ScansFirst checks accessor u module)
    (hstale : u.StaleChain checks process stackData) (error : Option UnwindError) :
    ∃ ip v error', callerOf checks accessor stackData process u module error =
        .ok (some ip, v, error') ∧
      (process ip).isSome = true ∧ v.register REG_RSP ≤ u.register REG_RSP := by
  unfold callerOf
  by_cases htype : module.unwindType = .Prolog
  · rw [if_pos htype]
    exact unwindProlog_stale hu hlen hstale error
  · obtain ⟨rva, hrva, hno⟩ := hscans.resolve_left htype
    obtain ⟨w, hsame, hoffsets, hmodule⟩ := @unwindModule_of_noEntry checks accessor stackData u
      module.key rva hno error
    have hwords : w.Words :=
      ⟨⟨by rw [hsame.registers, hu.sized.registers], by rw [hoffsets, hu.sized.offsets]⟩,
        by rw [hsame.registers]; exact hu.registers⟩
    rw [if_neg htype, hrva, ok_bind, hmodule, ok_bind, ← hsame.register]
    exact unwindProlog_stale hwords hlen (hsame.staleChain.mpr hstale) none

/-! ## A caller outside all modules -/

theorem set_register (u : Unwinder) (reg : Nat) :
    u.registers.set reg (u.register reg) = u.registers := by
  by_cases hreg : reg < u.registers.length
  · have hvalue : u.register reg = u.registers[reg] := by
      rw [register, List.getD_eq_getElem?_getD, List.getElem?_eq_getElem hreg]
      rfl
    rw [hvalue, List.set_getElem_self]
  · exact List.set_eq_of_length_le (Nat.not_lt.mp hreg)

/-- The registers from before the row was applied. -/
theorem RowLeaves.restored {w : Unwinder} {out : Option Nat × Unwinder × Option UnwindError}
    (hsame : SameStack u w) (hu : u.Words) (h : RowLeaves w out) {ip : Nat}
    (hip : out.1 = some ip) :
    SameStack u ((out.2.1.setRegister REG_RSP (u.register REG_RSP)).setRegister REG_RBP
        (u.register REG_RBP)) ∧
      ((out.2.1.setRegister REG_RSP (u.register REG_RSP)).setRegister REG_RBP
        (u.register REG_RBP)).Words := by
  obtain ⟨rbp, cfa, hout⟩ := h.sets ip hip
  refine ⟨⟨?_, ?_⟩, (h.words.setRegister _ (hu.register_lt _)).setRegister _ (hu.register_lt _)⟩
  · rw [hout]
    simp only [Unwinder.setRegister, hsame.registers, List.set_set]
    rw [List.set_comm _ _ (by decide : REG_RSP ≠ REG_RBP), List.set_set, set_register,
      set_register]
  · rw [hout]
    exact hsame.rsp

end Caller

end Unwinder

/-! ## Turns -/

namespace Walk

variable {checks : OverflowChecks} {process : Unwindable} {accessor : ModuleAccessor}
  {stackData : Bytes} {s s' : Walk} {module : CodeSection}

open Unwinder

/-- A turn that goes on or breaks has a caller, looked for again where it lies outside all
modules. -/
theorem turn_eq_push (hs : s.unwinder.Words) :
    (∃ next, s.turn checks process accessor stackData module = .ok (next, s') ∧
        next ≠ .return) ↔
      ∃ ip v error ip' v' error',
        s.unwinder.callerOf checks accessor stackData process module s.result.error =
          .ok (some ip, v, error) ∧
        v.recover checks stackData process (s.unwinder.register REG_RSP)
          (s.unwinder.register REG_RBP) ip error = .ok (ip', v', error') ∧
        s' = s.push v' error' ip' := by
  unfold turn
  rw [hs.sized.getAt_register (by decide), ok_bind, hs.sized.getAt_register (by decide), ok_bind]
  constructor
  · rintro ⟨next, h, hnext⟩
    obtain ⟨⟨ip, v, error⟩, hcaller, h⟩ := bind_eq_ok.mp h
    cases ip with
    | none =>
      cases h
      exact absurd rfl hnext
    | some ip =>
      obtain ⟨⟨ip', v', error'⟩, hrecover, h⟩ := bind_eq_ok.mp h
      refine ⟨ip, v, error, ip', v', error', hcaller, hrecover, ?_⟩
      dsimp only at h
      split at h
      · cases h
        rfl
      · split at h <;> · cases h; rfl
  · rintro ⟨ip, v, error, ip', v', error', hcaller, hrecover, rfl⟩
    rw [hcaller, ok_bind]
    dsimp only
    rw [hrecover, ok_bind]
    dsimp only
    split
    · exact ⟨_, rfl, by decide⟩
    · split <;> exact ⟨_, rfl, by decide⟩

/-- **Progress** of a turn: where it finds a caller in a module, the stack pointer has moved up. -/
def Progresses (checks : OverflowChecks) (process : Unwindable) (accessor : ModuleAccessor)
    (stackData : Bytes) (s : Walk) (module : CodeSection) : Prop :=
  ∀ next s', s.turn checks process accessor stackData module = .ok (next, s') →
    next ≠ .return → (process s'.unwinder.rip).isSome = true →
    s.unwinder.register REG_RSP < s'.unwinder.register REG_RSP

/-- The turn comes to scan the stack, from the start or after the row has led astray. -/
def ScansStack (checks : OverflowChecks) (process : Unwindable) (accessor : ModuleAccessor)
    (stackData : Bytes) (s : Walk) (module : CodeSection) : Prop :=
  ScansFirst checks accessor s.unwinder module ∨
    LeadsAstray checks accessor process stackData s.unwinder module s.result.error

/-- The turn goes back: it scans the stack over a stale chain. -/
def GoesBack (checks : OverflowChecks) (process : Unwindable) (accessor : ModuleAccessor)
    (stackData : Bytes) (s : Walk) (module : CodeSection) : Prop :=
  s.ScansStack checks process accessor stackData module ∧
    s.unwinder.StaleChain checks process stackData

theorem progresses_of_not_goesBack (hs : s.unwinder.Words) (hlen : stackData.length < 2 ^ 63)
    (h : ¬ s.GoesBack checks process accessor stackData module) :
    s.Progresses checks process accessor stackData module := by
  intro next s' hturn hnext hfound
  obtain ⟨ip, v, error, ip', v', error', hcaller, hrecover, rfl⟩ :=
    (turn_eq_push hs).mp ⟨next, hturn, hnext⟩
  unfold recover at hrecover
  obtain ⟨hscans, w, error'', hsame, hwords, hprolog⟩ |
    ⟨htype, rva, w, hrva, hmodule, hsame, hleaves⟩ := callerOf_cases hs hcaller
  · have hin := (unwindProlog_found hwords hlen hprolog).2 ip rfl
    have hno : ¬ (ip ≠ 0 ∧ process ip = none) := fun hno => by simp [hno.2] at hin
    rw [if_neg hno] at hrecover
    cases hrecover
    have hfresh : ¬ w.StaleChain checks process stackData := fun hstale =>
      h ⟨.inl hscans, hsame.staleChain.mp hstale⟩
    have habove := unwindProlog_above hwords hlen hfresh hprolog
    rw [hsame.register] at habove
    exact habove
  · by_cases hastray : ip ≠ 0 ∧ process ip = none
    · rw [if_pos hastray] at hrecover
      obtain ⟨hrestored, hwords⟩ := hleaves.restored hsame hs rfl
      dsimp only at hrestored hwords
      obtain ⟨⟨recovered, x, error''⟩, hprolog, hrecover⟩ := bind_eq_ok.mp hrecover
      cases recovered with
      | none =>
        cases hrecover
        exact absurd hfound (by simp [push, hastray.2])
      | some recovered =>
        cases hrecover
        have hfresh := fun hstale => h ⟨.inr ⟨htype, rva, ip, v, error, hrva, hmodule, hastray⟩,
          hrestored.staleChain.mp hstale⟩
        have habove := unwindProlog_above hwords hlen hfresh hprolog
        rw [hrestored.register] at habove
        exact habove
    · rw [if_neg hastray] at hrecover
      cases hrecover
      have habove := hleaves.above ip rfl
      rw [hsame.register] at habove
      exact habove

theorem not_progresses_of_goesBack (hs : s.unwinder.Words) (hlen : stackData.length < 2 ^ 63)
    (h : s.GoesBack checks process accessor stackData module) :
    ¬ s.Progresses checks process accessor stackData module := by
  have hback : ∀ ip v error ip' v' error',
      s.unwinder.callerOf checks accessor stackData process module s.result.error =
        .ok (some ip, v, error) →
      v.recover checks stackData process (s.unwinder.register REG_RSP)
        (s.unwinder.register REG_RBP) ip error = .ok (ip', v', error') →
      (process ip').isSome = true → v'.register REG_RSP ≤ s.unwinder.register REG_RSP →
      ¬ s.Progresses checks process accessor stackData module := by
    intro ip v error ip' v' error' hcaller hrecover hfound hle hprogress
    obtain ⟨next, hturn, hnext⟩ :=
      (turn_eq_push hs).mpr ⟨ip, v, error, ip', v', error', hcaller, hrecover, rfl⟩
    exact absurd (hprogress next _ hturn hnext hfound) (Nat.not_lt.mpr hle)
  obtain ⟨hscans | ⟨htype, rva, ip, v, error, hrva, hmodule, hastray⟩, hstale⟩ := h
  · obtain ⟨ip, v, error, hcaller, hfound, hle⟩ := callerOf_stale hs hlen hscans hstale _
    have hno : ¬ (ip ≠ 0 ∧ process ip = none) := fun hno => by simp [hno.2] at hfound
    exact hback ip v error ip v error hcaller (if_neg hno) hfound hle
  · obtain ⟨-, hip, -⟩ | ⟨w, hsame, hleaves⟩ := unwindModule_cases hs hmodule
    · cases hip
    · have hcaller : s.unwinder.callerOf checks accessor stackData process module
          s.result.error = .ok (some ip, v, error) := by
        unfold callerOf
        rw [if_neg htype, hrva, ok_bind, hmodule, ok_bind]
        exact if_neg fun hnone => by cases hnone.1
      obtain ⟨hrestored, hwords⟩ := hleaves.restored hsame hs rfl
      obtain ⟨ip', v', error', hprolog, hfound, hle⟩ :=
        unwindProlog_stale hwords hlen (hrestored.staleChain.mpr hstale) error
      have hrecover : v.recover checks stackData process (s.unwinder.register REG_RSP)
          (s.unwinder.register REG_RBP) ip error = .ok (ip', v', none) := by
        unfold recover
        rw [if_pos hastray]
        dsimp only at hprolog ⊢
        rw [hprolog]
        rfl
      rw [hrestored.register] at hle
      exact hback ip v error ip' v' none hcaller hrecover hfound hle

/-- **Forward progress.** A turn that finds a caller in a module moves the stack pointer up, if
and only if it does not scan the stack over a stale chain of frame pointers. -/
theorem turn_progresses_iff (hs : s.unwinder.Words) (hlen : stackData.length < 2 ^ 63) :
    s.Progresses checks process accessor stackData module ↔
      ¬ s.GoesBack checks process accessor stackData module :=
  ⟨fun h hback => not_progresses_of_goesBack hs hlen hback h,
    progresses_of_not_goesBack hs hlen⟩

/-- A stack whose first word points to itself, with a return address behind it. -/
def loopedStack : Bytes := toLe 8 0x70000000 ++ toLe 8 0x40000500 ++ toLe 8 0

def generatedSection : CodeSection := ⟨.Prolog, ⟨0, 0⟩, fun _ => .ok 0⟩

/-- A process with generated code at the return address. -/
def generatedCode : Unwindable := fun ip => if ip = 0x40000500 then some generatedSection else none

/-- A sample with its frame pointer at the start of the stack. -/
def loopedWalk : Walk :=
  { unwinder := Unwinder.new.reset 0x40000500 0x70000000 0x70000000
    stackFrames := [0x40000500]
    result := { framesPushed := 1 } }

theorem turn_progresses_first :
    loopedWalk.Progresses .on generatedCode (fun _ => none) loopedStack generatedSection ↔
      ¬ loopedWalk.GoesBack .on generatedCode (fun _ => none) loopedStack generatedSection :=
  turn_progresses_iff (reset_words _ _ (by decide) (by decide)) (by decide)

/-- The first turn leaves the frame pointer where it was, and the second finds the same link
below the stack pointer. -/
theorem turn_not_progresses :
    ∃ s, loopedWalk.turn .on generatedCode (fun _ => none) loopedStack generatedSection =
        .ok (.again, s) ∧
      ¬ s.Progresses .on generatedCode (fun _ => none) loopedStack generatedSection := by
  refine ⟨_, rfl, fun h => ?_⟩
  exact absurd (h .again _ rfl (by decide) rfl) (by decide)

/-! ## Runs -/

theorem turn_words (hs : s.unwinder.Words) (hlen : stackData.length < 2 ^ 63) {next : Turn}
    (h : s.turn checks process accessor stackData module = .ok (next, s'))
    (hnext : next ≠ .return) : s'.unwinder.Words := by
  obtain ⟨ip, v, error, ip', v', error', hcaller, hrecover, rfl⟩ :=
    (turn_eq_push hs).mp ⟨next, h, hnext⟩
  suffices hwords : v'.Words from ⟨⟨hwords.sized.registers, hwords.sized.offsets⟩,
    hwords.registers⟩
  unfold recover at hrecover
  obtain ⟨-, w, error'', -, hwords, hprolog⟩ | ⟨-, rva, w, -, -, hsame, hleaves⟩ :=
    callerOf_cases hs hcaller
  · obtain ⟨hv, hin⟩ := unwindProlog_found hwords hlen hprolog
    have hno : ¬ (ip ≠ 0 ∧ process ip = none) := fun hno => by simpa [hno.2] using hin ip rfl
    rw [if_neg hno] at hrecover
    cases hrecover
    exact hv
  · by_cases hastray : ip ≠ 0 ∧ process ip = none
    · rw [if_pos hastray] at hrecover
      obtain ⟨-, hwords⟩ := hleaves.restored hsame hs rfl
      obtain ⟨⟨recovered, x, error''⟩, hprolog, hrecover⟩ := bind_eq_ok.mp hrecover
      have hx := (unwindProlog_found hwords hlen hprolog).1
      cases recovered <;> · cases hrecover; exact hx
    · rw [if_neg hastray] at hrecover
      cases hrecover
      exact hleaves.words

/-- The turns of a walk that find a caller in a module and go on. -/
def turnSystem (checks : OverflowChecks) (process : Unwindable) (accessor : ModuleAccessor)
    (stackData : Bytes) : System Walk CodeSection :=
  ⟨fun s => s.unwinder.Words, fun s module s' => process s.unwinder.rip = some module ∧
    s.turn checks process accessor stackData module = .ok (.again, s') ∧
    (process s'.unwinder.rip).isSome = true⟩

/-- **No slot twice.** Along a run whose turns do not go back, the stack pointer is higher with
each turn. -/
theorem register_add_turns_le (hlen : stackData.length < 2 ^ 63) {modules : List CodeSection}
    (hs : (turnSystem checks process accessor stackData).init s)
    (h : ((turnSystem checks process accessor stackData).restrict fun s module =>
      ¬ s.GoesBack checks process accessor stackData module).Runs s modules s') :
    s'.unwinder.Words ∧
      s.unwinder.register REG_RSP + modules.length ≤ s'.unwinder.register REG_RSP := by
  induction h with
  | refl => exact ⟨hs, le_refl _⟩
  | snoc _ hstep ih =>
    obtain ⟨hback, -, hturn, hfound⟩ := hstep
    obtain ⟨hwords, hle⟩ := ih
    have habove := progresses_of_not_goesBack hwords hlen hback .again _ hturn (by decide) hfound
    refine ⟨turn_words hwords hlen hturn (by decide), ?_⟩
    rw [List.length_append, List.length_singleton]
    omega

/-- The first turn over the looped stack. -/
theorem register_add_turns_le_looped :
    ∃ s, loopedWalk.turn .on generatedCode (fun _ => none) loopedStack generatedSection =
        .ok (.again, s) ∧ 0x70000000 + 1 ≤ s.unwinder.register REG_RSP := by
  have hwords : loopedWalk.unwinder.Words := reset_words _ _ (by decide) (by decide)
  refine ⟨_, rfl, ?_⟩
  have hback : ¬ loopedWalk.GoesBack .on generatedCode (fun _ => none) loopedStack
      generatedSection := fun hback => by
    refine not_progresses_of_goesBack hwords (by decide) hback fun next s' hturn _ _ => ?_
    cases hturn
    decide
  exact (register_add_turns_le (by decide) hwords
    (System.Runs.refl.snoc (a := generatedSection) ⟨hback, rfl, rfl, rfl⟩)).2

end Walk

end OneCollect.Ruwind
