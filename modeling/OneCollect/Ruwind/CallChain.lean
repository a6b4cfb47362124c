import OneCollect.Ruwind.Rows

/-! **Call chains.** On a stack laid out by the rows of its frames the unwinder finds the
return addresses of the chain, all of them and in order, and reports no error
(`Machine.unwindProcess_chain`).

A `Chain` speaks of the memory of the process; the unwinder sees the bytes captured from
the stack pointer on. One step of the chain is one turn of the loop (`turn_call`,
`turn_outermost`), and the turns follow the chain (`loop_chain`). -/

namespace OneCollect.Ruwind
open Theory

/-! ## Memory and rows -/

abbrev Memory := Nat → UInt8

def Memory.word (memory : Memory) (address : Nat) : Nat :=
  fromLe ((List.range 8).map fun i => memory (address + i))

/-- The captured bytes are those of the memory from `rsp` on. -/
def Captured (memory : Memory) (rsp : Nat) (stackData : Bytes) : Prop :=
  ∀ i, i < stackData.length → stackData[i]? = some (memory (rsp + i))

/-- `value` stands `off` bytes from `cfa`, between the start of the stack and the 16 bytes
that end at its top. -/
def Saved (memory : Memory) (start top cfa : Nat) (off : Int) (value : Nat) : Prop :=
  ∃ slot : Nat, (slot : Int) = cfa + off ∧ start ≤ slot ∧ slot + 8 < top + 16 ∧
    memory.word slot = value

/-- The tables of a DWARF module give an address its row: the rule of the CFA, the registers
with an offset, and the offsets. -/
def RowAt (checks : OverflowChecks) (process : Unwindable) (accessor : ModuleAccessor)
    (ip : Nat) (row : UnwindCFA) (offsets : List Int) : Prop :=
  ∃ module rva offset fresh, process ip = some module ∧ module.unwindType = .DWARF ∧
    module.rva ip = .ok rva ∧
    FrameOffsets.getFrameOffset checks accessor {} module.key rva = .ok (some offset, fresh) ∧
    offset.unwindToCfa (List.replicate (REG_RA + 1) 0) rva = .ok (row, offsets)

/-- A frame laid out by its row, and the registers of its caller: `cfa` is the caller's stack
pointer, `ra` its address and `callerRbp` its frame pointer. -/
structure LaidOut (memory : Memory) (start top : Nat) (row : UnwindCFA) (offsets : List Int)
    (rsp rbp cfa ra callerRbp : Nat) : Prop where
  base : ∃ value, ((row.reg = REG_RSP ∧ value = rsp) ∨ (row.reg = REG_RBP ∧ value = rbp)) ∧
    (cfa : Int) = value + row.off ∧ InI64 (toI64 value + row.off)
  above : rsp < cfa
  cfa_lt : cfa < 2 ^ 64
  has_ra : row.offMask.getLsbD REG_RA = true
  saved_ra : Saved memory start top cfa (offsets.getD REG_RA 0) ra
  saved_rbp : row.offMask.getLsbD REG_RBP = true →
    Saved memory start top cfa (offsets.getD REG_RBP 0) callerRbp
  kept_rbp : row.offMask.getLsbD REG_RBP = false → callerRbp = rbp

/-- The frames from an address with its stack and frame pointers, and their return
addresses; the outermost frame ends at `top` and returns to 0. -/
inductive Chain (checks : OverflowChecks) (process : Unwindable) (accessor : ModuleAccessor)
    (memory : Memory) (start top : Nat) : (ip rsp rbp : Nat) → (returns : List Nat) → Prop where
  | outermost {ip rsp rbp row offsets callerRbp}
      (hrow : RowAt checks process accessor ip row offsets)
      (hlaid : LaidOut memory start top row offsets rsp rbp top 0 callerRbp) :
      Chain checks process accessor memory start top ip rsp rbp []
  | call {ip rsp rbp row offsets cfa ra callerRbp returns}
      (hrow : RowAt checks process accessor ip row offsets)
      (hlaid : LaidOut memory start top row offsets rsp rbp cfa ra callerRbp) (hra : ra ≠ 0)
      (hrest : Chain checks process accessor memory start top ra cfa callerRbp returns) :
      Chain checks process accessor memory start top ip rsp rbp (ra :: returns)

variable {checks : OverflowChecks} {process : Unwindable} {accessor : ModuleAccessor}
  {memory : Memory} {start top ip rsp rbp cfa ra callerRbp : Nat} {row : UnwindCFA}
  {offsets : List Int} {returns : List Nat} {stackData : Bytes}

theorem Chain.rsp_lt (h : Chain checks process accessor memory start top ip rsp rbp returns) :
    rsp < top := by
  induction h with
  | outermost _ hlaid => exact hlaid.above
  | call _ hlaid _ _ ih => exact Nat.lt_trans hlaid.above ih

theorem Chain.found (h : Chain checks process accessor memory start top ip rsp rbp returns) :
    process ip ≠ none := by
  cases h with
  | outermost hrow =>
    obtain ⟨module, _, _, _, hmodule, -⟩ := hrow
    rw [hmodule]
    nofun
  | call hrow =>
    obtain ⟨module, _, _, _, hmodule, -⟩ := hrow
    rw [hmodule]
    nofun

/-! ## Reading the stack -/

/-- The bytes of a slot are its word. -/
theorem readLe_captured (hcaptured : Captured memory start stackData) {slot : Nat}
    (hstart : start ≤ slot) (hend : slot + 8 ≤ start + stackData.length) :
    readLe 8 stackData (slot - start) = .ok (memory.word slot) := by
  refine readLe_eq_ok.mpr ⟨by omega, ?_⟩
  unfold Memory.word
  congr 1
  refine List.ext_getElem? fun i => ?_
  by_cases hi : i < 8
  · rw [List.getElem?_take_of_lt hi, List.getElem?_drop, hcaptured _ (by omega), List.getElem?_map,
      List.getElem?_range hi, Option.map_some, show start + (slot - start + i) = slot + i by omega]
  · rw [List.getElem?_eq_none (by simp; omega), List.getElem?_eq_none]
    rw [List.length_take]
    omega

namespace Unwinder

/-- **A saved value** is read. -/
theorem stackValue_saved (hcaptured : Captured memory start stackData)
    (hlen : stackData.length < 2 ^ 63) (htop : top + 16 ≤ start + stackData.length)
    (hstart : start ≤ cfa) (hcfa : cfa ≤ top) {off : Int} {value : Nat}
    (h : Saved memory start top cfa off value) :
    stackValue checks start cfa off stackData = .ok (some value) := by
  obtain ⟨slot, hslot, hlow, hhigh, rfl⟩ := h
  have hdiff : toI64 (cfa - start) = ((cfa - start : Nat) : Int) := if_pos (by omega)
  have hsize : toI64 stackData.length = (stackData.length : Int) := if_pos hlen
  have hoffset : checks.i64 (toI64 (cfa - start) + off) = .ok ((slot - start : Nat) : Int) := by
    have hsum : toI64 (cfa - start) + off = ((slot - start : Nat) : Int) := by rw [hdiff]; omega
    rw [hsum]
    exact OverflowChecks.i64_of_inI64 checks (by unfold InI64; omega)
  have hmax : checks.i64 (toI64 stackData.length - 8) = .ok ((stackData.length : Int) - 8) := by
    rw [hsize]
    exact OverflowChecks.i64_of_inI64 checks (by unfold InI64; omega)
  unfold stackValue
  rw [if_neg (by omega), hoffset, ok_bind, hmax, ok_bind, if_neg (by omega), Int.toNat_natCast,
    readLe_captured hcaptured hlow (by omega), ok_bind]

/-! ## One frame -/

/-- The registers at a frame. -/
structure At (start ip rsp rbp : Nat) (unwinder : Unwinder) : Prop where
  sized : unwinder.Sized
  rip_eq : unwinder.rip = ip
  rsp_eq : unwinder.registers[REG_RSP]? = some rsp
  rbp_eq : unwinder.registers[REG_RBP]? = some rbp
  start_eq : unwinder.rsp = start

/-- The unwinder with the registers of a caller. -/
def atCaller (self : Unwinder) (cfa callerRbp : Nat) : Unwinder :=
  (self.setRegister REG_RBP callerRbp).setRegister REG_RSP cfa

theorem At.atCaller {self : Unwinder} (h : self.At start ip rsp rbp) (cfa callerRbp ra : Nat) :
    { self.atCaller cfa callerRbp with rip := ra }.At start ra cfa callerRbp := by
  have hlen := h.sized.registers
  refine ⟨⟨?_, h.sized.offsets⟩, rfl, ?_, ?_, h.start_eq⟩
  · simp only [Unwinder.atCaller, setRegister, List.length_set, hlen]
  · refine List.getElem?_set_self ?_
    simp only [setRegister, List.length_set, hlen]
    decide
  · change ((self.registers.set REG_RBP callerRbp).set REG_RSP cfa)[REG_RBP]? = some callerRbp
    rw [List.getElem?_set_ne (by decide), List.getElem?_set_self (by rw [hlen]; decide)]

theorem callerRbp_laidOut {self : Unwinder} (h : self.At start ip rsp rbp)
    (hlaid : LaidOut memory start top row offsets rsp rbp cfa ra callerRbp)
    (hcaptured : Captured memory start stackData) (hlen : stackData.length < 2 ^ 63)
    (htop : top + 16 ≤ start + stackData.length) (hstart : start ≤ rsp) (hcfa : cfa ≤ top)
    (hoffsets : row.offMask.getLsbD REG_RBP = true →
      self.offsets[REG_RBP]? = some (offsets.getD REG_RBP 0)) :
    Unwinder.callerRbp checks stackData self row cfa = .ok (some callerRbp) := by
  have habove := hlaid.above
  unfold Unwinder.callerRbp REG_RBP_BIT
  cases hbit : row.offMask.getLsbD REG_RBP with
  | true =>
    rw [if_pos (by rw [ne_eq, and_bit_eq_zero_iff (by decide), hbit]; decide),
      getAt_eq_ok.mpr (hoffsets hbit), ok_bind, h.start_eq]
    exact stackValue_saved hcaptured hlen htop (by omega) hcfa (hlaid.saved_rbp hbit)
  | false =>
    rw [if_neg (by rw [ne_eq, not_not, and_bit_eq_zero_iff (by decide), hbit]),
      getAt_eq_ok.mpr h.rbp_eq, ok_bind, hlaid.kept_rbp hbit]

/-- **A row** gives the registers of the caller. -/
theorem applyRow_laidOut {self : Unwinder} (h : self.At start ip rsp rbp)
    (hlaid : LaidOut memory start top row offsets rsp rbp cfa ra callerRbp)
    (hcaptured : Captured memory start stackData) (hlen : stackData.length < 2 ^ 63)
    (htop : top + 16 ≤ start + stackData.length) (hstart : start ≤ rsp) (hcfa : cfa ≤ top)
    (hoffsets : ∀ r, row.offMask.getLsbD r = true → r ≤ REG_RA →
      self.offsets[r]? = some (offsets.getD r 0)) (error : Option UnwindError) :
    applyRow checks stackData self row error =
      .ok (some ra, self.atCaller cfa callerRbp, error) := by
  obtain ⟨value, hvalue, hbase, hin⟩ := hlaid.base
  have hreg : self.registers[row.reg]? = some value := by
    obtain ⟨hreg, rfl⟩ | ⟨hreg, rfl⟩ := hvalue
    · rw [hreg, h.rsp_eq]
    · rw [hreg, h.rbp_eq]
  have hle : ¬ row.reg > REG_RA := by
    obtain ⟨hreg, -⟩ | ⟨hreg, -⟩ := hvalue <;> rw [hreg] <;> decide
  have hsum : toU64 (toI64 value + row.off) = cfa := by
    have := hlaid.cfa_lt
    unfold toU64 toI64
    split <;> omega
  have habove := hlaid.above
  unfold applyRow
  rw [if_neg hle, getAt_eq_ok.mpr hreg, ok_bind, OverflowChecks.i64_of_inI64 checks hin, ok_bind,
    hsum]
  unfold REG_RA_BIT
  rw [if_neg (by rw [and_bit_eq_zero_iff (by decide), hlaid.has_ra]; decide),
    getAt_eq_ok.mpr h.rsp_eq, ok_bind, if_neg (by omega),
    callerRbp_laidOut h hlaid hcaptured hlen htop hstart hcfa fun hbit =>
      hoffsets _ hbit (by decide), ok_bind]
  have hra := hoffsets REG_RA hlaid.has_ra (Nat.le_refl _)
  have hip : stackValue checks start cfa (offsets.getD REG_RA 0) stackData = .ok (some ra) :=
    stackValue_saved hcaptured hlen htop (by omega) hcfa hlaid.saved_ra
  have hstart' : (self.atCaller cfa callerRbp).rsp = start := h.start_eq
  have hoff : getAt (self.atCaller cfa callerRbp).offsets REG_RA = .ok (offsets.getD REG_RA 0) :=
    getAt_eq_ok.mpr hra
  have hread : stackValue checks (self.atCaller cfa callerRbp).rsp cfa (offsets.getD REG_RA 0)
      stackData = .ok (some ra) := by
    rw [hstart']
    exact hip
  unfold atCaller at hoff hread ⊢
  simp only [hoff, hread, ok_bind]

/-- **A frame** in a DWARF module leads to its caller. -/
theorem callerOf_laidOut {self : Unwinder} (h : self.At start ip rsp rbp)
    (hcoherent : self.Coherent accessor) (hrow : RowAt checks process accessor ip row offsets)
    (hlaid : LaidOut memory start top row offsets rsp rbp cfa ra callerRbp)
    (hcaptured : Captured memory start stackData) (hlen : stackData.length < 2 ^ 63)
    (htop : top + 16 ≤ start + stackData.length) (hstart : start ≤ rsp) (hcfa : cfa ≤ top)
    {module : CodeSection} (hmodule : process ip = some module) (error : Option UnwindError) :
    ∃ unwinder, callerOf checks accessor stackData process self module error =
        .ok (some ra, unwinder, error) ∧
      { unwinder with rip := ra }.At start ra cfa callerRbp ∧ unwinder.Coherent accessor := by
  obtain ⟨module', rva, offset, fresh, hmodule', htype, hrva, hentry, hfresh⟩ := hrow
  rw [hmodule] at hmodule'
  cases hmodule'
  obtain ⟨frames, hframes⟩ :=
    FrameOffsets.getFrameOffset_eq (hcoherent module.key) hentry
  obtain ⟨⟨row', offsets'⟩, hrow', hsame⟩ := FrameOffset.unwindToCfa_eq hfresh
    (h.sized.offsets.trans (List.length_replicate).symm)
  obtain rfl : row' = row := hsame.cfa
  have hlen' : offsets.length = REG_RA + 1 := by
    have hends : Ends True (offset.unwindToCfa (List.replicate (REG_RA + 1) 0) rva) _ :=
      FrameOffset.unwindToCfa_ends offset (fun _ => by simp [REG_RA]) rva
    exact (hends.of_ok hfresh).trans List.length_replicate
  generalize hnext : { self with
    frameCache := Function.update self.frameCache module.key frames, offsets := offsets' } = next
  have hat : next.At start ip rsp rbp := by
    subst hnext
    exact ⟨⟨h.sized.registers, hsame.length.trans hlen'⟩, h.rip_eq, h.rsp_eq, h.rbp_eq, h.start_eq⟩
  have hkeep : next.Coherent accessor := by
    subst hnext
    exact update_coherent hcoherent
      (FrameOffsets.getFrameOffset_coherent (hcoherent module.key) hframes)
  have hoffsets : ∀ r, row'.offMask.getLsbD r = true → r ≤ REG_RA →
      next.offsets[r]? = some (offsets.getD r 0) := by
    intro r hr hle
    subst hnext
    have hget : offsets[r]? = some (offsets.getD r 0) := by
      rw [List.getD_eq_getElem?_getD, List.getElem?_eq_getElem (by omega), Option.getD_some]
    exact (hsame.slots r hr).trans hget
  have happly : applyRow checks stackData next row' error =
      .ok (some ra, next.atCaller cfa callerRbp, error) :=
    applyRow_laidOut hat hlaid hcaptured hlen htop hstart hcfa hoffsets error
  refine ⟨next.atCaller cfa callerRbp, ?_, hat.atCaller cfa callerRbp ra, hkeep⟩
  unfold callerOf
  rw [if_neg (by rw [htype]; decide), h.rip_eq, hrva, ok_bind]
  have hunwind : unwindModule checks accessor stackData self module.key rva error =
      .ok (some ra, next.atCaller cfa callerRbp, error) := by
    unfold unwindModule
    rw [hframes, ok_bind]
    dsimp only
    rw [hrow', ok_bind]
    dsimp only
    rw [hnext, happly]
  rw [hunwind, ok_bind]
  exact if_neg fun hnone => nomatch hnone.1

end Unwinder

/-! ## The walk along a chain -/

namespace Walk

/-- The walk at a frame of the chain, without an error so far. -/
structure AtFrame (accessor : ModuleAccessor) (start ip rsp rbp : Nat) (s : Walk) : Prop where
  registers : s.unwinder.At start ip rsp rbp
  coherent : s.unwinder.Coherent accessor
  no_error : s.result.error = none

/-- **One turn** pushes the return address of the frame. -/
theorem turn_laidOut {s : Walk} (h : AtFrame accessor start ip rsp rbp s)
    (hrow : RowAt checks process accessor ip row offsets)
    (hlaid : LaidOut memory start top row offsets rsp rbp cfa ra callerRbp)
    (hcaptured : Captured memory start stackData) (hlen : stackData.length < 2 ^ 63)
    (htop : top + 16 ≤ start + stackData.length) (hstart : start ≤ rsp) (hcfa : cfa ≤ top)
    (hra : ra = 0 ∨ process ra ≠ none) {module : CodeSection}
    (hmodule : process ip = some module) :
    ∃ s', s.turn checks process accessor stackData module =
        .ok (if s'.result.framesPushed > 128 ∨ ra = 0 then .break else .again, s') ∧
      AtFrame accessor start ra cfa callerRbp s' ∧ s'.stackFrames = s.stackFrames ++ [ra] ∧
      s'.result.framesPushed = s.result.framesPushed + 1 := by
  obtain ⟨unwinder, hcaller, hat, hcoherent⟩ := Unwinder.callerOf_laidOut h.registers h.coherent
    hrow hlaid hcaptured hlen htop hstart hcfa hmodule s.result.error
  refine ⟨s.push unwinder s.result.error ra, ?_, ⟨hat, hcoherent, h.no_error⟩, rfl, rfl⟩
  have hrecover : ∀ savedRsp savedRbp, unwinder.recover checks stackData process savedRsp
      savedRbp ra s.result.error = .ok (ra, unwinder, s.result.error) := fun savedRsp savedRbp =>
    if_neg fun hlost => hra.elim hlost.1 fun hfound => hfound hlost.2
  unfold turn
  rw [getAt_eq_ok.mpr h.registers.rsp_eq, ok_bind, getAt_eq_ok.mpr h.registers.rbp_eq, ok_bind,
    hcaller, ok_bind]
  dsimp only
  rw [hrecover, ok_bind]
  dsimp only
  by_cases hcap : (s.push unwinder s.result.error ra).result.framesPushed > 128
  · rw [if_pos hcap, if_pos (Or.inl hcap)]
  · rw [if_neg hcap]
    by_cases hzero : ra = 0
    · rw [if_pos (Or.inr hzero)]
      exact if_pos hzero
    · rw [if_neg (not_or.mpr ⟨hcap, hzero⟩)]
      exact if_neg hzero

/-- **The loop** follows the chain: it adds the return addresses. -/
theorem loop_chain (hcaptured : Captured memory start stackData) (hlen : stackData.length < 2 ^ 63)
    (htop : top + 16 ≤ start + stackData.length)
    (hchain : Chain checks process accessor memory start top ip rsp rbp returns) :
    ∀ {s : Walk} {turns : Nat}, AtFrame accessor start ip rsp rbp s → start ≤ rsp →
      0 < s.result.framesPushed → s.result.framesPushed + returns.length ≤ 128 →
      returns.length < turns →
      ∃ ended, s.loop checks process accessor stackData turns = .ok (some ended) ∧
        ended.stackFrames = s.stackFrames ++ returns ∧
        ended.result = { framesPushed := s.result.framesPushed + returns.length, error := none } ∧
        ended.unwinder.Coherent accessor := by
  induction hchain with
  | @outermost ip rsp rbp row offsets callerRbp hrow hlaid =>
    intro s turns hat hstart hpos hcap hturns
    obtain ⟨turns, rfl⟩ := Nat.exists_eq_succ_of_ne_zero (Nat.ne_of_gt (Nat.lt_of_le_of_lt
      (Nat.zero_le _) hturns))
    obtain ⟨module, hmodule⟩ := Option.ne_none_iff_exists'.mp
      (Chain.outermost hrow hlaid).found
    obtain ⟨s', hturn, hat', hframes, hn⟩ := turn_laidOut hat hrow hlaid hcaptured hlen htop hstart
      (Nat.le_refl _) (Or.inl rfl) hmodule
    refine ⟨s'.trim, ?_, ?_, ?_, ?_⟩
    · unfold loop
      rw [hat.registers.rip_eq, hmodule]
      dsimp only
      rw [hturn, ok_bind, if_pos (Or.inr rfl)]
    · unfold trim
      rw [if_pos (by omega), hframes]
      simp
    · unfold trim
      rw [if_pos (by omega)]
      simp [hat'.no_error, hn]
    · unfold trim
      rw [if_pos (by omega)]
      exact hat'.coherent
  | @call ip rsp rbp row offsets cfa ra callerRbp returns hrow hlaid hra hrest ih =>
    intro s turns hat hstart hpos hcap hturns
    rw [List.length_cons] at hcap hturns
    obtain ⟨turns, rfl⟩ := Nat.exists_eq_succ_of_ne_zero (Nat.ne_of_gt (Nat.lt_of_le_of_lt
      (Nat.zero_le _) hturns))
    obtain ⟨module, hmodule⟩ := Option.ne_none_iff_exists'.mp
      (Chain.call hrow hlaid hra hrest).found
    have habove := hlaid.above
    obtain ⟨s', hturn, hat', hframes, hn⟩ := turn_laidOut hat hrow hlaid hcaptured hlen htop hstart
      (Nat.le_of_lt hrest.rsp_lt) (Or.inr hrest.found) hmodule
    obtain ⟨ended, hloop, hstack, hresult, hcoherent⟩ := @ih s' turns hat'
      (by omega) (by omega) (by omega) (by omega)
    refine ⟨ended, ?_, ?_, ?_, hcoherent⟩
    · unfold loop
      rw [hat.registers.rip_eq, hmodule]
      dsimp only
      rw [hturn, ok_bind, if_neg (by omega)]
      exact hloop
    · rw [hstack, hframes, List.append_assoc, List.singleton_append]
    · rw [hresult, hn, List.length_cons]
      congr 1
      omega

end Walk

/-- **Call-chain recovery.** A walk of at most 127 calls appends the address it starts at and
the return addresses of the chain, in order, and reports no error. The captured bytes start
at the stack pointer and reach 16 bytes past the outermost CFA. -/
theorem Machine.unwindProcess_chain (machine : Machine) {pid : Nat} {process : Process}
    (hmapped : machine.processes pid = some process) {unwinder : Unwinder}
    (hused : unwinder.Used accessor) (hcaptured : Captured memory rsp stackData)
    (hlen : stackData.length < 2 ^ 63) (htop : top + 16 ≤ rsp + stackData.length)
    (hn : returns.length ≤ 127)
    (hchain : Chain checks (process.sort.find checks) accessor memory rsp top ip rsp rbp returns)
    (stackFrames : List Nat) :
    ∃ unwound, machine.unwindProcess checks pid unwinder accessor ip rbp rsp stackData stackFrames =
        .ok (some unwound) ∧
      unwound.walk.stackFrames = stackFrames ++ ip :: returns ∧
      unwound.walk.result = { framesPushed := returns.length + 1, error := none } := by
  unfold Machine.unwindProcess
  rw [hmapped]
  generalize hwalk : Walk.mk (unwinder.reset ip rbp rsp) (stackFrames ++ [ip])
    { framesPushed := 1 } = s
  have hat : s.AtFrame accessor rsp ip rsp rbp := by
    subst hwalk
    exact ⟨⟨unwinder.reset_sized ip rbp rsp, rfl, rfl, rfl, rfl⟩, hused.coherent, rfl⟩
  have hpushed : s.result.framesPushed = 1 := by rw [← hwalk]
  obtain ⟨ended, hloop, hframes, hresult, -⟩ := Walk.loop_chain hcaptured hlen htop hchain hat
    (Nat.le_refl rsp) (by omega) (by omega) (show returns.length < 129 by omega)
  refine ⟨⟨{ processes := Function.update machine.processes pid (some process.sort) }, ended⟩,
    ?_, ?_, ?_⟩
  · dsimp only
    rw [hwalk, hloop]
    rfl
  · rw [hframes, ← hwalk, List.append_assoc, List.singleton_append]
  · rw [hresult, hpushed, Nat.add_comm]

/-! ### One call in a small file -/

/-- The header of a section. -/
def sectionHeader32 (name type offset size : Nat) : Bytes :=
  toLe 4 name ++ toLe 4 type ++ toLe 8 0 ++ toLe 4 offset ++ toLe 4 size ++ toLe 16 0

/-- A file with one frame entry: at 0x100, with the CFA above the return address on top of the
stack. -/
def oneEntryFile : Bytes :=
  -- identification and header: three sections at 140, their names in the third
  [0x7f, 0x45, 0x4c, 0x46, 1] ++ List.replicate 27 0 ++ toLe 4 140 ++ List.replicate 10 0 ++
    toLe 2 40 ++ toLe 2 3 ++ toLe 2 2 ++
  -- at 52: the names
  ".eh_frame".toUTF8.data.toList ++ [0] ++ ".eh_frame_hdr".toUTF8.data.toList ++ [0] ++
  -- at 76: the search table
  [1, 3, 3, 3] ++ toLe 4 0 ++ toLe 4 1 ++ toLe 4 0x100 ++ toLe 4 24 ++
  -- at 96: the CIE
  toLe 4 20 ++ toLe 4 0 ++ [1, 0x7a, 0x52, 0, 1, 0x78, 16, 1, 3, 0x0c, 7, 8, 0x90, 1, 0, 0] ++
  -- at 120: the FDE
  toLe 4 16 ++ toLe 4 28 ++ toLe 4 0x100 ++ toLe 4 0x100 ++ [0, 0, 0, 0] ++
  -- at 140: the section headers
  sectionHeader32 0 1 96 44 ++ sectionHeader32 10 1 76 20 ++ sectionHeader32 0 3 52 24

def oneEntryAccessor : ModuleAccessor := fun _ => some (File.ofBytes oneEntryFile)

def oneEntry : FrameOffset where
  rva := 0x100
  fde := 120
  pcSize := 0x100
  state := .valid
  retReg := 16
  frameStates := [{ rva := 0x100, cfaReg := 7, cfaOff := 8, regStates := [⟨16, .offset, -8⟩] }]

def oneModuleProcess : Process :=
  { mods := [Module.new 0x1000 0x1fff 0 0 0 0 .DWARF], sorted := true }

theorem rowAt_oneEntry {ip rva : Nat} (hip : ip = 0x1110 ∧ rva = 0x110 ∨ ip = 0x1120 ∧ rva = 0x120) :
    RowAt .on (oneModuleProcess.sort.find .on) oneEntryAccessor ip
      { reg := 7, off := 8, offMask := 0x10000 } (List.replicate 16 0 ++ [-8]) := by
  obtain ⟨rfl, rfl⟩ | ⟨rfl, rfl⟩ := hip
  · exact ⟨_, 0x110, oneEntry, ⟨[oneEntry], true⟩, rfl, rfl, rfl, by decide +kernel, by decide⟩
  · exact ⟨_, 0x120, oneEntry, ⟨[oneEntry], true⟩, rfl, rfl, rfl, by decide +kernel, by decide⟩

/-- The return address 0x1120, and the 0 of the outermost frame above it. -/
def oneCallStack : Bytes := toLe 8 0x1120 ++ List.replicate 24 0

def oneCallMemory : Memory := fun address => oneCallStack.getD (address - 0x7000) 0

theorem captured_oneCall : Captured oneCallMemory 0x7000 oneCallStack := by
  intro i hi
  unfold oneCallMemory
  rw [Nat.add_sub_cancel_left, List.getD_eq_getElem?_getD, List.getElem?_eq_getElem hi,
    Option.getD_some]

theorem chain_oneCall : Chain .on (oneModuleProcess.sort.find .on) oneEntryAccessor oneCallMemory
    0x7000 0x7010 0x1110 0x7000 0 [0x1120] := by
  have hinner : LaidOut oneCallMemory 0x7000 0x7010 { reg := 7, off := 8, offMask := 0x10000 }
      (List.replicate 16 0 ++ [-8]) 0x7000 0 0x7008 0x1120 0 :=
    ⟨⟨0x7000, Or.inl ⟨rfl, rfl⟩, by decide, by decide⟩, by decide, by decide, by decide,
      ⟨0x7000, by decide, by decide, by decide, by decide⟩, fun h => absurd h (by decide),
      fun _ => rfl⟩
  have houter : LaidOut oneCallMemory 0x7000 0x7010 { reg := 7, off := 8, offMask := 0x10000 }
      (List.replicate 16 0 ++ [-8]) 0x7008 0 0x7010 0 0 :=
    ⟨⟨0x7008, Or.inl ⟨rfl, rfl⟩, by decide, by decide⟩, by decide, by decide, by decide,
      ⟨0x7008, by decide, by decide, by decide, by decide⟩, fun h => absurd h (by decide),
      fun _ => rfl⟩
  exact .call (rowAt_oneEntry (Or.inl ⟨rfl, rfl⟩)) hinner (by decide)
    (.outermost (rowAt_oneEntry (Or.inr ⟨rfl, rfl⟩)) houter)

theorem Machine.unwindProcess_chain_oneCall :
    ∃ unwound,
      (Machine.new.addProcess 1 oneModuleProcess).2.unwindProcess .on 1 Unwinder.new
        oneEntryAccessor 0x1110 0 0x7000 oneCallStack [] = .ok (some unwound) ∧
      unwound.walk.stackFrames = [0x1110, 0x1120] ∧
      unwound.walk.result = { framesPushed := 2, error := none } :=
  (Machine.new.addProcess 1 oneModuleProcess).2.unwindProcess_chain rfl .new captured_oneCall
    (by decide) (by decide) (by decide) chain_oneCall []

end OneCollect.Ruwind
