import OneCollect.Ruwind.Dwarf
import OneCollect.Ruwind.Modules

/-! The stack unwinder of `x64unwinder.rs` and its caller in `machine.rs`.

A walk is the unwinder with its registers and its tables, the frames and the result. Its
loop takes a number of turns; `Walk` proves that 129 are enough, whatever happens. -/

namespace OneCollect.Ruwind
open Theory

/-- `open` of a `dyn ModuleAccessor`. -/
abbrev ModuleAccessor := ModuleKey → Option File

inductive UnwindError where
  | AnonPrologNotFound
  | RegisterOutOfRange
  | NoReturnAddressRegister
  | CfaWouldGoBackwards
  | BadStackRbpRead
  | BadStackIpRead
  | NoModuleFound
  | ProcessNotMapped
  deriving DecidableEq, Repr

structure UnwindResult where
  framesPushed : Nat := 0
  error : Option UnwindError := none
  deriving DecidableEq, Repr

/-! ## Frame offsets of a module -/

structure FrameOffsets where
  frameOffsets : List FrameOffset := []
  filled : Bool := false
  deriving DecidableEq, Repr

namespace FrameOffsets

/-- The table of a module; without a file or with one that does not parse it is empty. -/
def load (accessor : ModuleAccessor) (key : ModuleKey) : Exec (List FrameOffset) :=
  match accessor key with
  | none => .ok []
  | some file =>
    match FrameHeaderTable.parse file with
    | .ok offsets => .ok offsets
    | .error (.error _) => .ok []
    | .error .panic => panicked

def fill (accessor : ModuleAccessor) (key : ModuleKey) (self : FrameOffsets) :
    Exec FrameOffsets :=
  if self.filled then .ok self
  else do
    let frameOffsets ← load accessor key
    .ok { frameOffsets, filled := true }

/-- An entry with its rows, loaded when they are first asked for. -/
def ensureParsed (accessor : ModuleAccessor) (key : ModuleKey) (offset : FrameOffset) :
    Exec FrameOffset :=
  if offset.isUnparsed then
    match accessor key with
    | none => .ok offset.markInvalid
    | some file =>
      match FrameHeaderTable.parseOffset file offset with
      | .ok offset => .ok offset
      -- what an error leaves in the other fields is not read again
      | .error (.error _) => .ok offset.markInvalid
      | .error .panic => panicked
  else .ok offset

def getFrameOffset (checks : OverflowChecks) (accessor : ModuleAccessor) (self : FrameOffsets)
    (key : ModuleKey) (rva : Nat) : Exec (Option FrameOffset × FrameOffsets) := do
  let self ← self.fill accessor key
  match FrameOffset.find rva self.frameOffsets with
  | none => .ok (none, self)
  | some index =>
    let offset ← getAt self.frameOffsets index
    let offset ← ensureParsed accessor key offset
    let self := { self with frameOffsets := self.frameOffsets.set index offset }
    if offset.isValid then
      if offset.pcSize ≠ 0 then
        let stop ← checks.addU64 offset.rva offset.pcSize
        -- the address lies in a gap behind the range of the entry
        if rva ≥ stop then .ok (none, self) else .ok (some offset, self)
      else .ok (some offset, self)
    else .ok (none, self)

end FrameOffsets

/-! ## The unwinder -/

def REG_RBP : Nat := 6
def REG_RSP : Nat := 7
def REG_RA : Nat := 16

def REG_RBP_BIT : BitVec 64 := (1 : BitVec 64) <<< REG_RBP
def REG_RA_BIT : BitVec 64 := (1 : BitVec 64) <<< REG_RA

structure Unwinder where
  frameCache : ModuleKey → FrameOffsets := fun _ => {}
  registers : List Nat := []
  offsets : List Int := []
  rip : Nat := 0
  rsp : Nat := 0

namespace Unwinder

def new : Unwinder := {}

def reset (self : Unwinder) (rip rbp rsp : Nat) : Unwinder :=
  { self with
    registers := ((List.replicate (REG_RA + 1) 0).set REG_RBP rbp).set REG_RSP rsp
    offsets := List.replicate (REG_RA + 1) 0
    rip, rsp }

/-- The word `off` bytes from `cfa`, when the captured stack holds it. -/
def stackValue (checks : OverflowChecks) (rsp cfa : Nat) (off : Int) (stackData : Bytes) :
    Exec (Option Nat) :=
  if cfa < rsp then .ok none
  else do
    let offset ← checks.i64 (toI64 (cfa - rsp) + off)
    let maxOffset ← checks.i64 (toI64 stackData.length - 8)
    if offset < 0 ∨ offset ≥ maxOffset then .ok none
    else do
      let value ← readLe 8 stackData offset.toNat
      .ok (some value)

def setRegister (self : Unwinder) (reg value : Nat) : Unwinder :=
  { self with registers := self.registers.set reg value }

section Prolog

variable (checks : OverflowChecks) (process : Unwindable) (stackData : Bytes)

/-- The walk along the frame pointers: the link with a return address in a module, as the
address of the link, the frame pointer it saves and the return address. -/
def chainWalk (rsp maxCfa : Nat) : (depth : Nat) → (chainRbp : Nat) →
    Exec (Option (Nat × Nat × Nat))
  | 0, _ => .ok none
  | depth + 1, chainRbp => do
    let savedRbp ← stackValue checks rsp chainRbp 0 stackData
    match savedRbp with
    | none => .ok none
    | some savedRbp => do
      let retAddr ← stackValue checks rsp chainRbp 8 stackData
      match retAddr with
      | none => .ok none
      | some retAddr =>
        if (process retAddr).isSome then .ok (some (chainRbp, savedRbp, retAddr))
        else if savedRbp ≤ chainRbp ∨ savedRbp > maxCfa ∨ savedRbp &&& 0x7 ≠ 0 then .ok none
        else chainWalk rsp maxCfa depth savedRbp

/-- The scan of consecutive slots for a stack address followed by a code address. -/
def scan (cfa maxCfa maxOffset : Nat) : (turns : Nat) → (first offset : Nat) →
    Exec (Option (Nat × Nat))
  | 0, _, _ => .ok none
  | turns + 1, first, offset =>
    if offset ≤ maxOffset then do
      let second ← readLe 8 stackData offset
      if first > cfa ∧ first ≤ maxCfa ∧ (process second).isSome then .ok (some (first, second))
      else scan cfa maxCfa maxOffset turns second (offset + 8)
    else .ok none

/-- The scan for a caller, with the error it leaves when it finds none. -/
def unwindProlog (self : Unwinder) (error : Option UnwindError) :
    Exec (Option Nat × Unwinder × Option UnwindError) := do
  let cfa ← getAt self.registers REG_RSP
  let rbp ← getAt self.registers REG_RBP
  let len := stackData.length
  if cfa < self.rsp ∨ len < 16 then .ok (none, self, error)
  else
    let maxCfa ← checks.addU64 cfa len
    let link ← chainWalk checks process stackData self.rsp maxCfa 16 rbp
    match link with
    | some (chainRbp, savedRbp, retAddr) =>
      let above ← checks.addU64 chainRbp 16
      .ok (some retAddr, (self.setRegister REG_RSP above).setRegister REG_RBP savedRbp, error)
    | none =>
      let offset := cfa - self.rsp
      let maxOffset := len - 8
      if offset > maxOffset then .ok (none, self, error)
      else
        let first ← readLe 8 stackData offset
        let found ← scan process stackData cfa maxCfa maxOffset 64 first (offset + 8)
        match found with
        | some (first, second) =>
          .ok (some second, (self.setRegister REG_RSP first).setRegister REG_RBP first, error)
        | none => .ok (none, self, some .AnonPrologNotFound)

end Prolog

section Walking

variable (checks : OverflowChecks) (accessor : ModuleAccessor) (stackData : Bytes)

/-- The frame pointer of the caller: the saved one, or the one in the register. -/
def callerRbp (self : Unwinder) (cfaData : UnwindCFA) (cfa : Nat) : Exec (Option Nat) :=
  if cfaData.offMask &&& REG_RBP_BIT ≠ 0 then do
    let off ← getAt self.offsets REG_RBP
    stackValue checks self.rsp cfa off stackData
  else do
    let rbp ← getAt self.registers REG_RBP
    .ok (some rbp)

/-- The registers of the caller, by the row of an entry. -/
def applyRow (self : Unwinder) (cfaData : UnwindCFA) (error : Option UnwindError) :
    Exec (Option Nat × Unwinder × Option UnwindError) := do
  if cfaData.reg > REG_RA then .ok (none, self, some .RegisterOutOfRange)
  else
    let value ← getAt self.registers cfaData.reg
    let sum ← checks.i64 (toI64 value + cfaData.off)
    let cfa := toU64 sum
    if cfaData.offMask &&& REG_RA_BIT = 0 then
      .ok (none, self, some .NoReturnAddressRegister)
    else
      let rsp ← getAt self.registers REG_RSP
      if rsp ≥ cfa then .ok (none, self, some .CfaWouldGoBackwards)
      else
        let rbp ← callerRbp checks stackData self cfaData cfa
        match rbp with
        | none => .ok (none, self, some .BadStackRbpRead)
        | some rbp =>
          let self := (self.setRegister REG_RBP rbp).setRegister REG_RSP cfa
          let off ← getAt self.offsets REG_RA
          let ip ← stackValue checks self.rsp cfa off stackData
          match ip with
          | some ip => .ok (some ip, self, error)
          | none => .ok (none, self, some .BadStackIpRead)

def unwindModule (self : Unwinder) (key : ModuleKey) (rva : Nat) (error : Option UnwindError) :
    Exec (Option Nat × Unwinder × Option UnwindError) := do
  let (offset, frames) ← (self.frameCache key).getFrameOffset checks accessor key rva
  let self := { self with frameCache := Function.update self.frameCache key frames }
  match offset with
  | some offset =>
    let (cfaData, offsets) ← offset.unwindToCfa self.offsets rva
    applyRow checks stackData { self with offsets } cfaData error
  | none => .ok (none, self, some .NoModuleFound)

/-! ## The walk -/

variable (process : Unwindable)

/-- The caller's address by the means of the module, or by the scan where the module has no
entry for the address. -/
def callerOf (self : Unwinder) (module : CodeSection) (error : Option UnwindError) :
    Exec (Option Nat × Unwinder × Option UnwindError) :=
  if module.unwindType = .Prolog then unwindProlog checks process stackData self error
  else do
    let rva ← module.rva self.rip
    let (ip, self, error) ← unwindModule checks accessor stackData self module.key rva error
    if ip = none ∧ error = some .NoModuleFound then
      unwindProlog checks process stackData self none
    else .ok (ip, self, error)

/-- A caller outside all modules is looked for again, from the registers before the step. -/
def recover (self : Unwinder) (savedRsp savedRbp nextIp : Nat) (error : Option UnwindError) :
    Exec (Nat × Unwinder × Option UnwindError) :=
  if nextIp ≠ 0 ∧ process nextIp = none then do
    let self := (self.setRegister REG_RSP savedRsp).setRegister REG_RBP savedRbp
    let (recovered, self, error) ← unwindProlog checks process stackData self error
    match recovered with
    | some recovered => .ok (recovered, self, none)
    | none => .ok (nextIp, self, error)
  else .ok (nextIp, self, error)

end Walking

end Unwinder

/-- The unwinder with what it fills. -/
structure Walk where
  unwinder : Unwinder
  stackFrames : List Nat
  result : UnwindResult

/-- How a turn of the loop ends. -/
inductive Turn where
  | again
  | break
  | return
  deriving DecidableEq, Repr

namespace Walk

def push (s : Walk) (unwinder : Unwinder) (error : Option UnwindError) (ip : Nat) : Walk :=
  { unwinder := { unwinder with rip := ip }
    stackFrames := s.stackFrames ++ [ip]
    result := { framesPushed := s.result.framesPushed + 1, error } }

/-- The end of the loop: the last frame is dropped. -/
def trim (s : Walk) : Walk :=
  if s.result.framesPushed > 1 then
    { s with
      stackFrames := s.stackFrames.dropLast
      result := { s.result with framesPushed := s.result.framesPushed - 1 } }
  else s

section Loop

variable (checks : OverflowChecks) (process : Unwindable) (accessor : ModuleAccessor)
  (stackData : Bytes)

def turn (s : Walk) (module : CodeSection) : Exec (Turn × Walk) := do
  let savedRsp ← getAt s.unwinder.registers REG_RSP
  let savedRbp ← getAt s.unwinder.registers REG_RBP
  let (ip, unwinder, error) ←
    s.unwinder.callerOf checks accessor stackData process module s.result.error
  match ip with
  | some nextIp =>
    let (nextIp, unwinder, error) ←
      unwinder.recover checks stackData process savedRsp savedRbp nextIp error
    let s := s.push unwinder error nextIp
    -- hard cap of frames, and the address 0 that ends the stack
    if s.result.framesPushed > 128 then .ok (.break, s)
    else if s.unwinder.rip = 0 then .ok (.break, s)
    else .ok (.again, s)
  | none => .ok (.return, { s with unwinder, result := { s.result with error } })

/-- `while let Some(module) = process.find(self.rip)`; `none` when the turns do not do. -/
def loop : (turns : Nat) → Walk → Exec (Option Walk)
  | 0, _ => .ok none
  | turns + 1, s =>
    match process s.unwinder.rip with
    | none => .ok (some s.trim)
    | some module => do
      let (next, s) ← s.turn checks process accessor stackData module
      match next with
      | .again => loop turns s
      | .break => .ok (some s.trim)
      | .return => .ok (some s)

end Loop

end Walk

/-! ## The machine -/

structure Machine where
  processes : Nat → Option Process := fun _ => none

namespace Machine

def new : Machine := {}

def addProcess (self : Machine) (pid : Nat) (process : Process) : Bool × Machine :=
  match self.processes pid with
  | none => (true, { processes := Function.update self.processes pid (some process) })
  | some _ => (false, self)

def findProcess (self : Machine) (pid : Nat) : Option Process := self.processes pid

def forkProcess (self : Machine) (pid ppid : Nat) : Bool × Machine :=
  match self.findProcess ppid with
  | some parent => self.addProcess pid parent.fork
  | none => (false, self)

def removeProcess (self : Machine) (pid : Nat) : Bool × Machine :=
  ((self.processes pid).isSome, { processes := Function.update self.processes pid none })

/-- What `unwind_process` leaves behind: the machine, the unwinder and the frames, and its
result. -/
structure Unwound where
  machine : Machine
  walk : Walk

def unwindProcess (checks : OverflowChecks) (self : Machine) (pid : Nat) (unwinder : Unwinder)
    (accessor : ModuleAccessor) (rip rbp rsp : Nat) (stackData : Bytes)
    (stackFrames : List Nat) : Exec (Option Unwound) :=
  let unwinder := unwinder.reset rip rbp rsp
  let walk : Walk :=
    { unwinder, stackFrames := stackFrames ++ [rip], result := { framesPushed := 1 } }
  match self.processes pid with
  | some process => do
    let process := process.sort
    let machine : Machine := { processes := Function.update self.processes pid (some process) }
    let ended ← walk.loop checks (process.find checks) accessor stackData 129
    .ok (ended.map fun walk => { machine, walk })
  | none =>
    .ok (some
      { machine := self
        walk := { walk with result := { walk.result with error := some .ProcessNotMapped } } })

end Machine

end OneCollect.Ruwind
