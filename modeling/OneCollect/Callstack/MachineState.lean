import OneCollect.Exporting.Recording
import OneCollect.Ruwind.Unwinder

/-! The tracker of the callstack helper (`callstack/os/linux.rs`): the processes and modules it
keeps to unwind by, as comm, fork, mmap and exit records come in. -/

namespace OneCollect.Callstack
open Theory Ruwind Exporting

/-- The descriptors kept by module, and the `va_offset` read from them. -/
structure ModuleLookup where
  fds : ModuleKey → Option OpenedFile := fun _ => none
  vaOffsets : ModuleKey → Option Nat := fun _ => none

namespace ModuleLookup

def vaOffset (self : ModuleLookup) (key : ModuleKey) : Nat × ModuleLookup :=
  match self.vaOffsets key with
  | some value => (value, self)
  | none =>
    let value := ((self.fds key).map OpenedFile.vaOffset).getD 0
    (value, { self with vaOffsets := Function.update self.vaOffsets key (some value) })

/-- A descriptor for a module that has a key and none yet, if its file can be opened. -/
def keepFile (self : ModuleLookup) (key : Option ModuleKey) (file : Option OpenedFile) :
    ModuleLookup :=
  match key, file with
  | some key, some file =>
    if (self.fds key).isSome then self
    else { self with fds := Function.update self.fds key (some file) }
  | _, _ => self

end ModuleLookup

structure MachineState where
  machine : Machine := {}
  modules : ModuleLookup := {}

namespace MachineState

def addCommExec (self : MachineState) (pid : Nat) : MachineState :=
  { self with machine := (self.machine.addProcess pid {}).2 }

def fork (self : MachineState) (pid ppid : Nat) : MachineState :=
  { self with machine := (self.machine.forkProcess pid ppid).2 }

def exit (self : MachineState) (pid : Nat) : MachineState :=
  { self with machine := (self.machine.removeProcess pid).2 }

/-- `(maj << 8) as u64 | min as u64`; the shift is one of 32 bits. -/
def deviceOf (maj min : Nat) : Nat := (maj <<< 8) % 2 ^ 32 ||| min

def memBacked (filename : String) : Bool :=
  startsWith filename "[" || startsWith filename "/memfd:" || startsWith filename "//anon"

/-- The key of a module, unless it is backed by memory. -/
def moduleKey (maj min ino : Nat) (filename : String) : Option ModuleKey :=
  if memBacked filename then none else some ⟨deviceOf maj min, ino⟩

/-- The module that `add_mmap_exec` makes of a record, and the lookup it leaves. -/
def newModule (checks : OverflowChecks) (modules : ModuleLookup)
    (addr len offset maj min ino : Nat) (filename : String) : Exec (Module × ModuleLookup) := do
  let unwindType := if isPe filename then .Prolog else .DWARF
  let stop ← checks.addU64 addr len
  match moduleKey maj min ino filename with
  | some key =>
    let (vaOffset, modules) := modules.vaOffset key
    .ok (.new addr stop offset vaOffset (deviceOf maj min) ino unwindType, modules)
  | none => .ok (.newAnon addr stop, modules)

/-- `file` is what opening the path below `/proc/<pid>/root` gives, if it is tried. -/
def addMmapExec (checks : OverflowChecks) (self : MachineState)
    (pid addr len offset maj min ino : Nat) (filename : String) (file : Option OpenedFile) :
    Exec MachineState :=
  let modules := self.modules.keepFile (moduleKey maj min ino filename) file
  match self.machine.findProcess pid with
  | none => .ok { self with modules }
  | some process => do
    let (module, modules) ← newModule checks modules addr len offset maj min ino filename
    .ok
      { machine :=
          { processes := Function.update self.machine.processes pid
              (some (process.addModule module)) }
        modules }

end MachineState

end OneCollect.Callstack
