import OneCollect.Theory.Checked
import OneCollect.Theory.Greatest

/-! Code sections and processes: what `module.rs` and `process.rs` tell the unwinder about
an address. -/

namespace OneCollect.Ruwind
open Theory

structure ModuleKey where
  dev : Nat
  ino : Nat
  deriving DecidableEq, Repr

inductive UnwindType where
  | DWARF
  | Prolog
  deriving DecidableEq, Repr

/-- What the unwinder asks of a `dyn CodeSection`. -/
structure CodeSection where
  unwindType : UnwindType
  key : ModuleKey
  rva : Nat → Exec Nat

/-- The `find` of a `dyn Unwindable`. -/
abbrev Unwindable := Nat → Option CodeSection

structure Module where
  start : Nat
  stop : Nat
  offset : Nat
  vaOffset : Nat
  key : ModuleKey
  anon : Bool
  unwindType : UnwindType
  deriving DecidableEq, Repr

namespace Module

def new (start stop offset vaOffset dev ino : Nat) (unwindType : UnwindType) : Module :=
  { start, stop, offset, vaOffset, key := ⟨dev, ino⟩, anon := false, unwindType }

def newAnon (start stop : Nat) : Module :=
  { start, stop, offset := 0, vaOffset := 0, key := ⟨0, 0⟩, anon := true, unwindType := .Prolog }

def rva (checks : OverflowChecks) (self : Module) (ip : Nat) : Exec Nat := do
  let position ← subU64 ip self.start
  let position ← checks.addU64 position self.offset
  checks.addU64 position self.vaOffset

def toSection (checks : OverflowChecks) (self : Module) : CodeSection where
  unwindType := self.unwindType
  key := self.key
  rva := self.rva checks

end Module

structure Process where
  mods : List Module := []
  sorted : Bool := false
  deriving DecidableEq, Repr

namespace Process

def addModule (self : Process) (module : Module) : Process :=
  { mods := self.mods ++ [module], sorted := false }

def fork (self : Process) : Process := { mods := self.mods }

/-- The stable sort by start. -/
def sort (self : Process) : Process :=
  if self.sorted then self
  else { mods := self.mods.mergeSort (fun a b => a.start ≤ b.start), sorted := true }

def findModule (self : Process) (ip : Nat) : Option Module :=
  let index := partitionPoint (fun module => module.start ≤ ip) self.mods - 1
  match self.mods[index]? with
  | some module => if module.start ≤ ip ∧ module.stop ≥ ip then some module else none
  | none => none

def find (checks : OverflowChecks) (self : Process) : Unwindable :=
  fun ip => (self.findModule ip).map (·.toSection checks)

end Process

end OneCollect.Ruwind
