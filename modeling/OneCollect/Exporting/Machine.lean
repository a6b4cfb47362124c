import OneCollect.Exporting.Process
import OneCollect.Theory.Numbering

/-! The machine of `mod.rs`: its processes, and the tables of strings and call stacks that they
refer to by id. The tables are those `Interning.Slices` implements: distinct values, numbered in
the order they are first seen. -/

namespace OneCollect.Exporting
open Theory

structure InternedStrings where
  strings : List String := []
  deriving DecidableEq, Repr

namespace InternedStrings

def toId (self : InternedStrings) (string : String) : Nat × InternedStrings :=
  let strings := insertNew self.strings string
  (numberOf strings string, ⟨strings⟩)

def fromId (self : InternedStrings) (id : Nat) : Option String := self.strings[id]?

/-- Ids keep their strings when more are added. -/
theorem fromId_of_prefix {self later : InternedStrings} {id : Nat} {string : String}
    (h : self.strings <+: later.strings) (hid : self.fromId id = some string) :
    later.fromId id = some string := by
  obtain ⟨rest, hrest⟩ := h
  obtain ⟨hlt, -⟩ := List.getElem?_eq_some_iff.mp hid
  rw [fromId, ← hrest, List.getElem?_append_left hlt]
  exact hid

/-- A string is read back under its id, also after more strings. -/
theorem fromId_toId (self : InternedStrings) (string : String) {later : InternedStrings}
    (h : (self.toId string).2.strings <+: later.strings) :
    later.fromId (self.toId string).1 = some string :=
  fromId_of_prefix h (getElem?_numberOf (mem_insertNew.mpr (.inr rfl)))

theorem prefix_toId (self : InternedStrings) (string : String) :
    self.strings <+: (self.toId string).2.strings :=
  prefix_insertNew _ _

end InternedStrings

structure InternedCallstacks where
  frames : List (List Nat) := []
  deriving DecidableEq, Repr

def InternedCallstacks.toId (self : InternedCallstacks) (frames : List Nat) :
    Nat × InternedCallstacks :=
  let items := insertNew self.frames frames
  (numberOf items frames, ⟨items⟩)

def InternedCallstacks.fromId (self : InternedCallstacks) (id : Nat) : Option (List Nat) :=
  self.frames[id]?

/-- The processes of the map `procs` in the order of its iteration, which is any order. -/
structure ExportMachine where
  procs : List ExportProcess := []
  strings : InternedStrings := {}
  callstacks : InternedCallstacks := {}
  mapIndex : Nat := 0
  nodup : (procs.map (·.pid)).Nodup := by decide

namespace ExportMachine

def findProcess (self : ExportMachine) (pid : Nat) : Option ExportProcess :=
  self.procs.find? (·.pid = pid)

/-- The process of a pid, or a new one. -/
def process (self : ExportMachine) (pid : Nat) : ExportProcess :=
  (self.findProcess pid).getD { pid }

/-- The processes but for that of a pid. -/
def others (self : ExportMachine) (pid : Nat) : List ExportProcess :=
  self.procs.filter (·.pid ≠ pid)

/-- `procs.insert` under the pid of the process, in place of the one that is there. -/
def insert (self : ExportMachine) (process : ExportProcess) : ExportMachine :=
  { self with
    procs := self.others process.pid ++ [process]
    nodup := by
      rw [List.map_append, List.nodup_append]
      refine ⟨(self.nodup.sublist (List.filter_sublist.map _)), by simp, fun a ha b hb => ?_⟩
      obtain ⟨p, hp, rfl⟩ := List.mem_map.mp ha
      simp only [List.map_cons, List.map_nil, List.mem_singleton] at hb
      subst hb
      simpa using (List.mem_filter.mp hp).2 }

theorem findProcess_pid (self : ExportMachine) {pid : Nat} {process : ExportProcess}
    (h : self.findProcess pid = some process) : process.pid = pid := by
  simpa using List.find?_some h

@[simp] theorem process_pid (self : ExportMachine) (pid : Nat) : (self.process pid).pid = pid := by
  unfold ExportMachine.process
  cases h : self.findProcess pid with
  | none => rfl
  | some process => exact self.findProcess_pid h

/-- A process is found under its pid. -/
theorem findProcess_of_mem (self : ExportMachine) {process : ExportProcess}
    (h : process ∈ self.procs) : self.findProcess process.pid = some process := by
  have hinj := List.inj_on_of_nodup_map self.nodup
  cases hfind : self.findProcess process.pid with
  | none =>
    have hnone := List.find?_eq_none.mp hfind process h
    simp at hnone
  | some other =>
    have hpid := self.findProcess_pid hfind
    rw [hinj (List.mem_of_find?_eq_some hfind) h hpid]

theorem findProcess_insert (self : ExportMachine) (process : ExportProcess) (pid : Nat) :
    (self.insert process).findProcess pid =
      if pid = process.pid then some process else self.findProcess pid := by
  unfold findProcess insert others
  rw [List.find?_append, List.find?_filter]
  split
  · rename_i h
    subst h
    have hnone : self.procs.find? (fun a => decide (decide (a.pid ≠ process.pid) = true ∧
        decide (a.pid = process.pid) = true)) = none := by
      refine List.find?_eq_none.mpr fun a _ => ?_
      simp
    rw [hnone]
    simp
  · rename_i h
    have hsame : self.procs.find? (fun a => decide (decide (a.pid ≠ process.pid) = true ∧
        decide (a.pid = pid) = true)) = self.procs.find? (fun a => decide (a.pid = pid)) := by
      refine congrArg (fun p => self.procs.find? p) (funext fun a => ?_)
      by_cases ha : a.pid = pid
      · simp [ha, h]
      · simp [ha]
    have hlast : [process].find? (fun a => decide (a.pid = pid)) = none := by
      simpa using Ne.symm h
    rw [hsame, hlast, Option.or_none]

theorem process_insert (self : ExportMachine) (process : ExportProcess) (pid : Nat) :
    (self.insert process).process pid =
      if pid = process.pid then process else self.process pid := by
  rw [ExportMachine.process, findProcess_insert]
  split <;> rfl

end ExportMachine

def kernelStart : Nat := 0xFFFF800000000000

def kernelEnd : Nat := 0xFFFFFFFFFFFFFFFF

end OneCollect.Exporting
