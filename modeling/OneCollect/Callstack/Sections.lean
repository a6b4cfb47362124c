import OneCollect.Callstack.Records
import OneCollect.Exporting.ModuleLookup

/-! The code section that an mmap record becomes on either side: a module of the callstack
helper, a mapping of the exporter.

The module holds one address more, the one behind the mapping, so the two never are the same
section. -/

namespace OneCollect.Exporting
open Theory Ruwind

namespace ProcessMapping

def key (self : ProcessMapping) : ModuleKey :=
  match self.node with
  | some node => ⟨node.dev, node.ino⟩
  | none => ⟨0, 0⟩

def rva (checks : OverflowChecks) (self : ProcessMapping) (ip : Nat) : Exec Nat := do
  let position ← subU64 ip self.start
  let position ← checks.addU64 position self.fileOffset
  checks.addU64 position self.vaOffset

end ProcessMapping

end OneCollect.Exporting

namespace OneCollect.Callstack
open Theory Ruwind Exporting

/-- A mapping and a module hold the addresses of the record, and agree on what they are; those
of a file also on its key, and, with the same `va_offset`, on every `rva`. -/
structure SameSection (checks : OverflowChecks) (addr len : Nat) (filename : String)
    (mapping : ProcessMapping) (module : Module) : Prop where
  mapped : ∀ ip, mapping.containsIp ip = true ↔ addr ≤ ip ∧ ip ≤ addr + len - 1
  tracked : ∀ ip, module.contains ip = true ↔ addr ≤ ip ∧ ip ≤ addr + len - 1
  anon : mapping.anon = module.anon
  unwindType : mapping.unwindType = module.unwindType
  key : isAnon filename = false → mapping.key = module.key
  rva : isAnon filename = false → mapping.vaOffset = module.vaOffset →
    ∀ ip, mapping.rva checks ip = module.rva checks ip

/-- What the record of a file or of memory adds on either side. -/
structure Adds (s t : Trackers) (pid : Nat) (mapping : ProcessMapping) (module : Module) :
    Prop where
  mapping : (t.exporter.process pid).mappings = (s.exporter.process pid).mappings ++ [mapping]
  module : ∃ mods, modulesOf s pid = some mods ∧ modulesOf t pid = some (mods ++ [module])

theorem Adds.unique {s t : Trackers} {pid : Nat} {mapping mapping' : ProcessMapping}
    {module module' : Module} (h : Adds s t pid mapping module)
    (h' : Adds s t pid mapping' module') : mapping = mapping' ∧ module = module' := by
  obtain ⟨mods, hmods, hafter⟩ := h.module
  obtain ⟨mods', hmods', hafter'⟩ := h'.module
  obtain rfl : mods = mods' := Option.some.inj (hmods.symm.trans hmods')
  have hmapping := List.append_cancel_left (h.mapping.symm.trans h'.mapping)
  have hmodule := List.append_cancel_left (Option.some.inj (hafter.symm.trans hafter'))
  exact ⟨List.singleton_inj.mp hmapping, List.singleton_inj.mp hmodule⟩

section MmapRecord

variable (checks : OverflowChecks) (addr len pgoffset maj min ino : Nat) (filename : String)

/-- The mapping of the exporter, up to its name and number. -/
def mappingOf (time filenameId id vaOffset : Nat) : ProcessMapping :=
  { time, filenameId, start := addr, stop := addr + len - 1, fileOffset := pgoffset, vaOffset
    anon := isAnon filename, id
    unwindType := if isAnon filename || isPe filename then .Prolog else .DWARF
    node := if isAnon filename then none else some (.fromParts maj min ino) }

/-- The module of the callstack helper. -/
def moduleOf (vaOffset : Nat) : Module :=
  if MachineState.memBacked filename then .newAnon addr (addr + len)
  else .new addr (addr + len) pgoffset vaOffset (MachineState.deviceOf maj min) ino
    (if isPe filename then .Prolog else .DWARF)

variable {checks addr len pgoffset maj min ino filename}

theorem newMapping_eq (filenameId id time : Nat) (hlen : 1 ≤ len) (hfit : addr + len < 2 ^ 64) :
    RecordingMachine.newMapping checks filenameId id time addr len pgoffset maj min ino filename =
      .ok (mappingOf addr len pgoffset maj min ino filename time filenameId id 0) := by
  unfold RecordingMachine.newMapping
  rw [checks.addU64_of_lt hfit, ok_bind, checks.subU64_of_le (by omega) hfit, ok_bind]
  rfl

theorem newModule_eq (modules : ModuleLookup) (hfit : addr + len < 2 ^ 64) :
    ∃ vaOffset modules',
      MachineState.newModule checks modules addr len pgoffset maj min ino filename =
        .ok (moduleOf addr len pgoffset maj min ino filename vaOffset, modules') := by
  unfold MachineState.newModule MachineState.moduleKey moduleOf
  rw [checks.addU64_of_lt hfit, ok_bind]
  by_cases hmem : MachineState.memBacked filename = true
  · simp only [if_pos hmem]
    exact ⟨0, modules, rfl⟩
  · simp only [if_neg hmem]
    exact ⟨_, _, rfl⟩

/-- Both hooks handle an executable mmap record of a tracked process. -/
theorem hook_mmap_adds {s : Trackers} {process : Process} {time pid tid prot : Nat}
    {file openedFile : Option OpenedFile} (hexec : prot &&& protExec = protExec) (hpid : pid ≠ 0)
    (htracked : s.callstack.machine.findProcess pid = some process) (hlen : 1 ≤ len)
    (hfit : addr + len < 2 ^ 64) :
    ∃ t filenameId id vaOffset vaOffset',
      s.hook checks (.mmap time pid tid addr len pgoffset maj min ino prot filename file
        openedFile) = .ok t ∧
      Adds s t pid
        (mappingOf addr len pgoffset maj min ino filename time filenameId id vaOffset)
        (moduleOf addr len pgoffset maj min ino filename vaOffset') := by
  have hnot : ¬ prot &&& protExec ≠ protExec := not_not.mpr hexec
  let lookup := s.callstack.modules.keepFile (MachineState.moduleKey maj min ino filename) file
  have hmodule : ∃ vaOffset modules,
      MachineState.newModule checks lookup addr len pgoffset maj min ino filename =
        .ok (moduleOf addr len pgoffset maj min ino filename vaOffset, modules) :=
    newModule_eq lookup hfit
  obtain ⟨vaOffset', modules, hmodule⟩ := hmodule
  let interned := s.exporter.intern filename
  let mapping := mappingOf addr len pgoffset maj min ino filename time interned.1
    interned.2.mapIndex 0
  obtain ⟨vaOffset, hmapping⟩ := interned.2.osAddMmapExec_mapping pid mapping openedFile
  have hcallstack : s.callstack.hook checks (.mmap time pid tid addr len pgoffset maj min ino prot
      filename file openedFile) =
        .ok ⟨⟨Function.update s.callstack.machine.processes pid (some (process.addModule
          (moduleOf addr len pgoffset maj min ino filename vaOffset')))⟩, modules⟩ := by
    simp only [MachineState.hook, if_neg hnot, MachineState.addMmapExec, htracked]
    rw [hmodule, ok_bind]
  have hexporter : s.exporter.hook checks (.mmap time pid tid addr len pgoffset maj min ino prot
      filename file openedFile) = .ok (interned.2.addNewMapping pid mapping openedFile) := by
    simp only [RecordingMachine.hook, if_neg hnot, RecordingMachine.addMmapExec, if_neg hpid]
    rw [newMapping_eq _ _ _ hlen hfit, ok_bind]
  have hadded := interned.2.process_addNewMapping pid mapping openedFile pid
  rw [if_pos rfl, hmapping] at hadded
  refine ⟨⟨_, _⟩, interned.1, interned.2.mapIndex, vaOffset, vaOffset',
    hook_eq_ok.mpr ⟨hcallstack, hexporter⟩, congrArg ExportProcess.mappings hadded,
    process.mods, congrArg (Option.map Process.mods) htracked, ?_⟩
  simp [modulesOf, Process.addModule]

/-! ## Where the two differ -/

section Compare

variable (time filenameId id vaOffset vaOffset' : Nat)

theorem moduleOf_range :
    (moduleOf addr len pgoffset maj min ino filename vaOffset').start = addr ∧
      (moduleOf addr len pgoffset maj min ino filename vaOffset').stop = addr + len := by
  unfold moduleOf
  split
  · exact ⟨rfl, rfl⟩
  · exact ⟨rfl, rfl⟩

/-- The module alone holds the address behind the range. -/
theorem contains_eq_iff (hlen : 1 ≤ len) (ip : Nat) :
    (mappingOf addr len pgoffset maj min ino filename time filenameId id vaOffset).containsIp ip =
        (moduleOf addr len pgoffset maj min ino filename vaOffset').contains ip ↔
      ip ≠ addr + len := by
  obtain ⟨hstart, hstop⟩ :
      (moduleOf addr len pgoffset maj min ino filename vaOffset').start = addr ∧
        (moduleOf addr len pgoffset maj min ino filename vaOffset').stop = addr + len :=
    moduleOf_range vaOffset'
  rw [Bool.eq_iff_iff, containsIp_iff]
  simp only [Module.contains, hstart, hstop, mappingOf, ge_iff_le, Bool.and_eq_true,
    decide_eq_true_eq]
  omega

theorem not_sameSection (hlen : 1 ≤ len) :
    ¬ SameSection checks addr len filename
      (mappingOf addr len pgoffset maj min ino filename time filenameId id vaOffset)
      (moduleOf addr len pgoffset maj min ino filename vaOffset') := by
  intro h
  have heq : (mappingOf addr len pgoffset maj min ino filename time filenameId id
      vaOffset).containsIp (addr + len) =
        (moduleOf addr len pgoffset maj min ino filename vaOffset').contains (addr + len) := by
    rw [Bool.eq_iff_iff, h.mapped, h.tracked]
  exact (contains_eq_iff time filenameId id vaOffset vaOffset' hlen _).mp heq rfl

end Compare

/-- **Two sections from one record.** Every executable mmap record of a tracked process gives
the exporter and the callstack helper different code sections. -/
theorem mmap_sections_differ {s : Trackers} {process : Process} {time pid tid prot : Nat}
    {file openedFile : Option OpenedFile} (hexec : prot &&& protExec = protExec) (hpid : pid ≠ 0)
    (htracked : s.callstack.machine.findProcess pid = some process) (hlen : 1 ≤ len)
    (hfit : addr + len < 2 ^ 64) :
    ∃ t mapping module,
      s.hook checks (.mmap time pid tid addr len pgoffset maj min ino prot filename file
        openedFile) = .ok t ∧
      Adds s t pid mapping module ∧ ¬ SameSection checks addr len filename mapping module := by
  obtain ⟨t, filenameId, id, vaOffset, vaOffset', hhook, hadds⟩ :=
    hook_mmap_adds hexec hpid htracked hlen hfit
  exact ⟨t, _, _, hhook, hadds, not_sameSection time filenameId id vaOffset vaOffset' hlen⟩

end MmapRecord

theorem started_tracked : started.callstack.machine.findProcess 7 = some {} := rfl

/-- An anonymous page of process 7. -/
theorem mmap_sections_differ_page : ∃ t mapping module,
    started.hook .on (.mmap 2 7 7 0x1000 0x1000 0 0 0 0 5 "//anon" none none) = .ok t ∧
      Adds started t 7 mapping module ∧
        ¬ SameSection .on 0x1000 0x1000 "//anon" mapping module :=
  mmap_sections_differ (by decide) (by decide) started_tracked (by decide) (by decide)

theorem mmap_sections_not_same :
    ¬ ∀ (checks : OverflowChecks) (s : Trackers) (process : Process)
      (time pid tid addr len pgoffset maj min ino prot : Nat) (filename : String)
      (file openedFile : Option OpenedFile), prot &&& protExec = protExec → pid ≠ 0 →
      s.callstack.machine.findProcess pid = some process → 1 ≤ len → addr + len < 2 ^ 64 →
      ∃ t mapping module,
        s.hook checks (.mmap time pid tid addr len pgoffset maj min ino prot filename file
          openedFile) = .ok t ∧
        Adds s t pid mapping module ∧ SameSection checks addr len filename mapping module := by
  intro h
  obtain ⟨t, mapping, module, hhook, hadds, hsame⟩ :=
    h .on started {} 2 7 7 0x1000 0x1000 0 0 0 0 5 "//anon" none none (by decide) (by decide) rfl
      (by decide) (by decide)
  obtain ⟨t', filenameId, id, vaOffset, vaOffset', hhook', hadds'⟩ :
      ∃ t' filenameId id vaOffset vaOffset',
        started.hook .on (.mmap 2 7 7 0x1000 0x1000 0 0 0 0 5 "//anon" none none) = .ok t' ∧
          Adds started t' 7
            (mappingOf 0x1000 0x1000 0 0 0 0 "//anon" 2 filenameId id vaOffset)
            (moduleOf 0x1000 0x1000 0 0 0 0 "//anon" vaOffset') :=
    hook_mmap_adds (by decide) (by decide) started_tracked (by decide) (by decide)
  obtain rfl := Except.ok.inj (hhook.symm.trans hhook')
  obtain ⟨rfl, rfl⟩ := hadds.unique hadds'
  exact not_sameSection 2 filenameId id vaOffset vaOffset' (by decide) hsame

end OneCollect.Callstack
