import OneCollect.Exporting.MappingIndex
import OneCollect.Ruwind.Modules
import OneCollect.Theory.Recent

/-! The lookup of `Process::find` under remapping, beside that of `ExportProcess::find` on the
same history.

A process holds its modules in the order they were added, up to the stable sort by start
(`run_history`). Its single search by start sees the newest of the modules with the greatest
start up to the address and no other (`findModule_sort`), so it misses the newest module
around the address wherever a module starts between the two. -/

namespace OneCollect.Ruwind
open Theory

def Module.contains (self : Module) (ip : Nat) : Bool := ip ≥ self.start && ip ≤ self.stop

/-- What a tracker does with a process; after `fork` the child is followed. -/
inductive ModuleOp where
  | addModule (module : Module)
  | sort
  | fork
  deriving DecidableEq, Repr

def ModuleOp.run (self : Process) : ModuleOp → Process
  | .addModule module => self.addModule module
  | .sort => self.sort
  | .fork => self.fork

/-- The process after `ops`, from `Process::new`. -/
def Process.after (ops : List ModuleOp) : Process := ops.foldl ModuleOp.run {}

/-- The modules added by `ops`, oldest first. -/
def added (ops : List ModuleOp) : List Module :=
  ops.filterMap fun
    | .addModule module => some module
    | _ => none

namespace Process

/-- The modules are those of the history, in its order up to the sort, and in order of their
starts when the flag says so. -/
structure Holds (process : Process) (history : List Module) : Prop where
  same : SameByKey Module.start history process.mods
  ascending : process.sorted = true → process.mods.Pairwise fun a b => a.start ≤ b.start

theorem Holds.addModule {self : Process} {history : List Module} (h : self.Holds history)
    (module : Module) : (self.addModule module).Holds (history ++ [module]) :=
  ⟨h.same.append [module], fun hs => absurd hs Bool.false_ne_true⟩

theorem Holds.fork {self : Process} {history : List Module} (h : self.Holds history) :
    self.fork.Holds history :=
  ⟨h.same, fun hs => absurd hs Bool.false_ne_true⟩

theorem sort_holds {self : Process} {history : List Module} (h : self.Holds history) :
    self.sort.Holds history ∧ self.sort.sorted = true := by
  unfold Process.sort
  split
  · rename_i hs
    exact ⟨h, hs⟩
  · exact ⟨⟨h.same.trans (sameByKey_mergeSort Module.start self.mods),
      fun _ => ascending_mergeSort Module.start self.mods⟩, rfl⟩

theorem run_history (ops : List ModuleOp) : (Process.after ops).Holds (added ops) := by
  induction ops using List.reverseRecOn with
  | nil => exact ⟨.refl [], fun hs => absurd hs Bool.false_ne_true⟩
  | append_singleton ops op ih =>
    simp only [Process.after, List.foldl_append, added, List.filterMap_append] at ih ⊢
    cases op with
    | addModule module => exact ih.addModule module
    | sort => simpa [ModuleOp.run] using (sort_holds ih).1
    | fork => simpa [ModuleOp.run] using ih.fork

/-- What `find` returns: the last module up to the address, if it reaches the address. -/
theorem findModule_eq (self : Process) (ip : Nat) :
    self.findModule ip =
      (self.mods.takeWhile (fun module => module.start ≤ ip)).getLast?.filter (·.contains ip) := by
  have hsplit :=
    List.takeWhile_append_dropWhile (p := fun m : Module => decide (m.start ≤ ip)) (l := self.mods)
  unfold findModule partitionPoint
  rcases List.eq_nil_or_concat' (self.mods.takeWhile (fun m => m.start ≤ ip)) with
    hnil | ⟨init, last, hlast⟩
  · rw [hnil]
    -- index 0: the first module, if there is one, starts above the address
    cases hmods : self.mods with
    | nil => rfl
    | cons first rest =>
      rw [hmods, List.takeWhile_cons] at hnil
      have hfirst : ¬ first.start ≤ ip := by
        intro h
        simp [h] at hnil
      simp [hfirst]
  · have hget : self.mods[init.length]? = some last := by
      rw [← hsplit, hlast]
      simp
    rw [hlast]
    simp only [List.length_append, List.length_singleton, Nat.add_sub_cancel, hget,
      List.getLast?_append, List.getLast?_singleton, Option.some_or, Option.filter_some,
      Module.contains, Bool.and_eq_true, decide_eq_true_eq, ge_iff_le]

theorem findModule_sort {self : Process} {history : List Module} (h : self.Holds history)
    (ip : Nat) :
    ∃ below, NewestBelow Module.start ip history below ∧
      self.sort.findModule ip = below.filter (·.contains ip) := by
  obtain ⟨hsort, hs⟩ := sort_holds h
  exact ⟨_, hsort.same.newestBelow_getLast? (hsort.ascending hs) ip, findModule_eq _ ip⟩

end Process

/-- The most recently added module whose range contains `ip`. -/
def mostRecent (history : List Module) (ip : Nat) : Option Module :=
  (history.filter (·.contains ip)).getLast?

/-- The newest module around `ip` is foremost: no module added before it starts between its
start and `ip`, and none added after it starts from its start up to `ip`. -/
def Foremost (history : List Module) (ip : Nat) : Prop :=
  ∀ module, NewestWith (fun m : Module => m.contains ip = true) history (some module) →
    NewestBelow Module.start ip history (some module)

/-- A lookup after a sort finds the most recent module exactly when that one is foremost. -/
theorem Process.findModule_eq_mostRecent_iff (ops : List ModuleOp) (ip : Nat) :
    (Process.after ops).sort.findModule ip = mostRecent (added ops) ip ↔
      Foremost (added ops) ip := by
  obtain ⟨below, hbelow, hfind⟩ := Process.findModule_sort (Process.run_history ops) ip
  rw [hfind]
  exact hbelow.filter_eq_iff (newestWith_filter_getLast? (·.contains ip) (added ops))

end OneCollect.Ruwind

namespace OneCollect.Exporting
open Theory Ruwind

/-- The mappings of an exported process that sees the history of a tracked one: the ranges
in the order they were added, each under the later time of its own record. -/
structure SameHistory (history : List Module) (mappings : List ExportMapping) : Prop where
  ranges : mappings.map (fun m => (m.start, m.stop)) = history.map (fun m => (m.start, m.stop))
  ordered : mappings.Pairwise fun a b => a.time < b.time
  timed : ∀ m ∈ mappings, m.time ≤ u64Max
  ranged : Ranged mappings

section SameHistory

variable {history : List Module} {mappings : List ExportMapping}

theorem SameHistory.module_of (h : SameHistory history mappings) {i : Nat} {m : ExportMapping}
    (hm : mappings[i]? = some m) :
    ∃ module, history[i]? = some module ∧ ∀ ip, module.contains ip = m.containsIp ip := by
  have hi := congrArg (fun l : List (Nat × Nat) => l[i]?) h.ranges
  simp only [List.getElem?_map, hm, Option.map_some] at hi
  obtain ⟨module, hmodule, heq⟩ := Option.map_eq_some_iff.mp hi.symm
  simp only [Prod.mk.injEq] at heq
  refine ⟨module, hmodule, fun ip => ?_⟩
  rw [Module.contains, ExportMapping.containsIp, heq.1, heq.2]

theorem SameHistory.mapping_of (h : SameHistory history mappings) {i : Nat} {module : Module}
    (hm : history[i]? = some module) : ∃ m, mappings[i]? = some m := by
  have hlen := congrArg List.length h.ranges
  rw [List.length_map, List.length_map] at hlen
  have hi := (List.getElem?_eq_some_iff.mp hm).1
  exact ⟨_, List.getElem?_eq_getElem (hlen ▸ hi)⟩

/-- The youngest mapping around an address is that of the most recent module around it. -/
theorem SameHistory.mostRecent_of_answers (h : SameHistory history mappings) {ip : Nat}
    {r : Option Nat} (hr : Answers mappings ip u64Max r) :
    r.bind (history[·]?) = mostRecent history ip := by
  refine NewestWith.unique (p := fun m => m.contains ip = true) ?_
    (newestWith_filter_getLast? (·.contains ip) history)
  -- a module around the address is a candidate at its position
  have hcandidate : ∀ (j : Nat) (x : Module), history[j]? = some x → x.contains ip = true →
      ∃ m', Candidate mappings ip u64Max j m' := by
    intro j x hx hc
    obtain ⟨m', hm'⟩ := h.mapping_of hx
    obtain ⟨x', hx', hcontains⟩ := h.module_of hm'
    obtain rfl : x' = x := Option.some.inj (hx'.symm.trans hx)
    exact ⟨m', hm', hcontains ip ▸ hc, h.timed m' (List.mem_of_getElem? hm')⟩
  cases r with
  | none =>
    intro x hx hc
    obtain ⟨j, hj⟩ := List.mem_iff_getElem?.mp hx
    obtain ⟨m', hm'⟩ := hcandidate j x hj hc
    exact hr j m' hm'
  | some i =>
    obtain ⟨m, hm, hmax⟩ := hr
    obtain ⟨module, hmodule, hcontains⟩ := h.module_of hm.1
    obtain ⟨hi, hget⟩ := List.getElem?_eq_some_iff.mp hmodule
    rw [Option.bind_some, hmodule]
    refine ⟨history.take i, history.drop (i + 1), ?_, (hcontains ip).trans hm.2.1, ?_⟩
    · rw [← hget, List.getElem_cons_drop, List.take_append_drop]
    · intro x hx hc
      obtain ⟨k, hk⟩ := List.mem_iff_getElem?.mp hx
      rw [List.getElem?_drop] at hk
      obtain ⟨m', hm'⟩ := hcandidate (i + 1 + k) x hk hc
      have hle := hmax _ _ hm'
      obtain ⟨hi, rfl⟩ := List.getElem?_eq_some_iff.mp hm.1
      obtain ⟨hj, rfl⟩ := List.getElem?_eq_some_iff.mp hm'.1
      have hlt := List.pairwise_iff_getElem.mp h.ordered i (i + 1 + k) hi hj (by omega)
      omega

end SameHistory

/-- `ExportProcess::find` answers with the youngest mapping around `ip`, and that is the mapping
of the module `found`. -/
def FindsSame (order : HashOrder) (s : ExportMappingLookup) (history : List Module) (ip : Nat)
    (found : Option Module) : Prop :=
  ∃ r s', s.findIndex order ip none = .ok (r, s') ∧ Answers s.mappings ip u64Max r ∧
    r.bind (history[·]?) = found

/-- The mapping list shows its youngest mapping around `ip`: it is scanned, or its table has
that mapping among those at `ip`. -/
def ShowsLatest (s : ExportMappingLookup) (ip : Nat) : Prop :=
  s.mappings.length < s.minLookup ∨
    s.mappings ≠ [] ∧ ∀ b, Latest s.mappings ip u64Max b → Visible s.mappings ip b

theorem findIndex_answers_iff {s : ExportMappingLookup} (hs : lookupSystem.Reachable s)
    (hr : Ranged s.mappings) (hd : s.mappings.Pairwise fun a b => a.time ≠ b.time)
    (order : HashOrder) (ip : Nat) :
    (∃ r s', s.findIndex order ip none = .ok (r, s') ∧ Answers s.mappings ip u64Max r) ↔
      ShowsLatest s ip := by
  by_cases hlen : s.mappings.length < s.minLookup
  · obtain ⟨r, hrun, hans⟩ := findIndex_scan hlen hd order ip none
    exact ⟨fun _ => Or.inl hlen, fun _ => ⟨r, s, hrun, hans⟩⟩
  · have hmin := not_lt.mp hlen
    by_cases hnil : s.mappings = []
    · have hpanic := findIndex_indexed_nil (reachable_coherent hs) hmin hnil order ip none
      constructor
      · rintro ⟨r, s', hrun, -⟩
        rw [hpanic] at hrun
        exact absurd hrun (panicked_ne_ok _)
      · rintro (h | h)
        · exact absurd h hlen
        · exact absurd hnil h.1
    · obtain ⟨r, s', hrun, hiff⟩ :=
        findIndex_indexed (reachable_coherent hs) hmin hnil hr hd order ip none
      constructor
      · rintro ⟨r', s'', hrun', hans⟩
        rw [hrun] at hrun'
        cases hrun'
        exact Or.inr ⟨hnil, hiff.mp hans⟩
      · rintro (h | h)
        · exact absurd h hlen
        · exact ⟨r, s', hrun, hiff.mpr h.2⟩

/-- **Lookup under remapping.** After any additions, sorts and forks, and a last sort, `find`
returns the most recent module around `ip` and the exported process finds the same one
exactly when that module is foremost and the mapping list shows its youngest mapping. -/
theorem find_mostRecent_iff (ops : List ModuleOp) {s : ExportMappingLookup}
    (hs : lookupSystem.Reachable s) (hsame : SameHistory (added ops) s.mappings)
    (order : HashOrder) (ip : Nat) :
    ((Process.after ops).sort.findModule ip = mostRecent (added ops) ip ∧
        FindsSame order s (added ops) ip ((Process.after ops).sort.findModule ip)) ↔
      Foremost (added ops) ip ∧ ShowsLatest s ip := by
  have hd : s.mappings.Pairwise fun a b => a.time ≠ b.time :=
    hsame.ordered.imp fun h => Nat.ne_of_lt h
  rw [← Process.findModule_eq_mostRecent_iff, ← findIndex_answers_iff hs hsame.ranged hd order ip]
  constructor
  · rintro ⟨hfind, r, s', hrun, hans, -⟩
    exact ⟨hfind, r, s', hrun, hans⟩
  · rintro ⟨hfind, r, s', hrun, hans⟩
    exact ⟨hfind, r, s', hrun, hans, (hsame.mostRecent_of_answers hans).trans hfind.symm⟩

/-- Two modules, the second inside the first. -/
def outerModule : Module := .newAnon 0x1000 0x5000

def innerModule : Module := .newAnon 0x2000 0x3000

def nested : List ModuleOp := [.addModule outerModule, .addModule innerModule]

def nestedMappings : ExportMappingLookup :=
  ({} : ExportMappingLookup).mappingsMut fun _ => [⟨1, 0x1000, 0x5000⟩, ⟨2, 0x2000, 0x3000⟩]

theorem reachable_nestedMappings : lookupSystem.Reachable nestedMappings :=
  (System.reachable_init (S := lookupSystem) rfl).next (.mappingsMut fun _ => _) rfl

theorem sameHistory_nested : SameHistory (added nested) nestedMappings.mappings where
  ranges := by decide
  ordered := by decide
  timed := by decide
  ranged := by
    unfold Ranged
    decide

/-- Inside the inner module both lookups find it. -/
theorem find_mostRecent_nested :
    (Process.after nested).sort.findModule 0x2800 = mostRecent (added nested) 0x2800 ∧
      FindsSame .inOrder nestedMappings (added nested) 0x2800
        ((Process.after nested).sort.findModule 0x2800) := by
  refine (find_mostRecent_iff nested reachable_nestedMappings sameHistory_nested .inOrder
    0x2800).mpr ⟨fun module hmodule => ?_, Or.inl (by decide)⟩
  have hinner : NewestWith (fun m : Module => m.contains 0x2800 = true) (added nested)
      (some innerModule) := ⟨[outerModule], [], rfl, by decide, by simp⟩
  rw [hmodule.unique hinner]
  exact ⟨[outerModule], [], rfl, by decide, by decide, by simp⟩

/-- Past the end of the inner module `find` misses the outer one. -/
theorem find_misses_outer_module :
    ¬ ∀ (ops : List ModuleOp) (ip : Nat),
      (Process.after ops).sort.findModule ip = mostRecent (added ops) ip := by
  intro h
  have hfore := (Process.findModule_eq_mostRecent_iff nested 0x4000).mp (h nested 0x4000)
  have houter : NewestWith (fun m : Module => m.contains 0x4000 = true) (added nested)
      (some outerModule) := ⟨[], [innerModule], rfl, by decide, by decide⟩
  have hinner : NewestBelow Module.start 0x4000 (added nested) (some innerModule) :=
    ⟨[outerModule], [], rfl, by decide, by decide, by simp⟩
  exact absurd ((hfore _ houter).unique hinner) (by decide)

end OneCollect.Exporting
