import Mathlib.Algebra.Order.BigOperators.Group.List
import OneCollect.Exporting.Formats
import OneCollect.Exporting.GraphPaths
import OneCollect.Exporting.PerfViewExport

/-! What the files for PerfView hold of a machine.

The metrics in the files are the values of the samples, each put into one place, exactly if no two
groups with values have the same files, and nothing wraps around (`perfView_covers_iff`). Different
names have the same files where they differ in colons and slashes, and where one is that of a
process without a name. -/

namespace OneCollect.Exporting

/-! ## Groups -/

/-- The map of groups for the processes so far. -/
structure Split (procs : List ExportProcess) (map : List (Option Nat × List Nat)) : Prop where
  perm : (map.flatMap Prod.snd).Perm (procs.map (·.pid))
  commId : ∀ group ∈ map, ∀ pid ∈ group.2, ∃ process ∈ procs, process.pid = pid ∧
    process.commId = group.1

theorem pushPid_perm (commId : Option Nat) (pid : Nat) (map : List (Option Nat × List Nat)) :
    ((pushPid commId pid map).flatMap Prod.snd).Perm (map.flatMap Prod.snd ++ [pid]) := by
  induction map with
  | nil => exact .refl _
  | cons group map ih =>
    rw [pushPid]
    split
    · simp only [List.flatMap_cons, List.append_assoc]
      exact List.Perm.append_left _ List.perm_append_comm
    · simp only [List.flatMap_cons, List.append_assoc]
      exact List.Perm.append_left _ ih

theorem mem_pushPid {commId : Option Nat} {pid : Nat} {map : List (Option Nat × List Nat)}
    {group : Option Nat × List Nat} (h : group ∈ pushPid commId pid map) {other : Nat}
    (hother : other ∈ group.2) :
    (∃ before ∈ map, before.1 = group.1 ∧ other ∈ before.2) ∨
      group.1 = commId ∧ other = pid := by
  induction map with
  | nil =>
    obtain rfl := List.mem_singleton.mp h
    exact .inr ⟨rfl, List.mem_singleton.mp hother⟩
  | cons first map ih =>
    rw [pushPid] at h
    split at h
    · rename_i hkey
      rcases List.mem_cons.mp h with rfl | h
      · rcases List.mem_append.mp hother with hother | hother
        · exact .inl ⟨first, List.mem_cons_self, rfl, hother⟩
        · exact .inr ⟨hkey, List.mem_singleton.mp hother⟩
      · exact .inl ⟨group, List.mem_cons_of_mem _ h, rfl, hother⟩
    · rcases List.mem_cons.mp h with rfl | h
      · exact .inl ⟨_, List.mem_cons_self, rfl, hother⟩
      · obtain ⟨before, hbefore, hrest⟩ | hnew := ih h
        · exact .inl ⟨before, List.mem_cons_of_mem _ hbefore, hrest⟩
        · exact .inr hnew

theorem Split.push {procs : List ExportProcess} {map : List (Option Nat × List Nat)}
    (h : Split procs map) (process : ExportProcess) :
    Split (procs ++ [process]) (pushPid process.commId process.pid map) where
  perm := by
    rw [List.map_append]
    exact (pushPid_perm _ _ _).trans (h.perm.append_right _)
  commId := fun group hgroup pid hpid => by
    obtain ⟨before, hbefore, hkey, hpid⟩ | ⟨hkey, rfl⟩ := mem_pushPid hgroup hpid
    · obtain ⟨other, hother, hrest⟩ := h.commId before hbefore pid hpid
      exact ⟨other, List.mem_append_left _ hother, hkey ▸ hrest⟩
    · exact ⟨process, List.mem_append_right _ List.mem_cons_self, rfl, hkey.symm⟩

/-- **Groups.** -/
theorem splitProcessesByComm_split (machine : ExportMachine) :
    Split machine.procs machine.splitProcessesByComm := by
  have hfold : ∀ (rest done : List ExportProcess) (map : List (Option Nat × List Nat)),
      Split done map → Split (done ++ rest)
        (rest.foldl (fun map process => pushPid process.commId process.pid map) map) := by
    intro rest
    induction rest with
    | nil =>
      intro done map h
      rwa [List.append_nil]
    | cons process rest ih =>
      intro done map h
      have hrest := ih (done ++ [process]) _ (h.push process)
      rwa [List.append_assoc] at hrest
  exact hfold machine.procs [] [] ⟨.refl _, fun group h => absurd h List.not_mem_nil⟩

namespace PerfView
open Theory NodeGraph Overwrites

section Exports

variable {host : Host} {args : RecordArgs} {machine : ExportContent}

/-- The processes of some pids. -/
def processesOf (machine : ExportContent) (pids : List Nat) : List ExportProcess :=
  pids.filterMap machine.findProcess

/-- The calls of `add_samples` of an export. -/
def Export.calls (host : Host) (machine : ExportContent) (e : Export) : List AddSamples :=
  (processesOf machine e.pids).map fun process =>
    samplesOf host machine process (kindId machine e.kind)

/-- The sum of the converted values of an export. -/
def Export.sum (host : Host) (machine : ExportContent) (e : Export) : Nat :=
  (valuesOf (e.calls host machine)).sum

theorem graphOf_eq_ok {kind : Nat} {pids : List Nat} {graph : NodeGraph}
    (h : graphOf host machine kind pids = .ok graph) :
    addCalls host.checks ((processesOf machine pids).map fun process =>
      samplesOf host machine process kind) .new = .ok graph := by
  have hfold : ∀ (pids : List Nat) (g : NodeGraph), pids.foldlM (fun graph pid => do
      let process ← orPanic (machine.findProcess pid)
      graph.addSamples host.checks (samplesOf host machine process kind)) g = .ok graph →
      addCalls host.checks ((processesOf machine pids).map fun process =>
        samplesOf host machine process kind) g = .ok graph := by
    intro pids
    induction pids with
    | nil => exact fun g h => h
    | cons pid pids ih =>
      intro g h
      rw [List.foldlM_cons, bind_eq_ok] at h
      obtain ⟨middle, hfirst, hrest⟩ := h
      obtain ⟨process, hprocess, hfirst⟩ := bind_eq_ok.mp hfirst
      have hfound := orPanic_eq_ok.mp hprocess
      have hlist : processesOf machine (pid :: pids) = process :: processesOf machine pids := by
        simp [processesOf, hfound]
      rw [hlist, List.map_cons, addCalls, List.foldlM_cons, hfirst, ok_bind]
      exact ih middle hrest
  exact hfold pids .new h

/-! ## Files -/

/-- The metric of a sample in a file. -/
def metricOf (text : List Char) (id : Nat) : Nat :=
  match readDocument text with
  | some document => ((document.samples.filter (·.id = id)).map (·.metric)).sum
  | none => 0

/-- The text of a graph. -/
def textOf (host : Host) (path : List Char) (g : NodeGraph) : List Char :=
  (documentOf (host.frameOrder path) g).text

theorem metricOf_textOf {g : NodeGraph} (h : g.Grown) (path : List Char) (id : Nat) :
    metricOf (textOf host path g) id = g.exclusiveOf id := by
  have hnodup : g.valued.Nodup := h.visited_nodup.filter _
  have hsamples : (documentOf (host.frameOrder path) g).samples = g.valued.map (shownSample g) := rfl
  unfold metricOf textOf
  rw [readDocument_text]
  dsimp only
  rw [hsamples, List.filter_map, List.map_map]
  have hfilter : g.valued.filter ((fun sample : Sample => decide (sample.id = id)) ∘ shownSample g) =
      List.replicate (g.valued.count id) id := List.filter_eq id
  rw [hfilter, List.map_replicate, List.sum_replicate, hnodup.count]
  by_cases hid : id ∈ g.valued
  · simp [hid, shownSample]
  · rw [if_neg hid, zero_nsmul]
    by_contra hne
    refine hid (h.mem_valued.mpr ⟨?_, by omega⟩)
    by_contra hlt
    exact hne (exclusiveOf_of_le (Nat.le_of_not_lt hlt)).symm

/-- An export with the nodes of its samples and its graph. -/
structure Result where
  source : Export
  ids : List Nat
  graph : NodeGraph

/-- The files that are written, with their graphs. -/
def writesOf (args : RecordArgs) (results : List Result) : List (List Char × NodeGraph) :=
  (results.filter fun result => result.graph.totalOf 0 ≠ 0).map fun result =>
    (args.path result.source.name result.source.kind, result.graph)

theorem Export.run_eq_ok {e : Export} {dir after : Directory}
    (h : e.run host args machine dir = .ok after) : ∃ ids graph,
      importCalls host.checks (e.calls host machine) .new = .ok (ids, graph) ∧
        ∀ path, after path =
          ((written (writesOf args [⟨e, ids, graph⟩]) path).map (textOf host path)).or (dir path) := by
  obtain ⟨graph, hgraph, h⟩ := bind_eq_ok.mp h
  obtain ⟨ids, himport⟩ := addCalls_eq_ok.mp (graphOf_eq_ok hgraph)
  have hgrown := (importCalls_holds grown_new himport).grown
  refine ⟨ids, graph, himport, fun path => ?_⟩
  obtain ⟨root, hroot, h⟩ := bind_eq_ok.mp h
  have htotal : graph.totalOf 0 = root.total := by
    rw [totalOf, nodeAt_eq (getAt_eq_ok.mp hroot)]
  unfold writesOf
  split_ifs at h with hzero
  · unfold writeGraph at h
    rw [toPerfViewXml_eq hgrown] at h
    split at h
    · cases h
      by_cases hpath : args.path e.name e.kind = path
      · subst hpath
        simp [htotal, hzero, Directory.put, written, textOf]
      · have hne : ¬ path = args.path e.name e.kind := fun heq => hpath heq.symm
        simp [htotal, hzero, Directory.put, written, hpath, hne]
    · cases h
  · cases h
    have htotal' : graph.totalOf 0 = 0 := by omega
    simp [htotal', written]

/-- The files of a run are those that its exports write. -/
theorem exports_written {exports : List Export} {dir after : Directory}
    (h : exports.foldlM (fun dir e => e.run host args machine dir) dir = .ok after) :
    ∃ results : List Result, results.map (·.source) = exports ∧
      (∀ result ∈ results, importCalls host.checks (result.source.calls host machine) .new =
        .ok (result.ids, result.graph)) ∧
      ∀ path, after path =
        ((written (writesOf args results) path).map (textOf host path)).or (dir path) := by
  induction exports generalizing dir with
  | nil =>
    cases h
    exact ⟨[], rfl, by simp, fun path => by simp [writesOf, written]⟩
  | cons e exports ih =>
    rw [List.foldlM_cons, bind_eq_ok] at h
    obtain ⟨middle, hfirst, hrest⟩ := h
    obtain ⟨ids, graph, himport, hmiddle⟩ := Export.run_eq_ok hfirst
    obtain ⟨results, rfl, hresults, hafter⟩ := ih hrest
    refine ⟨⟨e, ids, graph⟩ :: results, rfl, List.forall_mem_cons.mpr ⟨himport, hresults⟩,
      fun path => ?_⟩
    have hwrites : writesOf args (⟨e, ids, graph⟩ :: results) =
        writesOf args [⟨e, ids, graph⟩] ++ writesOf args results := by
      unfold writesOf
      rw [← List.map_append, ← List.filter_append, List.singleton_append]
    rw [hafter, hmiddle, hwrites, written_append, Option.map_or, Option.or_assoc]

/-- Different groups and kinds have different paths. -/
theorem path_eq_iff {name other : List Char} {kind kind' : SampleKind} :
    args.path name kind = args.path other kind' ↔ name = other ∧ kind = kind' := by
  constructor
  · intro h
    unfold RecordArgs.path at h
    have hfront := List.append_inj_left' h rfl
    have hkind : kind = kind' := by
      have hends : ∀ (front : List Char) (kind : SampleKind),
          (front ++ '.' :: kind.label.toList).getLast? = some (kind.pick 'U' 'h') := by
        intro front kind
        rw [List.getLast?_append]
        cases kind with
        | cpu => rfl
        | cswitch => rfl
      have hlast := congrArg List.getLast? hfront
      rw [hends, hends, Option.some.injEq] at hlast
      cases kind with
      | cpu => cases kind' with
        | cpu => rfl
        | cswitch => exact absurd hlast (by decide)
      | cswitch => cases kind' with
        | cpu => exact absurd hlast (by decide)
        | cswitch => rfl
    subst hkind
    exact ⟨List.append_cancel_left (List.append_inj_left' hfront rfl), rfl⟩
  · rintro ⟨rfl, rfl⟩
    rfl

/-! ## The samples of a machine -/

/-- A sample of a selected kind with its converted value. -/
structure Entry where
  kind : SampleKind
  pid : Nat
  commId : Option Nat
  value : Nat
  deriving DecidableEq, Repr

/-- They may be in one file: of one name, or of one process without a name. -/
def Entry.SameFile (a b : Entry) : Prop :=
  a.kind = b.kind ∧ a.commId = b.commId ∧ (a.commId = none → a.pid = b.pid)

def entriesOf (host : Host) (machine : ExportContent) (kind : SampleKind)
    (process : ExportProcess) : List Entry :=
  let call := samplesOf host machine process (kindId machine kind)
  call.wanted.map fun sample => ⟨kind, process.pid, process.commId, call.valueOf sample⟩

/-- Every sample of a selected kind of every process. -/
def allEntries (host : Host) (args : RecordArgs) (machine : ExportContent) : List Entry :=
  machine.procs.flatMap fun process => args.selected.flatMap fun kind =>
    entriesOf host machine kind process

def Export.entries (host : Host) (machine : ExportContent) (e : Export) : List Entry :=
  (processesOf machine e.pids).flatMap (entriesOf host machine e.kind)

theorem Export.entries_values (e : Export) :
    (e.entries host machine).map (·.value) = valuesOf (e.calls host machine) := by
  unfold Export.entries valuesOf Export.calls
  rw [List.map_flatMap, List.flatMap_map]
  refine List.flatMap_congr fun process _ => ?_
  rw [entriesOf, List.map_map]
  rfl

theorem flatMap_swap {α β γ : Type} (xs : List α) (ys : List β) (f : α → β → List γ) :
    (xs.flatMap fun x => ys.flatMap (f x)).Perm (ys.flatMap fun y => xs.flatMap (f · y)) := by
  induction xs with
  | nil => simp
  | cons x xs ih =>
    simp only [List.flatMap_cons]
    exact (ih.append_left _).trans (List.flatMap_append_perm ys _ _)

theorem filesOf_processes (group : Option Nat × List Nat) :
    ((filesOf machine group).flatMap fun file => processesOf machine file.2) =
      processesOf machine group.2 := by
  unfold filesOf processesOf
  cases group.1 with
  | none =>
    dsimp only
    rw [List.flatMap_map]
    induction group.2 with
    | nil => rfl
    | cons pid pids ih =>
      rw [List.flatMap_cons, ih, ← List.filterMap_append, List.singleton_append]
  | some commId => simp

theorem processesOf_pids :
    processesOf machine (machine.procs.map (·.pid)) = machine.procs := by
  unfold processesOf
  rw [List.filterMap_map]
  refine (List.filterMap_congr fun process hprocess => ?_).trans List.filterMap_some
  exact machine.findProcess_of_mem hprocess

/-- **Each sample is exported once.** -/
theorem entries_perm :
    ((exportsOf host args machine).flatMap (Export.entries host machine)).Perm
      (allEntries host args machine) := by
  have hexports : (exportsOf host args machine).flatMap (Export.entries host machine) =
      ((host.commOrder.iter machine.splitProcessesByComm).flatMap (filesOf machine)).flatMap
        fun file => args.selected.flatMap fun kind =>
          (processesOf machine file.2).flatMap (entriesOf host machine kind) := by
    unfold exportsOf
    rw [List.flatMap_assoc]
    refine List.flatMap_congr fun file _ => ?_
    rw [List.flatMap_map]
    rfl
  have hfiles : ((host.commOrder.iter machine.splitProcessesByComm).flatMap (filesOf machine)).flatMap
      (fun file => processesOf machine file.2) =
        processesOf machine ((host.commOrder.iter machine.splitProcessesByComm).flatMap Prod.snd) := by
    rw [List.flatMap_assoc]
    simp only [filesOf_processes]
    exact (List.filterMap_flatMap).symm
  have hpids : ((host.commOrder.iter machine.splitProcessesByComm).flatMap Prod.snd).Perm
      (machine.procs.map (·.pid)) :=
    ((host.commOrder.perm _).flatMap_right _).trans
      (splitProcessesByComm_split machine.toExportMachine).perm
  have hprocesses := hpids.filterMap machine.findProcess
  rw [hexports]
  refine (List.Perm.flatMap_left _ fun file _ => flatMap_swap _ _ _).trans ?_
  rw [← List.flatMap_assoc, hfiles]
  refine (hprocesses.flatMap_right _).trans (.of_eq ?_)
  exact congrArg (List.flatMap _) processesOf_pids

/-! ## What the files hold -/

/-- Every entry is put into one place of a file, whose metric is the sum of what is put there, and
what is in one file may be there together. -/
def Covers (entries : List Entry) (dir : Directory) : Prop :=
  ∃ placed : List (Entry × List Char × Nat),
    (placed.map Prod.fst).Perm entries ∧
    (∀ slot, amountIn metricOf dir slot =
      sumAt (placed.map fun entry => (entry.1.value, entry.2)) slot) ∧
    ∀ a ∈ placed, ∀ b ∈ placed, a.1.value ≠ 0 → b.1.value ≠ 0 → a.2.1 = b.2.1 → a.1.SameFile b.1

/-- The sum of what the root gets twice. -/
def Export.repeated (host : Host) (machine : ExportContent) (e : Export) : Nat :=
  repeatedOf (e.calls host machine)

/-- No two groups with values have the same name, and no sum wraps around. -/
structure Kept (host : Host) (args : RecordArgs) (machine : ExportContent) : Prop where
  apart : (exportsOf host args machine).Pairwise fun a b => a.kind = b.kind → a.name = b.name →
    a.sum host machine = 0 ∨ b.sum host machine = 0
  counted : ∀ e ∈ exportsOf host args machine,
    e.sum host machine = 0 ∨ (e.sum host machine + e.repeated host machine) % 2 ^ 64 ≠ 0
  fits : ∀ e ∈ exportsOf host args machine, ∀ names,
    sumAt (namedIn host.checks (e.calls host machine)) names < 2 ^ 64

theorem exclusiveOf_new (id : Nat) : new.exclusiveOf id = 0 := by
  by_cases hid : id < new.nodes.length
  · obtain rfl : id = 0 := Nat.lt_one_iff.mp hid
    rfl
  · exact exclusiveOf_of_le (Nat.le_of_not_lt hid)

theorem Export.repeated_le (e : Export) : e.repeated host machine ≤ e.sum host machine := by
  have hvalues : e.sum host machine = ((e.calls host machine).map (·.addedValue)).sum := by
    unfold Export.sum valuesOf
    rw [List.flatMap_def, List.sum_flatten, List.map_map]
    rfl
  rw [hvalues]
  exact repeatedValues_le _

/-- The values of all samples in a graph. -/
def weight (g : NodeGraph) : Nat := ∑ id ∈ Finset.range g.nodes.length, g.exclusiveOf id

theorem sum_exclusiveOf_le (g : NodeGraph) (slots : Finset Nat) :
    ∑ id ∈ slots, g.exclusiveOf id ≤ weight g := by
  refine Finset.sum_le_sum_of_ne_zero fun id _ hne => ?_
  rw [Finset.mem_range]
  by_contra hid
  exact hne (exclusiveOf_of_le (Nat.le_of_not_lt hid))

/-- The graph of an export, by the values of its samples. -/
structure Result.Exports (host : Host) (machine : ExportContent) (r : Result) : Prop where
  holds : Holds .new r.graph (valuesOf (r.source.calls host machine)) r.ids
    (r.source.repeated host machine)
  fits : (∀ id, sumAt ((valuesOf (r.source.calls host machine)).zip r.ids) id < 2 ^ 64) ↔
    ∀ names, sumAt (namedIn host.checks (r.source.calls host machine)) names < 2 ^ 64

theorem Result.exports_of_import {r : Result} (h : importCalls host.checks
    (r.source.calls host machine) .new = .ok (r.ids, r.graph)) : r.Exports host machine :=
  ⟨importCalls_holds grown_new h, importCalls_lt_iff h (Nat.two_pow_pos 64)⟩

section Results

variable {r : Result} (h : r.Exports host machine)

include h

theorem Result.Exports.exclusive (id : Nat) : r.graph.exclusiveOf id =
    sumAt ((valuesOf (r.source.calls host machine)).zip r.ids) id % 2 ^ 64 := by
  rw [h.holds.exclusive, exclusiveOf_new, Nat.zero_add]

theorem Result.Exports.total : r.graph.totalOf 0 =
    (r.source.sum host machine + r.source.repeated host machine) % 2 ^ 64 := by
  have hzero : new.totalOf 0 = 0 := rfl
  rw [h.holds.root, hzero, Nat.zero_add]
  rfl

/-- Without values there is no file. -/
theorem Result.Exports.total_eq_zero (hsum : r.source.sum host machine = 0) :
    r.graph.totalOf 0 = 0 := by
  have hle : r.source.repeated host machine ≤ r.source.sum host machine := r.source.repeated_le
  have hrepeated : r.source.repeated host machine = 0 := by omega
  rw [h.total, hsum, hrepeated]
  rfl

theorem Result.Exports.sumAt_le (id : Nat) :
    sumAt ((valuesOf (r.source.calls host machine)).zip r.ids) id ≤ r.source.sum host machine := by
  have hle := Overwrites.sumAt_le ((valuesOf (r.source.calls host machine)).zip r.ids) id
  rwa [List.map_fst_zip h.holds.length.ge] at hle

theorem Result.Exports.weight_le : weight r.graph ≤ r.source.sum host machine := by
  have hsum := sum_sumAt_le (Finset.range r.graph.nodes.length)
    ((valuesOf (r.source.calls host machine)).zip r.ids)
  rw [List.map_fst_zip h.holds.length.ge] at hsum
  refine le_trans (Finset.sum_le_sum fun id _ => ?_) hsum
  rw [h.exclusive]
  exact Nat.mod_le _ _

/-- A graph that has all values has them without wrapping around. -/
theorem Result.Exports.sumAt_lt (hweight : weight r.graph = r.source.sum host machine) (id : Nat) :
    sumAt ((valuesOf (r.source.calls host machine)).zip r.ids) id < 2 ^ 64 := by
  let slots := insert id r.ids.toFinset
  have hslots : ∀ value ∈ (valuesOf (r.source.calls host machine)).zip r.ids, value.2 ∈ slots :=
    fun value hvalue => Finset.mem_insert_of_mem (List.mem_toFinset.mpr (List.of_mem_zip hvalue).2)
  have hall := sum_sumAt hslots
  rw [List.map_fst_zip h.holds.length.ge] at hall
  have hle : ∀ id ∈ slots, r.graph.exclusiveOf id ≤
      sumAt ((valuesOf (r.source.calls host machine)).zip r.ids) id := fun id _ => by
    rw [h.exclusive]
    exact Nat.mod_le _ _
  have hsame : ∑ id ∈ slots, r.graph.exclusiveOf id =
      ∑ id ∈ slots, sumAt ((valuesOf (r.source.calls host machine)).zip r.ids) id := by
    refine le_antisymm (Finset.sum_le_sum hle) ?_
    rw [hall]
    refine hweight.ge.trans (Finset.sum_le_sum_of_ne_zero fun id _ hne => ?_)
    by_contra hnot
    have hmem : id ∉ ((valuesOf (r.source.calls host machine)).zip r.ids).map Prod.snd := by
      intro hmem
      obtain ⟨value, hvalue, rfl⟩ := List.mem_map.mp hmem
      exact hnot (hslots value hvalue)
    rw [h.exclusive, sumAt_of_notMem hmem] at hne
    exact hne rfl
  have heq := (Finset.sum_eq_sum_iff_of_le hle).mp hsame id (Finset.mem_insert_self _ _)
  rw [← heq]
  exact (h.holds.grown.words id).2

end Results

/-! ## Groups of entries -/

/-- The processes of an export have one name, or it has one process. -/
theorem exports_commId {e : Export} (he : e ∈ exportsOf host args machine) : ∃ commId,
    (∀ pid ∈ e.pids, ∃ process ∈ machine.procs, process.pid = pid ∧ process.commId = commId) ∧
      (commId = none → ∃ pid, e.pids = [pid]) := by
  obtain ⟨file, hfile, he⟩ := List.mem_flatMap.mp he
  obtain ⟨group, hgroup, hfile⟩ := List.mem_flatMap.mp hfile
  obtain ⟨kind, -, rfl⟩ := List.mem_map.mp he
  have hmem := (host.commOrder.perm _).mem_iff.mp hgroup
  have hprocess := (splitProcessesByComm_split machine.toExportMachine).commId group hmem
  refine ⟨group.1, ?_⟩
  dsimp only
  unfold filesOf at hfile
  split at hfile
  · rename_i hnone
    obtain ⟨pid, hpid, rfl⟩ := List.mem_map.mp hfile
    exact ⟨List.forall_mem_singleton.mpr (hprocess pid hpid), fun _ => ⟨pid, rfl⟩⟩
  · rename_i commId hsome
    obtain rfl := List.mem_singleton.mp hfile
    refine ⟨hprocess, fun hnone => ?_⟩
    rw [hsome] at hnone
    cases hnone

theorem Export.mem_entries {e : Export} {entry : Entry} (h : entry ∈ e.entries host machine) :
    entry.kind = e.kind ∧ entry.pid ∈ e.pids ∧
      ∃ process ∈ machine.procs, process.pid = entry.pid ∧ process.commId = entry.commId := by
  obtain ⟨process, hprocess, h⟩ := List.mem_flatMap.mp h
  obtain ⟨pid, hpid, hfind⟩ := List.mem_filterMap.mp hprocess
  obtain ⟨sample, -, rfl⟩ := List.mem_map.mp h
  refine ⟨rfl, ?_, process, List.mem_of_find?_eq_some hfind, rfl, rfl⟩
  exact (machine.findProcess_pid hfind) ▸ hpid

/-- The entries of an export may be in one file. -/
theorem Export.sameFile {e : Export} (he : e ∈ exportsOf host args machine) {a b : Entry}
    (ha : a ∈ e.entries host machine) (hb : b ∈ e.entries host machine) : a.SameFile b := by
  obtain ⟨commId, hprocess, hone⟩ := exports_commId he
  have hcomm : ∀ entry ∈ e.entries host machine, entry.commId = commId := by
    intro entry hentry
    obtain ⟨-, hpid, process, hmem, heq, hcomm⟩ := e.mem_entries hentry
    obtain ⟨other, hother, hotherPid, rfl⟩ := hprocess entry.pid hpid
    have hinj := List.inj_on_of_nodup_map machine.nodup
    rw [← hcomm, hinj hmem hother (heq.trans hotherPid.symm)]
  obtain ⟨hkind, hpid, -⟩ := e.mem_entries ha
  obtain ⟨hkind', hpid', -⟩ := e.mem_entries hb
  refine ⟨hkind.trans hkind'.symm, (hcomm a ha).trans (hcomm b hb).symm, fun hnone => ?_⟩
  obtain ⟨pid, hpids⟩ := hone ((hcomm a ha).symm.trans hnone)
  rw [hpids] at hpid hpid'
  exact (List.mem_singleton.mp hpid).trans (List.mem_singleton.mp hpid').symm

theorem Export.value_le {e : Export} {entry : Entry} (h : entry ∈ e.entries host machine) :
    entry.value ≤ e.sum host machine := by
  rw [Export.sum, ← e.entries_values]
  exact List.single_le_sum (fun _ _ => Nat.zero_le _) _ (List.mem_map.mpr ⟨entry, h, rfl⟩)

/-! ## Runs -/

section Runs

variable {results : List Result} {dir : Directory}
  (hsources : results.map (·.source) = exportsOf host args machine)
  (hexports : ∀ r ∈ results, r.Exports host machine)
  (hdir : ∀ path, dir path = (written (writesOf args results) path).map (textOf host path))

include hexports hdir

theorem amountIn_dir (slot : List Char × Nat) : amountIn metricOf dir slot =
    amountIn exclusiveOf (written (writesOf args results)) slot := by
  unfold amountIn
  rw [hdir]
  cases hwritten : written (writesOf args results) slot.1 with
  | none => rfl
  | some g =>
    obtain ⟨r, hr, heq⟩ := List.mem_map.mp (mem_of_written hwritten)
    obtain rfl : r.graph = g := congrArg Prod.snd heq
    exact metricOf_textOf (hexports r (List.mem_filter.mp hr).1).holds.grown _ _

omit hdir

/-- What is written has values. -/
theorem sum_ne_zero_of_written {r : Result} (hr : r ∈ results) (htotal : r.graph.totalOf 0 ≠ 0) :
    r.source.sum host machine ≠ 0 :=
  fun hzero => htotal ((hexports r hr).total_eq_zero hzero)

omit hexports

theorem sum_written (args : RecordArgs) (results : List Result)
    (f : List Char × NodeGraph → Nat) : ((writesOf args results).map f).sum =
      (results.map fun r => if r.graph.totalOf 0 ≠ 0
        then f (args.path r.source.name r.source.kind, r.graph) else 0).sum := by
  have hsplit := List.sum_map_ite (fun r : Result => r.graph.totalOf 0 ≠ 0)
    (fun r => f (args.path r.source.name r.source.kind, r.graph)) (fun _ => 0) results
  have hwrites : (writesOf args results).map f = (results.filter fun r => r.graph.totalOf 0 ≠ 0).map
      fun r => f (args.path r.source.name r.source.kind, r.graph) := List.map_map
  rw [hsplit, hwrites]
  simp

include hsources

theorem sum_sources : (results.map fun r => r.source.sum host machine).sum =
    ((allEntries host args machine).map (·.value)).sum := by
  have hperm := (@entries_perm host args machine).map Entry.value
  rw [← hperm.sum_eq, ← hsources, List.map_flatMap, List.flatMap_def, List.sum_flatten, List.map_map,
    List.map_map]
  refine congrArg List.sum (List.map_congr_left fun r _ => ?_)
  rw [Function.comp_apply, Function.comp_apply, Export.entries_values]
  rfl

include hexports hdir

/-- Files that cover the entries have all values. -/
theorem kept_of_covers (hcovers : Covers (allEntries host args machine) dir) :
    Kept host args machine := by
  obtain ⟨placed, hperm, hamounts, -⟩ := hcovers
  have hplaced : ((placed.map fun entry => (entry.1.value, entry.2)).map Prod.fst).sum =
      (results.map fun r => r.source.sum host machine).sum := by
    rw [sum_sources hsources, ← (hperm.map Entry.value).sum_eq, List.map_map, List.map_map]
    rfl
  have hkept : ((placed.map fun entry => (entry.1.value, entry.2)).map Prod.fst).sum ≤
      keptWeight weight (writesOf args results) := placed_le sum_exclusiveOf_le fun slot =>
    (amountIn_dir hexports hdir slot).symm.trans (hamounts slot)
  have hle := keptWeight_le weight (writesOf args results)
  have hwritten := sum_written args results fun write => weight write.2
  dsimp only at hwritten
  have hall : ∀ r ∈ results, (if r.graph.totalOf 0 ≠ 0 then weight r.graph else 0) ≤
      r.source.sum host machine := by
    intro r hr
    split
    · exact (hexports r hr).weight_le
    · exact Nat.zero_le _
  have hsame : ∀ r ∈ results, (if r.graph.totalOf 0 ≠ 0 then weight r.graph else 0) =
      r.source.sum host machine := by
    intro r hr
    by_contra hne
    have hlt := List.sum_lt_sum _ _ hall ⟨r, hr, lt_of_le_of_ne (hall r hr) hne⟩
    omega
  have hsum := List.sum_le_sum hall
  have hapart := keptWeight_eq_iff.mp (le_antisymm hle (by omega))
  have hsource : ∀ e ∈ exportsOf host args machine, ∃ r ∈ results, r.source = e := by
    intro e he
    rw [← hsources] at he
    exact List.mem_map.mp he
  refine ⟨?_, fun e he => ?_, fun e he => ?_⟩
  · rw [writesOf, List.pairwise_map, List.pairwise_filter] at hapart
    rw [← hsources, List.pairwise_map]
    refine hapart.imp_of_mem fun {a b} ha hb hpair hkind hname => ?_
    have hfirst := hsame a ha
    have hsecond := hsame b hb
    by_cases htotal : a.graph.totalOf 0 ≠ 0
    · by_cases htotal' : b.graph.totalOf 0 ≠ 0
      · rw [if_pos htotal] at hfirst
        have hpath : args.path a.source.name a.source.kind =
            args.path b.source.name b.source.kind := path_eq_iff.mpr ⟨hname, hkind⟩
        exact .inl (hfirst ▸ hpair (decide_eq_true htotal) (decide_eq_true htotal') hpath)
      · exact .inr (hsecond.symm.trans (if_neg htotal'))
    · exact .inl (hfirst.symm.trans (if_neg htotal))
  · obtain ⟨r, hr, rfl⟩ := hsource e he
    by_cases htotal : r.graph.totalOf 0 ≠ 0
    · exact .inr ((hexports r hr).total ▸ htotal)
    · exact .inl ((hsame r hr).symm.trans (if_neg htotal))
  · obtain ⟨r, hr, rfl⟩ := hsource e he
    rw [← (hexports r hr).fits]
    intro id
    by_cases htotal : r.graph.totalOf 0 ≠ 0
    · exact (hexports r hr).sumAt_lt ((if_pos htotal).symm.trans (hsame r hr)) id
    · have hzero := (hsame r hr).symm.trans (if_neg htotal)
      have hid := (hexports r hr).sumAt_le id
      omega

/-- The entries at their places. -/
def placedOf (host : Host) (args : RecordArgs) (machine : ExportContent) (results : List Result) :
    List (Entry × List Char × Nat) :=
  results.flatMap fun r => (r.source.entries host machine).zip
    (r.ids.map fun id => (args.path r.source.name r.source.kind, id))

theorem covers_of_kept (hkept : Kept host args machine) :
    Covers (allEntries host args machine) dir := by
  have hsource : ∀ r ∈ results, r.source ∈ exportsOf host args machine := fun r hr =>
    hsources ▸ List.mem_map_of_mem hr
  have hlength : ∀ r ∈ results, (r.source.entries host machine).length = r.ids.length := by
    intro r hr
    rw [(hexports r hr).holds.length, ← Export.entries_values, List.length_map]
  -- What is not written has no values, and what is written has no sum that wraps around.
  have hamount : ∀ r ∈ results, ∀ id,
      (if r.graph.totalOf 0 ≠ 0 then r.graph.exclusiveOf id else 0) =
        sumAt ((valuesOf (r.source.calls host machine)).zip r.ids) id := by
    intro r hr id
    have hexport := hexports r hr
    by_cases htotal : r.graph.totalOf 0 ≠ 0
    · have hlt := hexport.fits.mpr (hkept.fits r.source (hsource r hr)) id
      rw [if_pos htotal, hexport.exclusive, Nat.mod_eq_of_lt hlt]
    · have hle := hexport.sumAt_le id
      rw [hexport.total] at htotal
      have hsum := (hkept.counted r.source (hsource r hr)).resolve_right htotal
      rw [if_neg (hexport.total ▸ htotal)]
      omega
  have hwrites : (writesOf args results).Pairwise fun a b => a.1 ≠ b.1 := by
    have happart := hkept.apart
    rw [← hsources, List.pairwise_map] at happart
    rw [writesOf, List.pairwise_map, List.pairwise_filter]
    refine happart.imp_of_mem fun {a b} ha hb hpair htotal htotal' hpath => ?_
    obtain ⟨hname, hkind⟩ := path_eq_iff.mp hpath
    rcases hpair hkind hname with hzero | hzero
    · exact sum_ne_zero_of_written hexports ha (of_decide_eq_true htotal) hzero
    · exact sum_ne_zero_of_written hexports hb (of_decide_eq_true htotal') hzero
  refine ⟨placedOf host args machine results, ?_, fun slot => ?_,
    fun a ha b hb hvalue hvalue' hpath => ?_⟩
  · have hentries : (placedOf host args machine results).map Prod.fst =
        (exportsOf host args machine).flatMap (Export.entries host machine) := by
      rw [← hsources, placedOf, List.map_flatMap, List.flatMap_map]
      refine List.flatMap_congr fun r hr => List.map_fst_zip ?_
      rw [List.length_map]
      exact (hlength r hr).le
    rw [hentries]
    exact entries_perm
  · have hpieces : (placedOf host args machine results).map (fun entry => (entry.1.value, entry.2)) =
        results.flatMap fun r => ((valuesOf (r.source.calls host machine)).zip r.ids).map fun value =>
          (value.1, args.path r.source.name r.source.kind, value.2) := by
      rw [placedOf, List.map_flatMap]
      refine List.flatMap_congr fun r _ => ?_
      rw [← Export.entries_values, List.zip_map_left, List.zip_map_right, List.map_map, List.map_map]
      rfl
    rw [hpieces, amountIn_dir hexports hdir, amountIn_written hwrites, sum_written, sumAt_flatMap]
    refine congrArg List.sum (List.map_congr_left fun r hr => ?_)
    rw [sumAt_keyed, ← hamount r hr]
    split_ifs
    · rfl
    · rfl
    · rfl
    · rfl
  · obtain ⟨r, hr, ha⟩ := List.mem_flatMap.mp ha
    obtain ⟨r', hr', hb⟩ := List.mem_flatMap.mp hb
    obtain ⟨hentry, hplace⟩ := List.of_mem_zip (a := a.1) (b := a.2) ha
    obtain ⟨hentry', hplace'⟩ := List.of_mem_zip (a := b.1) (b := b.2) hb
    obtain ⟨id, -, hid⟩ := List.mem_map.mp hplace
    obtain ⟨id', -, hid'⟩ := List.mem_map.mp hplace'
    rw [← hid, ← hid'] at hpath
    obtain ⟨hname, hkind⟩ := path_eq_iff.mp hpath
    have hle := Export.value_le hentry
    have hle' := Export.value_le hentry'
    have hsame : r.source = r'.source := by
      by_contra hne
      have hsymm : Std.Symm fun a b : Export => a.kind = b.kind → a.name = b.name →
          a.sum host machine = 0 ∨ b.sum host machine = 0 :=
        ⟨fun a b hpair hkind hname => (hpair hkind.symm hname.symm).symm⟩
      have hzero := hkept.apart.forall (hsource r hr) (hsource r' hr') hne hkind hname
      omega
    exact Export.sameFile (hsource r hr) hentry (hsame ▸ hentry')

end Runs

/-- The graphs of a run with the files that it leaves. -/
theorem run_results {dir : Directory} (hrun : run host args machine = .ok dir) :
    ∃ results : List Result, results.map (·.source) = exportsOf host args machine ∧
      (∀ r ∈ results, r.Exports host machine) ∧
      ∀ path, dir path = (written (writesOf args results) path).map (textOf host path) := by
  obtain ⟨results, hsources, himports, hdir⟩ := exports_written (run_eq_ok.mp hrun).2
  refine ⟨results, hsources, fun r hr => Result.exports_of_import (himports r hr), fun path => ?_⟩
  rw [hdir, Option.or_none]

/-- **The files for PerfView** have the values of all samples exactly if no two groups with values
have one name, and no sum wraps around. -/
theorem perfView_covers_iff {dir : Directory} (hrun : run host args machine = .ok dir) :
    Covers (allEntries host args machine) dir ↔ Kept host args machine := by
  obtain ⟨results, hsources, hexports, hdir⟩ := run_results hrun
  exact ⟨kept_of_covers hsources hexports hdir, covers_of_kept hsources hexports hdir⟩

theorem fits_of_sum {e : Export} (h : e.sum host machine < 2 ^ 64) (names : Exec (List FrameNames)) :
    sumAt (namedIn host.checks (e.calls host machine)) names < 2 ^ 64 := by
  have hle := sumAt_le (namedIn host.checks (e.calls host machine)) names
  rw [namedIn_values] at hle
  exact hle.trans_lt h

end Exports

/-- A system where hash maps are iterated in order and every file can be created. -/
def inOrder : Host where
  checks := .on
  hashOrder := ⟨fun _ set => set, fun _ => List.Perm.refl⟩
  commOrder := ⟨fun groups => groups, List.Perm.refl⟩
  frameOrder := fun _ => asListed
  milliseconds := fun ticks => ticks
  creates := fun _ => true

def onCpuOnly : RecordArgs := ⟨true, false, "out".toList⟩

/-- Two processes of these names with a sample each. -/
def twoNames (first second : String) : ExportContent where
  kinds := ["cpu"]
  strings := ⟨[first, second]⟩
  callstacks := ⟨[[]]⟩
  procs := [{ pid := 1, commId := some 0, samples := [{ time := 1, value := .count 1, ip := 16 }] },
    { pid := 2, commId := some 1, samples := [{ time := 2, value := .count 1, ip := 16 }] }]

theorem perfView_covers_two : ∃ dir, run inOrder onCpuOnly (twoNames "a" "b") = .ok dir ∧
    Covers (allEntries inOrder onCpuOnly (twoNames "a" "b")) dir := by
  obtain ⟨dir, hrun⟩ : ∃ dir, run inOrder onCpuOnly (twoNames "a" "b") = .ok dir :=
    exists_eq_ok (by decide +kernel)
  have hsums : ∀ e ∈ exportsOf inOrder onCpuOnly (twoNames "a" "b"),
      e.sum inOrder (twoNames "a" "b") < 2 ^ 64 := by decide +kernel
  exact ⟨dir, hrun, (perfView_covers_iff hrun).mpr
    ⟨by decide +kernel, by decide +kernel, fun e he => fits_of_sum (hsums e he)⟩⟩

/-- The file of the second group is written over that of the first. -/
theorem perfView_not_covers :
    ¬ ∀ (host : Host) (args : RecordArgs) (machine : ExportContent) (dir : Directory),
      run host args machine = .ok dir → Covers (allEntries host args machine) dir := by
  intro h
  obtain ⟨dir, hrun⟩ : ∃ dir, run inOrder onCpuOnly (twoNames "a:b" "a_b") = .ok dir :=
    exists_eq_ok (by decide +kernel)
  obtain ⟨results, hsources, hexports, hdir⟩ := run_results hrun
  have hkept := kept_of_covers hsources hexports hdir (h _ _ _ _ hrun)
  exact absurd hkept.apart (by decide +kernel)

end PerfView

end OneCollect.Exporting
