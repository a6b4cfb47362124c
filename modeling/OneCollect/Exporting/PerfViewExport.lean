import OneCollect.Exporting.Formats.PerfViewXml
import OneCollect.Exporting.GraphCounts

/-! The export of a machine to files for PerfView: `PerfViewExporter` of the recording tool, and
`split_processes_by_comm`.

Processes are put together by the id of their name, and each group gets a file for each selected
kind, under its name without colons and slashes; a process without a name is a group of its own. A
run is its exports one after another (`run_eq_ok`). -/

namespace OneCollect.Exporting

/-! ## Groups -/

/-- An entry of the map of groups, which may be there. -/
def pushPid (commId : Option Nat) (pid : Nat) :
    List (Option Nat × List Nat) → List (Option Nat × List Nat)
  | [] => [(commId, [pid])]
  | (key, pids) :: map =>
    if key = commId then (key, pids ++ [pid]) :: map else (key, pids) :: pushPid commId pid map

def ExportMachine.splitProcessesByComm (self : ExportMachine) : List (Option Nat × List Nat) :=
  self.procs.foldl (fun map process => pushPid process.commId process.pid map) []

/-- The number of a kind is kept in 16 bits. -/
def ExportContent.findSampleKind (self : ExportContent) (targetKind : String) : Option Nat :=
  (self.kinds.findIdx? (· = targetKind)).map (· % 2 ^ 16)

namespace PerfView
open Theory NodeGraph

/-! ## The exporter -/

inductive SampleKind where
  | cpu
  | cswitch
  deriving DecidableEq, Repr

namespace SampleKind

def name : SampleKind → String
  | cpu => "cpu"
  | cswitch => "cswitch"

/-- The kind in the name of a file, and in an error. -/
def label : SampleKind → String
  | cpu => "CPU"
  | cswitch => "CSwitch"

/-- What is there for one kind and for the other. -/
def pick {α : Type} : SampleKind → α → α → α
  | cpu, first, _ => first
  | cswitch, _, second => second

end SampleKind

/-- What the exporter reads of the arguments. -/
structure RecordArgs where
  onCpu : Bool
  offCpu : Bool
  outputPath : List Char

/-- The kinds to export, in the order of their files. -/
def RecordArgs.selected (args : RecordArgs) : List SampleKind :=
  (if args.onCpu then [.cpu] else []) ++ (if args.offCpu then [.cswitch] else [])

/-- The file of a group. -/
def RecordArgs.path (args : RecordArgs) (name : List Char) (kind : SampleKind) : List Char :=
  args.outputPath ++ "/t.".toList ++ name ++ '.' :: kind.label.toList ++ ".PerfView.xml".toList

/-- The order in which the `HashMap` of groups is iterated: any permutation of its entries. -/
structure CommOrder where
  iter : List (Option Nat × List Nat) → List (Option Nat × List Nat)
  perm : ∀ groups, (iter groups).Perm groups

/-- What an export depends on besides its machine: how hash maps are iterated, the conversion of
ticks to milliseconds in floating point, and the paths at which a file can be created. -/
structure Host where
  checks : OverflowChecks
  hashOrder : HashOrder
  minLookup : Nat := 16
  commOrder : CommOrder
  frameOrder : List Char → FrameOrder
  milliseconds : Nat → Nat
  creates : List Char → Bool

/-- The files by their paths. -/
abbrev Directory := List Char → Option (List Char)

/-- A file, written over the one that is there. -/
def Directory.put (self : Directory) (path text : List Char) : Directory :=
  fun other => if other = path then some text else self other

section Export

variable (host : Host) (args : RecordArgs) (machine : ExportContent)

def convert (machine : ExportContent) (value : MetricValue) : Exec Nat :=
  match value with
  | .count count => .ok count
  | .duration qpcTime => .ok (host.milliseconds qpcTime)
  | .bytes bytes => .ok bytes
  | .span _ =>
    match machine.spanFromValue value with
    | some span => do
      let qpcTime ← host.checks.subU64 span.endTime span.startTime
      .ok (host.milliseconds qpcTime)
    | none => .ok 0

/-- The call of `add_samples` for a process. -/
def samplesOf (process : ExportProcess) (kind : Nat) : AddSamples where
  hashOrder := host.hashOrder
  minLookup := host.minLookup
  exporter := machine
  process := process
  kind := kind
  valueConverter := some (convert host)

/-- The graph of some processes. -/
def graphOf (kind : Nat) (pids : List Nat) : Exec NodeGraph :=
  pids.foldlM (fun graph pid => do
    let process ← orPanic (machine.findProcess pid)
    graph.addSamples host.checks (samplesOf host machine process kind)) .new

/-- `to_perf_view_xml` of a path; what cannot be written panics. -/
def writeGraph (dir : Directory) (path : List Char) (graph : NodeGraph) : Exec Directory :=
  if host.creates path then
    match toPerfViewXml (host.frameOrder path) graph with
    | .ok text => .ok (dir.put path text)
    | .error _ => panicked
  else panicked

def exportPids (kind : Nat) (path : List Char) (pids : List Nat) (dir : Directory) :
    Exec Directory := do
  let graph ← graphOf host machine kind pids
  let root ← getAt graph.nodes 0
  if root.total ≠ 0 then writeGraph host dir path graph else .ok dir

/-- A kind that is not selected need not be known. -/
def sampleKindOf (wanted : Bool) (kind : SampleKind) : Exec Nat :=
  match machine.findSampleKind kind.name with
  | some id => .ok id
  | none => if wanted then fail (kind.label ++ " sample kind should be known.") else .ok 0

/-- The files of a group, one for each selected kind. -/
def exportGroup (kindOf : SampleKind → Nat) (name : List Char) (pids : List Nat) (dir : Directory) :
    Exec Directory :=
  args.selected.foldlM (fun dir kind =>
    exportPids host machine (kindOf kind) (args.path name kind) pids dir) dir

def unknownName (pid : Nat) : List Char := "Unknown.".toList ++ toDecimal pid

/-- The name of a group in that of its files. -/
def commName (commId : Nat) : List Char :=
  match machine.strings.fromId commId with
  | some comm =>
    if ':' ∈ comm.toList ∨ '/' ∈ comm.toList then
      Markup.replaceChar '/' ['_'] (Markup.replaceChar ':' ['_'] comm.toList)
    else comm.toList
  | none => "Unknown".toList

def exportComm (kindOf : SampleKind → Nat) (group : Option Nat × List Nat) (dir : Directory) :
    Exec Directory :=
  match group.1 with
  | none => group.2.foldlM (fun dir pid =>
      exportGroup host args machine kindOf (unknownName pid) [pid] dir) dir
  | some commId => exportGroup host args machine kindOf (commName machine commId) group.2 dir

/-- The files that a run leaves in an empty directory. -/
def run : Exec Directory := do
  let cpu ← sampleKindOf machine args.onCpu .cpu
  let cswitch ← sampleKindOf machine args.offCpu .cswitch
  (host.commOrder.iter machine.splitProcessesByComm).foldlM
    (fun dir group => exportComm host args machine (·.pick cpu cswitch) group dir) fun _ => none

end Export

/-! ## A run as its exports -/

/-- The files of a group for a kind. -/
structure Export where
  kind : SampleKind
  name : List Char
  pids : List Nat
  deriving DecidableEq, Repr

/-- The number of a kind, 0 where it is not known. -/
def kindId (machine : ExportContent) (kind : SampleKind) : Nat :=
  (machine.findSampleKind kind.name).getD 0

/-- The names of files for a group of the map, each with the processes in it. -/
def filesOf (machine : ExportContent) (group : Option Nat × List Nat) :
    List (List Char × List Nat) :=
  match group.1 with
  | none => group.2.map fun pid => (unknownName pid, [pid])
  | some commId => [(commName machine commId, group.2)]

/-- The exports of a run, in turn. -/
def exportsOf (host : Host) (args : RecordArgs) (machine : ExportContent) : List Export :=
  ((host.commOrder.iter machine.splitProcessesByComm).flatMap (filesOf machine)).flatMap
    fun file => args.selected.map fun kind => ⟨kind, file.1, file.2⟩

/-- An export into a directory. -/
def Export.run (host : Host) (args : RecordArgs) (machine : ExportContent) (e : Export)
    (dir : Directory) : Exec Directory :=
  exportPids host machine (kindId machine e.kind) (args.path e.name e.kind) e.pids dir

/-- Every selected kind is known. -/
def Known (args : RecordArgs) (machine : ExportContent) : Prop :=
  ∀ kind ∈ args.selected, (machine.findSampleKind kind.name).isSome = true

theorem foldlM_flatMap {α β γ : Type} (xs : List α) (f : α → List β) (g : γ → β → Exec γ) (c : γ) :
    (xs.flatMap f).foldlM g c = xs.foldlM (fun c a => (f a).foldlM g c) c := by
  induction xs generalizing c with
  | nil => rfl
  | cons x xs ih =>
    rw [List.flatMap_cons, List.foldlM_append, List.foldlM_cons]
    exact bind_congr fun c => ih c

section Runs

variable {host : Host} {args : RecordArgs} {machine : ExportContent}

theorem exportComm_eq (group : Option Nat × List Nat) (dir : Directory) :
    exportComm host args machine (kindId machine) group dir =
      ((filesOf machine group).flatMap fun file =>
        args.selected.map fun kind => (⟨kind, file.1, file.2⟩ : Export)).foldlM
          (fun dir e => e.run host args machine dir) dir := by
  rw [foldlM_flatMap]
  simp only [List.foldlM_map]
  unfold exportComm filesOf
  cases group.1 with
  | none =>
    dsimp only
    rw [List.foldlM_map]
    rfl
  | some commId =>
    dsimp only
    rw [List.foldlM_cons]
    exact (bind_pure _).symm

theorem sampleKindOf_eq_ok {wanted : Bool} {kind : SampleKind} {id : Nat} :
    sampleKindOf machine wanted kind = .ok id ↔
      (wanted = true → (machine.findSampleKind kind.name).isSome = true) ∧
        id = kindId machine kind := by
  unfold sampleKindOf kindId
  cases machine.findSampleKind kind.name with
  | some id' => simp [eq_comm]
  | none =>
    cases wanted with
    | true => simp [fail]
    | false => simp [eq_comm]

/-- **A run** is its exports, one after another. -/
theorem run_eq_ok {dir : Directory} : run host args machine = .ok dir ↔ Known args machine ∧
    (exportsOf host args machine).foldlM (fun dir e => e.run host args machine dir)
      (fun _ => none) = .ok dir := by
  have hknown : Known args machine ↔
      (args.onCpu = true → (machine.findSampleKind SampleKind.cpu.name).isSome = true) ∧
        (args.offCpu = true → (machine.findSampleKind SampleKind.cswitch.name).isSome = true) := by
    unfold Known RecordArgs.selected
    cases args.onCpu with
    | true => cases args.offCpu with
      | true => simp
      | false => simp
    | false => cases args.offCpu with
      | true => simp
      | false => simp
  have hexports : (exportsOf host args machine).foldlM (fun dir e => e.run host args machine dir)
      (fun _ => none) = (host.commOrder.iter machine.splitProcessesByComm).foldlM
        (fun dir group => exportComm host args machine (kindId machine) group dir)
          (fun _ => none) := by
    unfold exportsOf
    rw [List.flatMap_assoc, foldlM_flatMap]
    simp only [exportComm_eq]
  have hpick : (fun kind : SampleKind =>
      kind.pick (kindId machine .cpu) (kindId machine .cswitch)) = kindId machine := by
    funext kind
    cases kind with
    | cpu => rfl
    | cswitch => rfl
  rw [hexports, hknown, run, bind_eq_ok]
  simp only [bind_eq_ok, sampleKindOf_eq_ok]
  constructor
  · rintro ⟨_, ⟨hcpu, rfl⟩, _, ⟨hcswitch, rfl⟩, hfold⟩
    rw [hpick] at hfold
    exact ⟨⟨hcpu, hcswitch⟩, hfold⟩
  · rintro ⟨⟨hcpu, hcswitch⟩, hfold⟩
    refine ⟨_, ⟨hcpu, rfl⟩, _, ⟨hcswitch, rfl⟩, ?_⟩
    rw [hpick]
    exact hfold

end Runs

end PerfView

end OneCollect.Exporting
