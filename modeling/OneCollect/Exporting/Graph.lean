import OneCollect.Exporting.NetTrace.Writer
import OneCollect.Exporting.PerfMap
import OneCollect.Theory.Rooted

/-! The graph of `graph.rs`: nodes below a root, one for each path of targets that samples have.

`addSamples` puts the samples of a process into it. The nodes stay a tree (`Grown`), and
`yields_addSample` says what one sample does: it adds its value to the exclusive value of its node
and to the totals of the nodes from there up to the root. -/

namespace OneCollect.Exporting
open Theory

structure Node where
  id : Nat := 0
  target : Target := {}
  parentId : Nat := 0
  childIds : List Nat := []
  exclusive : Nat := 0
  total : Nat := 0
  deriving DecidableEq, Repr

/-- A graph with its nodes. The scratch vector `frames` is empty between two samples. -/
structure NodeGraph extends ExportGraph where
  nodes : List Node := []

/-- One call of `add_samples`, with the order of the hash set and the size from which on
`find_mapping` uses its table. -/
structure AddSamples where
  hashOrder : HashOrder
  minLookup : Nat := 16
  exporter : ExportContent
  process : ExportProcess
  kind : Nat
  valueConverter : Option (ExportContent → MetricValue → Exec Nat) := none

namespace AddSamples

/-- The value of a sample: of the converter that is given, or of the default one. -/
def convert (self : AddSamples) (value : MetricValue) : Exec Nat :=
  match self.valueConverter with
  | some converter => converter self.exporter value
  | none => self.exporter.convert value

def findMapping (self : AddSamples) (ip time : Nat) : Exec (Option ProcessMapping) :=
  self.process.findMapping self.hashOrder self.minLookup ip (some time)

/-- The frames of a call stack, the root last; none for an id that is not known. -/
def frames (self : AddSamples) (callstackId : Nat) : List Nat :=
  (self.exporter.callstacks.fromId callstackId).getD []

/-- The samples that a call adds. -/
def wanted (self : AddSamples) : List ExportProcessSample :=
  self.process.samples.filter fun sample => sample.kind = self.kind

end AddSamples

section Build

variable (checks : OverflowChecks)

/-- Calc file address, unless anonymous. -/
def fileAddress (mapping : ProcessMapping) (ip : Nat) : Exec Nat :=
  if mapping.anon then .ok 0
  else if ip > kernelStart then .ok ip
  else do
    let offset ← checks.subU64 ip mapping.start
    checks.addU64 offset mapping.fileOffset

/-- `import_ip` in either build. -/
def ExportGraph.importTarget (self : ExportGraph) (call : AddSamples) (time ip : Nat) :
    Exec (Target × ExportGraph) := do
  match ← call.findMapping ip time with
  | some mapping =>
    let strings := call.exporter.strings
    let name := shortName ((strings.fromId mapping.filenameId).getD unknown)
    let address ← fileAddress checks mapping ip
    let (methodId, self) := self.importMethod strings mapping.symbols ip
    let (nameId, self) := self.toId name
    let (resolvableId, self) := self.importResolvable { nameId }
    .ok (⟨address, resolvableId, methodId⟩, self)
  | none =>
    let (nameId, self) := self.toId unknown
    let (resolvableId, self) := self.importResolvable { nameId }
    .ok (⟨0, resolvableId, 0⟩, self)

namespace NodeGraph

def addNode (self : NodeGraph) (node : Node) : Nat × NodeGraph :=
  let id := self.nodes.length
  (id, { self with nodes := self.nodes ++ [{ node with id }] })

/-- The root node is always there. -/
def new : NodeGraph := (addNode {} {}).2

/-- `strings_mut().to_id`. -/
def stringsToId (self : NodeGraph) (name : String) : Nat × NodeGraph :=
  let (id, tables) := self.toId name
  (id, { self with toExportGraph := tables })

def importIp (self : NodeGraph) (call : AddSamples) (time ip : Nat) :
    Exec (Target × NodeGraph) := do
  let (target, tables) ← self.importTarget checks call time ip
  .ok (target, { self with toExportGraph := tables })

/-- A change of one node. -/
def modifyAt (self : NodeGraph) (id : Nat) (f : Node → Exec Node) : Exec NodeGraph := do
  let node ← getAt self.nodes id
  let node ← f node
  .ok { self with nodes := self.nodes.set id node }

def addTotal (value : Nat) (node : Node) : Exec Node := do
  let total ← checks.addU64 node.total value
  .ok { node with total }

/-- The top frame must add exclusive and total. -/
def addExclusive (value : Nat) (node : Node) : Exec Node := do
  let exclusive ← checks.addU64 node.exclusive value
  let node := { node with exclusive }
  addTotal checks value node

/-- The loop of `charge`; a parent has a smaller id, so `fuel` above the id is enough. -/
def chargeLoop (value : Nat) : (fuel : Nat) → NodeGraph → (id : Nat) → Exec NodeGraph
  | 0, _, _ => panicked
  | fuel + 1, self, id => do
    let self ← self.modifyAt id (addTotal checks value)
    if id = 0 then .ok self
    else do
      let node ← getAt self.nodes id
      chargeLoop value fuel self node.parentId

def charge (self : NodeGraph) (parentId value : Nat) : Exec NodeGraph := do
  let node ← getAt self.nodes parentId
  chargeLoop checks value (node.parentId + 1) self node.parentId

/-- The first child with the target. -/
def findChild (self : NodeGraph) (target : Target) : List Nat → Exec (Option Nat)
  | [] => .ok none
  | childId :: childIds => do
    let node ← getAt self.nodes childId
    if node.target = target then .ok (some childId) else findChild self target childIds

/-- A new child. -/
def addChild (self : NodeGraph) (parentId : Nat) (target : Target) : Exec (Nat × NodeGraph) := do
  let (id, self) := self.addNode { parentId, target }
  let self ← self.modifyAt parentId fun node => .ok { node with childIds := node.childIds ++ [id] }
  .ok (id, self)

def merge (self : NodeGraph) (parentId : Nat) (target : Target) (value : Nat) :
    Exec (Nat × NodeGraph) := do
  let self ← self.modifyAt parentId (addTotal checks value)
  let parent ← getAt self.nodes parentId
  match ← self.findChild target parent.childIds with
  | some childId => .ok (childId, self)
  | none => self.addChild parentId target

/-- The frames of a call stack, merged from the last one popped down. -/
def importFrames (call : AddSamples) (time value : Nat) :
    (ips : List Nat) → (id : Nat) → NodeGraph → Exec (Nat × NodeGraph)
  | [], id, self => .ok (id, self)
  | ip :: ips, id, self => do
    let (target, self) ← self.importIp checks call time ip
    let (id, self) ← self.merge checks id target value
    importFrames call time value ips id self

end NodeGraph

/-- Between two samples: the graph and `callstack_id_to_node`. -/
structure GraphImport where
  graph : NodeGraph
  callstackIdToNode : List (Nat × Nat) := []

namespace GraphImport

/-- Import common frames, if not already. -/
def importCommon (self : GraphImport) (call : AddSamples) (sample : ExportProcessSample)
    (value : Nat) : Exec (Nat × GraphImport) :=
  match self.callstackIdToNode.lookup sample.callstackId with
  | some id => do
    let graph ← self.graph.charge checks id value
    .ok (id, { self with graph })
  | none => do
    let (id, graph) ← NodeGraph.importFrames checks call sample.time value
      (call.frames sample.callstackId).reverse 0 self.graph
    .ok (id, ⟨graph, (sample.callstackId, id) :: self.callstackIdToNode⟩)

/-- A sample of the wanted kind, with the node of its top frame. -/
def addSample (self : GraphImport) (call : AddSamples) (sample : ExportProcessSample) :
    Exec (Nat × GraphImport) := do
  let value ← call.convert sample.value
  let (id, self) ← self.importCommon checks call sample value
  let (target, graph) ← self.graph.importIp checks call sample.time sample.ip
  let (id, graph) ← graph.merge checks id target value
  let graph ← graph.modifyAt id (NodeGraph.addExclusive checks value)
  .ok (id, { self with graph })

/-- The nodes of the samples, in their order. -/
def addAll (call : AddSamples) :
    (samples : List ExportProcessSample) → GraphImport → Exec (List Nat × GraphImport)
  | [], self => .ok ([], self)
  | sample :: samples, self => do
    let (id, self) ← self.addSample checks call sample
    let (ids, self) ← addAll call samples self
    .ok (id :: ids, self)

end GraphImport

/-- `add_samples`, with the node of each sample it adds. -/
def NodeGraph.importSamples (self : NodeGraph) (call : AddSamples) :
    Exec (List Nat × NodeGraph) := do
  let (ids, state) ← GraphImport.addAll checks call call.wanted ⟨self, []⟩
  .ok (ids, state.graph)

def NodeGraph.addSamples (self : NodeGraph) (call : AddSamples) : Exec NodeGraph := do
  let (_, graph) ← self.importSamples checks call
  .ok graph

end Build

end OneCollect.Exporting
