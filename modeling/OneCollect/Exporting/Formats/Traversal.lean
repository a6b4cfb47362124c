import OneCollect.Exporting.GraphTimes

/-! The loops of the graph exporters over the nodes of a graph.

Each puts the root on a stack and takes nodes off it until it is empty. The nodes come in one
order (`visited`), each once, so that a loop is a fold over them (`popLoop_foldl`), and what it
writes is put together from what it writes for each node (`popLoop_flatMap`). -/

namespace OneCollect.Exporting.NodeGraph
open Theory

/-- The nodes with a value, in some order: the targets from the root down to each, and the value. -/
def weighted (self : NodeGraph) (order : List Nat) : List (List Target × Nat) :=
  (order.filter fun id => self.exclusiveOf id > 0).map fun id => (self.path id, self.exclusiveOf id)

/-- **The pairs of a graph**, of which a file holds each as often as it is there. -/
def weightedPaths (self : NodeGraph) : List (List Target × Nat) :=
  self.weighted (List.range self.nodes.length)

/-- The nodes in the order of the loops. -/
def visited (self : NodeGraph) : List Nat :=
  (visits self.childrenOf self.nodes.length [0]).getD []

/-- The nodes with a value, and those below the root. -/
def valued (self : NodeGraph) : List Nat := self.visited.filter fun id => self.exclusiveOf id > 0

def located (self : NodeGraph) : List Nat := self.visited.filter fun id => id ≠ 0

variable {g : NodeGraph}

theorem childrenAt_eq : childrenAt g.nodes (·.childIds) = g.childrenOf := by
  funext id
  unfold childrenAt childrenOf nodeAt
  cases g.nodes[id]? <;> rfl

theorem Grown.visits_eq (h : g.Grown) :
    visits (childrenAt g.nodes (·.childIds)) g.nodes.length [0] = some g.visited := by
  obtain ⟨order, hvisits, -⟩ := h.rooted.visits_perm
  rw [childrenAt_eq, visited, hvisits]
  rfl

theorem Grown.visited_perm (h : g.Grown) : g.visited.Perm (List.range g.nodes.length) := by
  obtain ⟨order, hvisits, hperm⟩ := h.rooted.visits_perm
  rwa [visited, hvisits]

theorem Grown.mem_visited (h : g.Grown) {id : Nat} : id ∈ g.visited ↔ id < g.nodes.length := by
  rw [h.visited_perm.mem_iff, List.mem_range]

theorem Grown.visited_nodup (h : g.Grown) : g.visited.Nodup :=
  h.visited_perm.nodup_iff.mpr List.nodup_range

theorem Grown.mem_valued (h : g.Grown) {id : Nat} :
    id ∈ g.valued ↔ id < g.nodes.length ∧ 0 < g.exclusiveOf id := by
  rw [valued, List.mem_filter, h.mem_visited, decide_eq_true_iff]

theorem Grown.mem_located (h : g.Grown) {id : Nat} :
    id ∈ g.located ↔ id < g.nodes.length ∧ id ≠ 0 := by
  rw [located, List.mem_filter, h.mem_visited, decide_eq_true_iff]

theorem Grown.located_nodup (h : g.Grown) : g.located.Nodup := h.visited_nodup.filter _

theorem Grown.weighted_visited (h : g.Grown) : (g.weighted g.visited).Perm g.weightedPaths :=
  (h.visited_perm.filter _).map _

/-- **A loop over the nodes** is a fold. -/
theorem Grown.popLoop_foldl (h : g.Grown) {σ : Type} {body : σ → Nat → Node → Exec σ}
    {f : σ → Nat → σ} (hbody : ∀ id < g.nodes.length, ∀ s, body s id (g.nodeAt id) = .ok (f s id))
    (s : σ) :
    popLoop g.nodes (·.childIds) body g.nodes.length [0] s = .ok (g.visited.foldl f s) := by
  have hlt : ∀ id ∈ g.visited, id < g.nodes.length := fun id hid => h.mem_visited.mp hid
  rw [popLoop_eq h.visits_eq hlt]
  generalize g.visited = order at hlt ⊢
  induction order generalizing s with
  | nil => rfl
  | cons id order ih =>
    obtain ⟨hid, hlt⟩ := List.forall_mem_cons.mp hlt
    rw [List.foldlM_cons, List.foldl_cons, getAt_eq_ok.mpr (getElem?_eq_nodeAt hid), ok_bind,
      hbody id hid, ok_bind]
    exact ih _ hlt

/-- A loop that writes something for some of the nodes. -/
theorem Grown.popLoop_flatMap (h : g.Grown) {β : Type} {body : List β → Nat → Node → Exec (List β)}
    (chosen : Nat → Bool) (part : Nat → List β)
    (hbody : ∀ id < g.nodes.length, ∀ out,
      body out id (g.nodeAt id) = .ok (if chosen id then out ++ part id else out)) :
    popLoop g.nodes (·.childIds) body g.nodes.length [0] [] =
      .ok ((g.visited.filter chosen).flatMap part) := by
  rw [h.popLoop_foldl hbody]
  have hfold (order : List Nat) (out : List β) :
      order.foldl (fun out id => if chosen id then out ++ part id else out) out =
        out ++ (order.filter chosen).flatMap part := by
    induction order generalizing out with
    | nil => exact (List.append_nil out).symm
    | cons id order ih =>
      rw [List.foldl_cons, ih, List.filter_cons]
      split
      · rw [List.flatMap_cons, List.append_assoc]
      · rfl
  rw [hfold, List.nil_append]

end OneCollect.Exporting.NodeGraph
