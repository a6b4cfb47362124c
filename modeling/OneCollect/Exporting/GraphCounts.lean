import OneCollect.Exporting.GraphTotals
import OneCollect.Theory.Overwrites

/-! The nodes of the samples that calls of `add_samples` put into a graph.

In a word, a node has the values of its samples, and the root has all values with those of the
samples that repeat an empty call stack (`importCalls_holds`). -/

namespace OneCollect.Exporting
open Theory NodeGraph Overwrites

/-- The nodes of the samples of the calls, in their order. -/
def importCalls (checks : OverflowChecks) : List AddSamples → NodeGraph →
    Exec (List Nat × NodeGraph)
  | [], g => .ok ([], g)
  | call :: calls, g => do
    let (ids, g) ← g.importSamples checks call
    let (rest, g) ← importCalls checks calls g
    .ok (ids ++ rest, g)

/-- The converted values of the samples of the calls. -/
def valuesOf (calls : List AddSamples) : List Nat :=
  calls.flatMap fun call => call.wanted.map call.valueOf

/-- The values of the samples that repeat an empty call stack. -/
def repeatedOf (calls : List AddSamples) : Nat :=
  (calls.map fun call => call.repeatedValue [] call.wanted).sum

/-- A graph `after` has the values in nodes more than `g`, and its root these and those repeated. -/
structure Holds (g after : NodeGraph) (values ids : List Nat) (repeated : Nat) : Prop where
  grown : after.Grown
  length : ids.length = values.length
  exclusive : ∀ id, after.exclusiveOf id = (g.exclusiveOf id + sumAt (values.zip ids) id) % 2 ^ 64
  root : after.totalOf 0 = (g.totalOf 0 + (values.sum + repeated)) % 2 ^ 64

section Calls

variable {checks : OverflowChecks} {call : AddSamples} {g after : NodeGraph} {ids : List Nat}

theorem addCalls_eq_ok {calls : List AddSamples} :
    addCalls checks calls g = .ok after ↔ ∃ ids, importCalls checks calls g = .ok (ids, after) := by
  induction calls generalizing g with
  | nil => simp [addCalls, importCalls]
  | cons call calls ih =>
    have hfold : addCalls checks (call :: calls) g =
        g.addSamples checks call >>= addCalls checks calls := List.foldlM_cons
    rw [hfold, bind_eq_ok]
    constructor
    · rintro ⟨middle, hfirst, hrest⟩
      obtain ⟨ids, himport⟩ := addSamples_eq_ok.mp hfirst
      obtain ⟨rest, hrest⟩ := ih.mp hrest
      refine ⟨ids ++ rest, ?_⟩
      rw [importCalls, himport, ok_bind]
      dsimp only
      rw [hrest]
      rfl
    · rintro ⟨all, himport⟩
      obtain ⟨⟨ids, middle⟩, hfirst, himport⟩ := bind_eq_ok.mp himport
      obtain ⟨⟨rest, last⟩, hrest, himport⟩ := bind_eq_ok.mp himport
      cases himport
      exact ⟨middle, addSamples_eq_ok.mpr ⟨ids, hfirst⟩, ih.mpr ⟨rest, hrest⟩⟩

theorem importSamples_holds (h : g.Grown)
    (hrun : g.importSamples checks call = .ok (ids, after)) :
    Holds g after (call.wanted.map call.valueOf) ids (call.repeatedValue [] call.wanted) := by
  have hall := of_importSamples
    (P := fun done ids state => Holds g state.graph (done.map call.valueOf) ids
      (call.repeatedValue [] done)) ?_ h ?_ hrun
  · obtain ⟨-, state, rfl, hholds⟩ := hall
    exact hholds
  · intro done ids state sample hholds _ id value after hcached hadded
    have hvalue := AddSamples.valueOf_eq hadded.value_eq
    have hzip : (done.map call.valueOf ++ [value]).zip (ids ++ [id]) =
        (done.map call.valueOf).zip ids ++ [(value, id)] := by
      rw [List.zip_append hholds.length.symm]
      rfl
    rw [List.map_append, List.map_singleton, hvalue, AddSamples.repeatedValue_concat,
      List.nil_append, hvalue]
    refine ⟨hcached.grown, by simp [hholds.length], fun i => ?_, ?_⟩
    · have hnil : sumAt [] i = 0 := rfl
      rw [hadded.exclusive, hholds.exclusive, hzip, sumAt_append, sumAt_cons, hnil, Nat.mod_add_mod,
        only, if_congr (eq_comm (a := i)) rfl rfl, Nat.add_zero, Nat.add_assoc]
    · have hpath : after.graph.OnPath id 0 := .inl rfl
      rw [hadded.total, hholds.root, Nat.mod_add_mod, only, only, if_pos hpath, List.sum_append,
        List.sum_singleton]
      simp only [true_and]
      congr 1
      omega
  · refine ⟨h, rfl, fun id => ?_, ?_⟩
    · exact (Nat.mod_eq_of_lt (h.words id).2).symm
    · exact (Nat.mod_eq_of_lt (h.words 0).1).symm

/-- **What nodes hold.** -/
theorem importCalls_holds {calls : List AddSamples} (h : g.Grown)
    (hrun : importCalls checks calls g = .ok (ids, after)) :
    Holds g after (valuesOf calls) ids (repeatedOf calls) := by
  induction calls generalizing g ids with
  | nil =>
    cases hrun
    refine ⟨h, rfl, fun id => ?_, ?_⟩
    · exact (Nat.mod_eq_of_lt (h.words id).2).symm
    · exact (Nat.mod_eq_of_lt (h.words 0).1).symm
  | cons call calls ih =>
    obtain ⟨⟨first, middle⟩, hfirst, hrun⟩ := bind_eq_ok.mp hrun
    obtain ⟨⟨rest, last⟩, hrest, hrun⟩ := bind_eq_ok.mp hrun
    cases hrun
    have hone := importSamples_holds h hfirst
    have hall := ih hone.grown hrest
    have hzip : (valuesOf (call :: calls)).zip (first ++ rest) =
        (call.wanted.map call.valueOf).zip first ++ (valuesOf calls).zip rest :=
      List.zip_append hone.length.symm
    refine ⟨hall.grown, ?_, fun id => ?_, ?_⟩
    · rw [List.length_append, hone.length, hall.length]
      exact (List.length_append).symm
    · rw [hall.exclusive, hone.exclusive, hzip, sumAt_append, Nat.mod_add_mod, Nat.add_assoc]
    · have hsum : (valuesOf (call :: calls)).sum =
          (call.wanted.map call.valueOf).sum + (valuesOf calls).sum := List.sum_append
      have hrepeated : repeatedOf (call :: calls) =
          call.repeatedValue [] call.wanted + repeatedOf calls := rfl
      rw [hall.root, hone.root, Nat.mod_add_mod, hsum, hrepeated]
      congr 1
      omega

end Calls

end OneCollect.Exporting
