import Mathlib.Algebra.BigOperators.Group.Finset.Piecewise
import OneCollect.Exporting.GraphSamples

/-! Whether the totals of a graph add up.

Below the root they always do. The root is charged twice for a sample whose call stack is empty
and already in the cache: `charge` begins at the parent of its node, which for the root is the root
itself (`totals_conserved_iff`). -/

namespace OneCollect.Theory.Rooted

variable {n : Nat} {parent : Nat → Nat} {children : Nat → List Nat}

/-- On the way from a node up to the root each node has one child. -/
theorem sum_children_lineage (h : Rooted n parent children) {id i : Nat} (hid : id < n)
    (hi : i < n) (value : Nat) :
    (∑ c ∈ (children i).toFinset, if c ∈ lineage parent id then value else 0) =
      if (i = 0 ∨ i ∈ lineage parent id) ∧ i ≠ id then value else 0 := by
  induction id using Nat.strongRecOn with
  | ind id ih =>
    by_cases hpos : 0 < id
    · have hlt := h.parent_lt id hpos hid
      have hnot : id ∉ lineage parent (parent id) := fun hmem =>
        absurd (h.lineage_mem (hlt.trans hid) hmem).2 (Nat.not_le_of_lt hlt)
      have hmem : ∀ c, c ∈ lineage parent id ↔ c = id ∨ c ∈ lineage parent (parent id) := by
        intro c
        rw [h.lineage_of_pos hpos hid, List.mem_cons]
      have hsplit : ∀ c, (if c ∈ lineage parent id then value else 0) =
          (if c = id then value else 0) + if c ∈ lineage parent (parent id) then value else 0 := by
        intro c
        rw [if_congr (hmem c) rfl rfl]
        by_cases hc : c = id
        · subst hc
          simp [hnot]
        · simp [hc]
      have hchild : id ∈ (children i).toFinset ↔ i = parent id := by
        rw [List.mem_toFinset, h.mem_children i id hi]
        exact ⟨fun hall => hall.2.2.symm, fun heq => ⟨hpos, hid, heq.symm⟩⟩
      rw [Finset.sum_congr rfl fun c _ => hsplit c, Finset.sum_add_distrib, Finset.sum_ite_eq',
        ih _ hlt (hlt.trans hid), if_congr hchild rfl rfl,
        if_congr (and_congr_left' (or_congr_right (hmem i))) rfl rfl]
      by_cases hparent : i = parent id
      · subst hparent
        have hup : parent id = 0 ∨ parent id = id ∨ parent id ∈ lineage parent (parent id) := by
          by_cases hzero : 0 < parent id
          · refine Or.inr (Or.inr ?_)
            rw [h.lineage_of_pos hzero (hlt.trans hid)]
            exact List.mem_cons_self
          · exact Or.inl (Nat.eq_zero_of_not_pos hzero)
        rw [if_pos rfl, if_neg (fun hand => hand.2 rfl), if_pos ⟨hup, hlt.ne⟩, Nat.add_zero]
      · rw [if_neg hparent, Nat.zero_add]
        refine if_congr ?_ rfl rfl
        constructor
        · rintro ⟨hup, -⟩
          refine ⟨hup.imp_right Or.inr, ?_⟩
          rintro rfl
          rcases hup with hzero | hmem
          · exact Nat.ne_of_gt hpos hzero
          · exact hnot hmem
        · rintro ⟨hup, hne⟩
          refine ⟨hup.imp_right fun hor => hor.resolve_left hne, hparent⟩
    · obtain rfl : id = 0 := Nat.eq_zero_of_not_pos hpos
      rw [lineage_zero]
      simp

end OneCollect.Theory.Rooted

namespace OneCollect.Exporting
open Theory NodeGraph

/-! ## The property -/

def NodeGraph.childTotals (g : NodeGraph) (id : Nat) : Nat :=
  ((g.childrenOf id).map g.totalOf).sum

/-- Every total is the exclusive value and the totals of the children, and the root has all that
was added. -/
structure NodeGraph.Conserved (g : NodeGraph) (added : Nat) : Prop where
  nodes : ∀ id < g.nodes.length, g.totalOf id = g.exclusiveOf id + g.childTotals id
  root : g.totalOf 0 = added

namespace AddSamples

/-- The value that a sample is converted to. -/
def valueOf (self : AddSamples) (sample : ExportProcessSample) : Nat :=
  match self.convert sample.value with
  | .ok value => value
  | .error _ => 0

/-- The values of all samples that a call adds. -/
def addedValue (self : AddSamples) : Nat := (self.wanted.map self.valueOf).sum

/-- Of the samples with one empty call stack only the first has a value. -/
def OnceEmpty (self : AddSamples) : Prop :=
  self.wanted.Pairwise fun a b =>
    a.callstackId = b.callstackId → self.frames a.callstackId = [] → self.valueOf b = 0

instance (self : AddSamples) : Decidable self.OnceEmpty :=
  inferInstanceAs (Decidable (List.Pairwise _ _))

/-- The values of the samples that repeat an empty call stack. -/
def repeatedValue (self : AddSamples) (done : List ExportProcessSample) :
    List ExportProcessSample → Nat
  | [] => 0
  | sample :: samples =>
    (if Repeats self done sample.callstackId then self.valueOf sample else 0) +
      repeatedValue self (done ++ [sample]) samples

variable {call : AddSamples}

theorem valueOf_eq {sample : ExportProcessSample} {value : Nat}
    (h : call.convert sample.value = .ok value) : call.valueOf sample = value := by
  rw [valueOf, h]

theorem repeatedValue_concat (done samples : List ExportProcessSample)
    (sample : ExportProcessSample) :
    call.repeatedValue done (samples ++ [sample]) = call.repeatedValue done samples +
      if Repeats call (done ++ samples) sample.callstackId then call.valueOf sample else 0 := by
  induction samples generalizing done with
  | nil => simp [repeatedValue]
  | cons first samples ih =>
    rw [List.cons_append, repeatedValue, ih, repeatedValue, List.append_assoc, List.singleton_append,
      Nat.add_assoc]

theorem repeatedValue_le (done samples : List ExportProcessSample) :
    call.repeatedValue done samples ≤ (samples.map call.valueOf).sum := by
  induction samples generalizing done with
  | nil => exact le_refl _
  | cons sample samples ih =>
    have hrest := ih (done ++ [sample])
    rw [repeatedValue, List.map_cons, List.sum_cons]
    split
    · omega
    · omega

theorem repeats_concat (done : List ExportProcessSample) (sample : ExportProcessSample)
    (callstackId : Nat) :
    Repeats call (done ++ [sample]) callstackId ↔
      Repeats call done callstackId ∨
        sample.callstackId = callstackId ∧ call.frames callstackId = [] := by
  unfold Repeats
  rw [firstWith_concat, Option.isSome_or, Bool.or_eq_true]
  by_cases heq : sample.callstackId = callstackId
  · simp [heq]
    tauto
  · simp [heq]

theorem repeatedValue_eq_zero (done samples : List ExportProcessSample) :
    call.repeatedValue done samples = 0 ↔
      (∀ sample ∈ samples, Repeats call done sample.callstackId → call.valueOf sample = 0) ∧
        samples.Pairwise fun a b =>
          a.callstackId = b.callstackId → call.frames a.callstackId = [] → call.valueOf b = 0 := by
  induction samples generalizing done with
  | nil => simp [repeatedValue]
  | cons sample samples ih =>
    have hsplit : (∀ s ∈ samples, Repeats call (done ++ [sample]) s.callstackId →
        call.valueOf s = 0) ↔ (∀ s ∈ samples, Repeats call done s.callstackId →
          call.valueOf s = 0) ∧ ∀ s ∈ samples, sample.callstackId = s.callstackId →
            call.frames sample.callstackId = [] → call.valueOf s = 0 := by
      constructor
      · intro h
        refine ⟨fun s hs hrep => h s hs ((repeats_concat _ _ _).mpr (Or.inl hrep)),
          fun s hs heq hempty => h s hs ((repeats_concat _ _ _).mpr (Or.inr ⟨heq, heq ▸ hempty⟩))⟩
      · rintro ⟨hold, hnew⟩ s hs hrep
        rcases (repeats_concat _ _ _).mp hrep with hrep | ⟨heq, hempty⟩
        · exact hold s hs hrep
        · exact hnew s hs heq (heq ▸ hempty)
    rw [repeatedValue, Nat.add_eq_zero_iff, ite_eq_right_iff, ih, hsplit, List.forall_mem_cons,
      List.pairwise_cons]
    tauto

theorem onceEmpty_iff : call.OnceEmpty ↔ call.repeatedValue [] call.wanted = 0 := by
  have hnone : ∀ sample ∈ call.wanted, Repeats call [] sample.callstackId →
      call.valueOf sample = 0 := fun sample _ hrep => absurd hrep.2 (by simp [firstWith])
  rw [repeatedValue_eq_zero]
  exact ⟨fun h => ⟨hnone, h⟩, fun h => h.2⟩

end AddSamples

/-! ## One sample -/

section Steps

variable {g after : NodeGraph}

theorem childTotals_eq (h : g.Grown) {id : Nat} (hid : id < g.nodes.length) :
    g.childTotals id = ∑ c ∈ (g.childrenOf id).toFinset, g.totalOf c :=
  (List.sum_toFinset _ (h.rooted.nodup id hid)).symm

theorem totalOf_of_le {id : Nat} (h : g.nodes.length ≤ id) : g.totalOf id = 0 := by
  rw [totalOf, nodeAt_of_le h]

theorem exclusiveOf_of_le {id : Nat} (h : g.nodes.length ≤ id) : g.exclusiveOf id = 0 := by
  rw [exclusiveOf, nodeAt_of_le h]

theorem childTotals_of_le {id : Nat} (h : g.nodes.length ≤ id) : g.childTotals id = 0 := by
  rw [childTotals, childrenOf, nodeAt_of_le h]
  rfl

/-- New children had no total before. -/
theorem sum_later_children (h : g.Grown) (hafter : after.Grown) (hlater : Later g after) {id : Nat}
    (hid : id < after.nodes.length) :
    ∑ c ∈ (after.childrenOf id).toFinset, g.totalOf c = g.childTotals id := by
  have hmem : ∀ c, c ∈ (after.childrenOf id).toFinset ↔
      0 < c ∧ c < after.nodes.length ∧ after.parentOf c = id := fun c => by
    rw [List.mem_toFinset]
    exact hafter.rooted.mem_children id c hid
  by_cases hold : id < g.nodes.length
  · rw [childTotals_eq h hold]
    refine (Finset.sum_subset (fun c hc => ?_) fun c hc hnot => ?_).symm
    · obtain ⟨hpos, hlt, hparent⟩ :=
        (h.rooted.mem_children id c hold).mp (List.mem_toFinset.mp hc)
      exact (hmem c).mpr ⟨hpos, hlt.trans_le hlater.length_le,
        (hlater.parent c hlt).trans hparent⟩
    · obtain ⟨hpos, hlt, hparent⟩ := (hmem c).mp hc
      refine totalOf_of_le (Nat.le_of_not_lt fun hlt' => hnot ?_)
      rw [List.mem_toFinset]
      exact (h.rooted.mem_children id c hold).mpr
        ⟨hpos, hlt', (hlater.parent c hlt').symm.trans hparent⟩
  · rw [childTotals_of_le (Nat.le_of_not_lt hold)]
    refine Finset.sum_eq_zero fun c hc => ?_
    obtain ⟨hpos, hlt, hparent⟩ := (hmem c).mp hc
    refine totalOf_of_le (Nat.le_of_not_lt fun hlt' => ?_)
    have hup := h.rooted.parent_lt c hpos hlt'
    rw [← hlater.parent c hlt', hparent] at hup
    omega

/-- The totals add up for a graph that got the values `sum`; the root has `excess` more. -/
structure Balanced (g : NodeGraph) (sum excess : Nat) : Prop where
  grown : g.Grown
  inner : ∀ id, 0 < id → g.totalOf id = g.exclusiveOf id + g.childTotals id
  le : ∀ id, 0 < id → g.totalOf id ≤ sum ∧ g.exclusiveOf id ≤ sum
  children : g.childTotals 0 = sum
  root : g.totalOf 0 = (sum + excess) % 2 ^ 64

variable {checks : OverflowChecks} {call : AddSamples} {done : List ExportProcessSample}
  {sample : ExportProcessSample} {sum excess id value : Nat}

/-- While the sum fits in a word, a sample adds its value exactly. -/
theorem SampleAdded.total_eq (hadded : SampleAdded checks call done sample g after id value)
    (h : Balanced g sum excess) (hfits : sum + value < 2 ^ 64) {i : Nat} (hi : 0 < i) :
    after.totalOf i = g.totalOf i + only (after.OnPath id) value i := by
  have hle := (h.le i hi).1
  have hnot : ¬ (i = 0 ∧ Repeats call done sample.callstackId) := fun hzero => by omega
  have honly : only (after.OnPath id) value i ≤ value := by
    unfold only
    split
    · exact le_refl _
    · exact Nat.zero_le _
  rw [hadded.total, only, only, if_neg hnot, Nat.add_zero]
  exact Nat.mod_eq_of_lt (by unfold only at honly; omega)

theorem SampleAdded.childTotals_eq (hadded : SampleAdded checks call done sample g after id value)
    (h : Balanced g sum excess) (hfits : sum + value < 2 ^ 64) (hafter : after.Grown) {i : Nat}
    (hi : i < after.nodes.length) :
    after.childTotals i =
      g.childTotals i + if after.OnPath id i ∧ i ≠ id then value else 0 := by
  have hchild : ∀ c ∈ (after.childrenOf i).toFinset,
      after.totalOf c = g.totalOf c + if c ∈ after.lineageOf id then value else 0 := by
    intro c hc
    have hpos := ((hafter.rooted.mem_children i c hi).mp (List.mem_toFinset.mp hc)).1
    rw [hadded.total_eq h hfits hpos, only]
    exact congrArg (g.totalOf c + ·)
      (if_congr (or_iff_right (Nat.ne_of_gt hpos)) rfl rfl)
  rw [Exporting.childTotals_eq hafter hi, Finset.sum_congr rfl hchild, Finset.sum_add_distrib,
    sum_later_children h.grown hafter hadded.later hi]
  exact congrArg (g.childTotals i + ·) (hafter.rooted.sum_children_lineage hadded.lt hi value)

theorem Balanced.addSample (h : Balanced g sum excess)
    (hadded : SampleAdded checks call done sample g after id value) (hafter : after.Grown)
    (hfits : sum + value < 2 ^ 64) :
    Balanced after (sum + value)
      (excess + if Repeats call done sample.callstackId then value else 0) := by
  have hexclusive : ∀ i, 0 < i →
      after.exclusiveOf i = g.exclusiveOf i + if i = id then value else 0 := by
    intro i hi
    have hle := (h.le i hi).2
    rw [hadded.exclusive, only]
    refine Nat.mod_eq_of_lt ?_
    split
    · omega
    · omega
  have htotal := fun i (hi : 0 < i) => hadded.total_eq h hfits hi
  refine ⟨hafter, fun i hi => ?_, fun i hi => ?_, ?_, ?_⟩
  · by_cases hlt : i < after.nodes.length
    · have hself : after.OnPath id id := (hafter.onPath_iff hadded.lt id).mpr (Or.inr rfl)
      rw [htotal i hi, hexclusive i hi, hadded.childTotals_eq h hfits hafter hlt, h.inner i hi,
        only]
      by_cases heq : i = id
      · subst heq
        simp only [hself, ne_eq, not_true_eq_false, and_false, ↓reduceIte]
        omega
      · simp only [heq, ne_eq, not_false_eq_true, and_true, ↓reduceIte]
        omega
    · have hle := Nat.le_of_not_lt hlt
      rw [totalOf_of_le hle, exclusiveOf_of_le hle, childTotals_of_le hle]
  · have hle := h.le i hi
    rw [htotal i hi, hexclusive i hi, only]
    constructor
    · split
      · omega
      · omega
    · split
      · omega
      · omega
  · have honPath : after.OnPath id 0 ∧ 0 ≠ id := ⟨Or.inl rfl, Nat.ne_of_lt hadded.pos⟩
    rw [hadded.childTotals_eq h hfits hafter hafter.rooted.pos, if_pos honPath, h.children]
  · have honPath : after.OnPath id 0 := Or.inl rfl
    have hsum : sum + excess + (value + if Repeats call done sample.callstackId then value else 0) =
        sum + value + (excess + if Repeats call done sample.callstackId then value else 0) := by
      omega
    rw [hadded.total, h.root, only, only, if_pos honPath, Nat.mod_add_mod]
    simp only [true_and]
    rw [hsum]

end Steps

/-! ## Runs -/

section Runs

variable {checks : OverflowChecks} {g after : NodeGraph} {sum excess : Nat}

theorem balanced_new : Balanced .new 0 0 where
  grown := grown_new
  inner := fun id hid => by
    have hle : NodeGraph.new.nodes.length ≤ id := hid
    rw [totalOf_of_le hle, exclusiveOf_of_le hle, childTotals_of_le hle]
  le := fun id hid => by
    have hle : NodeGraph.new.nodes.length ≤ id := hid
    rw [totalOf_of_le hle, exclusiveOf_of_le hle]
    exact ⟨le_refl 0, le_refl 0⟩
  children := rfl
  root := rfl

theorem Balanced.addSamples {call : AddSamples} (h : Balanced g sum excess)
    (hrun : g.addSamples checks call = .ok after) (hfits : sum + call.addedValue < 2 ^ 64) :
    Balanced after (sum + call.addedValue) (excess + call.repeatedValue [] call.wanted) := by
  obtain ⟨ids, himport⟩ := addSamples_eq_ok.mp hrun
  have hall := of_importSamples
    (P := fun done _ state => sum + (done.map call.valueOf).sum < 2 ^ 64 →
      Balanced state.graph (sum + (done.map call.valueOf).sum)
        (excess + call.repeatedValue [] done)) ?_ h.grown (fun _ => h) himport
  · obtain ⟨-, state, rfl, hbalanced⟩ := hall
    exact hbalanced hfits
  · intro done ids state sample hbalanced _ id value after hcached hadded hfits
    have hvalue := AddSamples.valueOf_eq hadded.value_eq
    rw [List.map_append, List.sum_append, List.map_singleton, List.sum_singleton, hvalue,
      ← Nat.add_assoc] at hfits ⊢
    rw [AddSamples.repeatedValue_concat, List.nil_append, hvalue, ← Nat.add_assoc]
    exact (hbalanced (by omega)).addSample hadded hcached.grown hfits

theorem Balanced.addCalls (calls : List AddSamples) (h : Balanced g sum excess)
    (hrun : addCalls checks calls g = .ok after)
    (hfits : sum + (calls.map (·.addedValue)).sum < 2 ^ 64) :
    Balanced after (sum + (calls.map (·.addedValue)).sum)
      (excess + (calls.map fun call => call.repeatedValue [] call.wanted).sum) := by
  induction calls generalizing g sum excess with
  | nil =>
    cases hrun
    exact h
  | cons call calls ih =>
    rw [Exporting.addCalls, List.foldlM_cons, bind_eq_ok] at hrun
    obtain ⟨middle, hfirst, hrest⟩ := hrun
    rw [List.map_cons, List.sum_cons, ← Nat.add_assoc] at hfits ⊢
    rw [List.map_cons, List.sum_cons, ← Nat.add_assoc]
    exact ih (h.addSamples hfirst (by omega)) hrest hfits

theorem Balanced.conserved_iff_excess (h : Balanced g sum excess) (hfits : sum < 2 ^ 64)
    (hexcess : excess ≤ sum) : g.Conserved sum ↔ excess = 0 := by
  have hroot : (sum + excess) % 2 ^ 64 = sum ↔ excess = 0 := by omega
  constructor
  · intro hconserved
    exact hroot.mp (h.root.symm.trans hconserved.root)
  · rintro rfl
    have htotal : g.totalOf 0 = sum := h.root.trans (Nat.mod_eq_of_lt hfits)
    refine ⟨fun id _ => ?_, htotal⟩
    by_cases hid : 0 < id
    · exact h.inner id hid
    · obtain rfl : id = 0 := Nat.eq_zero_of_not_pos hid
      rw [htotal, h.grown.rootExclusive, h.children, Nat.zero_add]

theorem repeatedValues_le (calls : List AddSamples) :
    (calls.map fun call => call.repeatedValue [] call.wanted).sum ≤
      (calls.map (·.addedValue)).sum :=
  List.sum_le_sum fun call _ => call.repeatedValue_le [] call.wanted

/-- **Conservation.** The totals of a graph add up, and the root has the sum of all values, exactly
when no call gets a second value for one empty call stack. -/
theorem totals_conserved_iff {calls : List AddSamples}
    (hrun : addCalls checks calls .new = .ok g)
    (hfits : (calls.map (·.addedValue)).sum < 2 ^ 64) :
    g.Conserved (calls.map (·.addedValue)).sum ↔ ∀ call ∈ calls, call.OnceEmpty := by
  have hbalanced := balanced_new.addCalls calls hrun (by rwa [Nat.zero_add])
  rw [Nat.zero_add, Nat.zero_add] at hbalanced
  rw [hbalanced.conserved_iff_excess hfits (repeatedValues_le calls), List.sum_eq_zero_iff,
    List.forall_mem_map]
  exact forall₂_congr fun call _ => call.onceEmpty_iff.symm

end Runs

/-- Two samples without frames, one unit each. -/
def frameless : AddSamples where
  hashOrder := ⟨fun _ set => set, fun _ _ => .refl _⟩
  exporter := { callstacks := ⟨[[]]⟩, procs := [], nodup := List.nodup_nil }
  process := { pid := 1, samples := [{ time := 1, value := .count 1, ip := 16 },
    { time := 2, value := .count 1, ip := 16 }] }
  kind := 0

/-- The same samples with a frame. -/
def framed : AddSamples :=
  { frameless with exporter := { callstacks := ⟨[[32]]⟩, procs := [], nodup := List.nodup_nil } }

theorem totals_conserved_framed :
    ∃ g, addCalls .on [framed] .new = .ok g ∧ g.Conserved 2 := by
  obtain ⟨g, hrun⟩ : ∃ g, addCalls .on [framed] .new = .ok g := ⟨_, rfl⟩
  exact ⟨g, hrun, (totals_conserved_iff hrun (by decide)).mpr
    (List.forall_mem_singleton.mpr (by decide))⟩

/-- The root gets three units for the two samples. -/
theorem totals_not_conserved :
    ¬ ∀ (checks : OverflowChecks) (calls : List AddSamples) (g : NodeGraph),
      addCalls checks calls .new = .ok g → (calls.map (·.addedValue)).sum < 2 ^ 64 →
        g.Conserved (calls.map (·.addedValue)).sum := by
  intro h
  obtain ⟨g, hrun, hroot⟩ : ∃ g, addCalls .on [frameless] .new = .ok g ∧ g.totalOf 0 = 3 :=
    ⟨_, rfl, by decide⟩
  have hconserved := (h .on [frameless] g hrun (by decide)).root
  rw [hroot] at hconserved
  exact absurd hconserved (by decide)

end OneCollect.Exporting
