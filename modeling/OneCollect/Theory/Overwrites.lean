import Mathlib.Algebra.BigOperators.Group.Finset.Sigma
import Mathlib.Algebra.BigOperators.Group.Finset.Piecewise
import Mathlib.Algebra.GroupWithZero.Nat
import Mathlib.Algebra.Order.BigOperators.Group.Finset
import Mathlib.Data.Finset.Prod

/-! Files that are written one after another, the later over the earlier under one key.

A file has amounts in slots. If amounts in the files that are left are those of values that were put
into their slots, the values come to no more than the weights of these files (`placed_le`), and
these come to the weights of all files only if no file with a weight was written over
(`keptWeight_eq_iff`). -/

namespace OneCollect.Theory.Overwrites

section Writes

variable {κ ν : Type} [DecidableEq κ]

/-- What the writes leave: the last file under each key. -/
def written : List (κ × ν) → κ → Option ν
  | [] => fun _ => none
  | write :: writes => fun key =>
    (written writes key).or (if write.1 = key then some write.2 else none)

/-- The weights of the files that are left. -/
def keptWeight (weight : ν → Nat) : List (κ × ν) → Nat
  | [] => 0
  | write :: writes =>
    (if write.1 ∈ writes.map Prod.fst then 0 else weight write.2) + keptWeight weight writes

variable {weight : ν → Nat} {writes : List (κ × ν)}

theorem written_cons (write : κ × ν) (writes : List (κ × ν)) (key : κ) :
    written (write :: writes) key =
      (written writes key).or (if write.1 = key then some write.2 else none) := rfl

theorem written_eq_none {key : κ} : written writes key = none ↔ key ∉ writes.map Prod.fst := by
  induction writes with
  | nil => simp [written]
  | cons write writes ih =>
    rw [written_cons, Option.or_eq_none_iff, ih, List.map_cons, List.mem_cons, not_or, and_comm]
    refine and_congr_left fun _ => ?_
    simp [eq_comm]

theorem written_append (writes more : List (κ × ν)) (key : κ) :
    written (writes ++ more) key = (written more key).or (written writes key) := by
  induction writes with
  | nil => simp [written]
  | cons write writes ih => rw [List.cons_append, written_cons, ih, written_cons, Option.or_assoc]

/-- A file that is left was written. -/
theorem mem_of_written {key : κ} {file : ν} (h : written writes key = some file) :
    (key, file) ∈ writes := by
  induction writes with
  | nil => cases h
  | cons write writes ih =>
    rw [written_cons, Option.or_eq_some_iff] at h
    rcases h with h | ⟨-, h⟩
    · exact List.mem_cons_of_mem _ (ih h)
    · split at h
      · rename_i hkey
        cases h
        rw [← hkey]
        exact List.mem_cons_self
      · cases h

theorem keptWeight_le (weight : ν → Nat) (writes : List (κ × ν)) :
    keptWeight weight writes ≤ (writes.map fun write => weight write.2).sum := by
  induction writes with
  | nil => exact le_refl 0
  | cons write writes ih =>
    rw [keptWeight, List.map_cons, List.sum_cons]
    split
    · omega
    · omega

/-- **Nothing is lost** exactly if no file with a weight is written over. -/
theorem keptWeight_eq_iff :
    keptWeight weight writes = (writes.map fun write => weight write.2).sum ↔
      writes.Pairwise fun a b => a.1 = b.1 → weight a.2 = 0 := by
  induction writes with
  | nil => simp [keptWeight]
  | cons write writes ih =>
    have hle := keptWeight_le weight writes
    rw [keptWeight, List.map_cons, List.sum_cons, List.pairwise_cons, ← ih]
    by_cases hmem : write.1 ∈ writes.map Prod.fst
    · obtain ⟨later, hlater, hkey⟩ := List.mem_map.mp hmem
      rw [if_pos hmem]
      constructor
      · intro heq
        exact ⟨fun _ _ _ => by omega, by omega⟩
      · rintro ⟨hzero, heq⟩
        have := hzero later hlater hkey.symm
        omega
    · rw [if_neg hmem]
      constructor
      · intro heq
        refine ⟨fun other hother hkey => ?_, by omega⟩
        exact absurd (List.mem_map.mpr ⟨other, hother, hkey.symm⟩) hmem
      · rintro ⟨-, heq⟩
        omega

end Writes

/-! ## Amounts -/

section Placed

variable {σ : Type} [DecidableEq σ]

/-- The sum of the values in a slot. -/
def sumAt (placed : List (Nat × σ)) (slot : σ) : Nat :=
  ((placed.filter fun value => value.2 = slot).map Prod.fst).sum

theorem sumAt_cons (value : Nat × σ) (placed : List (Nat × σ)) (slot : σ) :
    sumAt (value :: placed) slot = (if value.2 = slot then value.1 else 0) + sumAt placed slot := by
  by_cases hslot : value.2 = slot
  · simp [sumAt, hslot]
  · simp [sumAt, hslot]

theorem sumAt_append (placed more : List (Nat × σ)) (slot : σ) :
    sumAt (placed ++ more) slot = sumAt placed slot + sumAt more slot := by
  simp [sumAt]

/-- Every value is in one slot. -/
theorem sum_sumAt {slots : Finset σ} {placed : List (Nat × σ)}
    (h : ∀ value ∈ placed, value.2 ∈ slots) :
    ∑ slot ∈ slots, sumAt placed slot = (placed.map Prod.fst).sum := by
  induction placed with
  | nil => simp [sumAt]
  | cons value placed ih =>
    obtain ⟨hvalue, hplaced⟩ := List.forall_mem_cons.mp h
    simp only [sumAt_cons]
    rw [Finset.sum_add_distrib, ih hplaced, Finset.sum_ite_eq, if_pos hvalue, List.map_cons,
      List.sum_cons]

theorem sum_sumAt_le (slots : Finset σ) (placed : List (Nat × σ)) :
    ∑ slot ∈ slots, sumAt placed slot ≤ (placed.map Prod.fst).sum := by
  have hall : ∀ value ∈ placed, value.2 ∈ slots ∪ (placed.map Prod.snd).toFinset :=
    fun value hvalue => Finset.mem_union_right _
      (List.mem_toFinset.mpr (List.mem_map.mpr ⟨value, hvalue, rfl⟩))
  rw [← sum_sumAt hall]
  exact Finset.sum_le_sum_of_subset Finset.subset_union_left

theorem sumAt_flatMap {α : Type} (xs : List α) (f : α → List (Nat × σ)) (slot : σ) :
    sumAt (xs.flatMap f) slot = (xs.map fun x => sumAt (f x) slot).sum := by
  induction xs with
  | nil => rfl
  | cons x xs ih => rw [List.flatMap_cons, sumAt_append, ih, List.map_cons, List.sum_cons]

/-- Slots under a key. -/
theorem sumAt_keyed {κ : Type} [DecidableEq κ] (key : κ) (placed : List (Nat × σ))
    (slot : κ × σ) :
    sumAt (placed.map fun value => (value.1, key, value.2)) slot =
      if key = slot.1 then sumAt placed slot.2 else 0 := by
  induction placed with
  | nil => simp [sumAt]
  | cons value placed ih =>
    rw [List.map_cons, sumAt_cons, ih, sumAt_cons]
    by_cases hkey : key = slot.1
    · simp [hkey, Prod.ext_iff]
    · simp [hkey, Prod.ext_iff]

theorem sumAt_le (placed : List (Nat × σ)) (slot : σ) :
    sumAt placed slot ≤ (placed.map Prod.fst).sum :=
  (List.filter_sublist.map Prod.fst).sum_le_sum fun _ _ => Nat.zero_le _

/-- Values in slots that have one name each, in turn. -/
theorem sumAt_zip {τ : Type} [DecidableEq τ] {R : τ → σ → Prop}
    (hR : ∀ t t' slot slot', R t slot → R t' slot' → (t = t' ↔ slot = slot'))
    {named : List (Nat × τ)} {slots : List σ}
    (h : List.Forall₂ (fun value slot => R value.2 slot) named slots) {t : τ} {slot : σ}
    (hslot : R t slot) : sumAt ((named.map Prod.fst).zip slots) slot = sumAt named t := by
  induction h with
  | nil => rfl
  | cons hhead _ ih =>
    rw [List.map_cons, List.zip_cons_cons, sumAt_cons, sumAt_cons, ih,
      if_congr (hR _ _ _ _ hhead hslot).symm rfl rfl]

theorem sumAt_of_notMem {placed : List (Nat × σ)} {slot : σ} (h : slot ∉ placed.map Prod.snd) :
    sumAt placed slot = 0 := by
  induction placed with
  | nil => rfl
  | cons value placed ih =>
    rw [List.map_cons, List.mem_cons, not_or] at h
    rw [sumAt_cons, if_neg (Ne.symm h.1), ih h.2]

/-- No slot has too much exactly if no name has. -/
theorem sumAt_zip_lt_iff {τ : Type} [DecidableEq τ] {R : τ → σ → Prop}
    (hR : ∀ t t' slot slot', R t slot → R t' slot' → (t = t' ↔ slot = slot'))
    {named : List (Nat × τ)} {slots : List σ}
    (h : List.Forall₂ (fun value slot => R value.2 slot) named slots) {bound : Nat}
    (hbound : 0 < bound) :
    (∀ slot, sumAt ((named.map Prod.fst).zip slots) slot < bound) ↔
      ∀ t, sumAt named t < bound := by
  constructor
  · intro hall t
    by_cases hmem : t ∈ named.map Prod.snd
    · obtain ⟨value, hvalue, rfl⟩ := List.mem_map.mp hmem
      obtain ⟨i, hi, rfl⟩ := List.mem_iff_getElem.mp hvalue
      have hrelated := h.get hi (h.length_eq ▸ hi)
      exact lt_of_eq_of_lt (sumAt_zip hR h hrelated).symm (hall _)
    · rw [sumAt_of_notMem hmem]
      exact hbound
  · intro hall slot
    by_cases hmem : slot ∈ slots
    · obtain ⟨i, hi, rfl⟩ := List.mem_iff_getElem.mp hmem
      have hrelated := h.get (h.length_eq.symm ▸ hi) hi
      exact lt_of_eq_of_lt (sumAt_zip hR h hrelated) (hall _)
    · rw [sumAt_of_notMem fun hzip => hmem ?_]
      · exact hbound
      · obtain ⟨value, hvalue, rfl⟩ := List.mem_map.mp hzip
        exact (List.of_mem_zip hvalue).2

end Placed

section Amounts

variable {κ ν ι : Type} [DecidableEq κ]

/-- The amount in a slot of a file that is left. -/
def amountIn (amount : ν → ι → Nat) (files : κ → Option ν) (slot : κ × ι) : Nat :=
  match files slot.1 with
  | some file => amount file slot.2
  | none => 0

variable {amount : ν → ι → Nat} {weight : ν → Nat} {writes : List (κ × ν)}

theorem amountIn_cons (write : κ × ν) (writes : List (κ × ν)) (slot : κ × ι) :
    amountIn amount (written (write :: writes)) slot =
      amountIn amount (written writes) slot +
        if write.1 ∉ writes.map Prod.fst ∧ write.1 = slot.1 then amount write.2 slot.2 else 0 := by
  unfold amountIn
  rw [written_cons]
  cases hrest : written writes slot.1 with
  | some file =>
    have hmem : slot.1 ∈ writes.map Prod.fst := by
      by_contra hnot
      rw [written_eq_none.mpr hnot] at hrest
      cases hrest
    have hnot : ¬ (write.1 ∉ writes.map Prod.fst ∧ write.1 = slot.1) := fun h => h.1 (h.2 ▸ hmem)
    rw [if_neg hnot]
    rfl
  | none =>
    have hmem := written_eq_none.mp hrest
    by_cases hkey : write.1 = slot.1
    · rw [if_pos hkey, if_pos ⟨hkey ▸ hmem, hkey⟩, Nat.zero_add]
      rfl
    · rw [if_neg hkey, if_neg fun h => hkey h.2]
      rfl

/-- Where no two files have one key, every file has its amounts. -/
theorem amountIn_written (hapart : writes.Pairwise fun a b => a.1 ≠ b.1) (slot : κ × ι) :
    amountIn amount (written writes) slot =
      (writes.map fun write => if write.1 = slot.1 then amount write.2 slot.2 else 0).sum := by
  induction writes with
  | nil => rfl
  | cons write writes ih =>
    obtain ⟨hfirst, hrest⟩ := List.pairwise_cons.mp hapart
    have hnot : write.1 ∉ writes.map Prod.fst := by
      intro hmem
      obtain ⟨other, hother, heq⟩ := List.mem_map.mp hmem
      exact hfirst other hother heq.symm
    rw [amountIn_cons, ih hrest, List.map_cons, List.sum_cons, Nat.add_comm]
    simp [hnot]

variable [DecidableEq ι]

/-- The amounts of the files that are left come to no more than their weights. -/
theorem sum_amountIn_le (hweight : ∀ file (slots : Finset ι),
    ∑ slot ∈ slots, amount file slot ≤ weight file) (slots : Finset (κ × ι)) :
    ∑ slot ∈ slots, amountIn amount (written writes) slot ≤ keptWeight weight writes := by
  induction writes with
  | nil => simp [amountIn, written, keptWeight]
  | cons write writes ih =>
    simp only [amountIn_cons]
    rw [Finset.sum_add_distrib, keptWeight, Nat.add_comm]
    refine Nat.add_le_add ?_ ih
    by_cases hmem : write.1 ∈ writes.map Prod.fst
    · simp [hmem]
    · have hinj : Set.InjOn Prod.snd
          (slots.filter fun slot => write.1 = slot.1 : Set (κ × ι)) := by
        intro a ha b hb hab
        have hkeys := (Finset.mem_filter.mp ha).2.symm.trans (Finset.mem_filter.mp hb).2
        exact Prod.ext hkeys hab
      simp only [hmem, not_false_eq_true, true_and, if_false]
      rw [← Finset.sum_filter, ← Finset.sum_image (f := amount write.2) hinj]
      exact hweight _ _

/-- **Values and files.** Values whose sums are the amounts of the files that are left come to no
more than the weights of these files. -/
theorem placed_le (hweight : ∀ file (slots : Finset ι),
    ∑ slot ∈ slots, amount file slot ≤ weight file) {placed : List (Nat × κ × ι)}
    (h : ∀ slot, amountIn amount (written writes) slot = sumAt placed slot) :
    (placed.map Prod.fst).sum ≤ keptWeight weight writes := by
  have hslots : ∀ value ∈ placed, value.2 ∈ (placed.map Prod.snd).toFinset := fun value hvalue =>
    List.mem_toFinset.mpr (List.mem_map.mpr ⟨value, hvalue, rfl⟩)
  rw [← sum_sumAt hslots, ← Finset.sum_congr rfl fun slot _ => h slot]
  exact sum_amountIn_le hweight _

end Amounts

end OneCollect.Theory.Overwrites
