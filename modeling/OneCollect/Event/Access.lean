import OneCollect.Event.Position

/-! Access to a field by its reference, and by its closure.

Both end in the same slicing. The closure looks up the size of an element where a length-prefixed
array has no size; the direct access then counts bytes. `direct_agrees_iff` says for which fields
and data this makes no difference. -/

namespace OneCollect.EventFormat
open Theory

/-- `get_data_with_offset`, for a reference that is the index of a field. -/
def getDataWithOffset (self : EventFormat) (fieldRef : Nat) (data : List UInt8) (offset : Nat) :
    List UInt8 :=
  match self.fields[fieldRef]? with
  | none => []
  | some field => getDataWithOffsetDirect field.size field.location (field.offset + offset) data

/-- `get_data`. -/
def getDataAt (self : EventFormat) (fieldRef : Nat) (data : List UInt8) : List UInt8 :=
  self.getDataWithOffset fieldRef data 0

/-- The length of a field is in the data. -/
def Dynamic (field : EventField) : Prop :=
  field.size = 0 ∧ field.location ∈ [.staticString, .staticUTF16String, .staticLenPrefixArray]

instance (field : EventField) : Decidable (Dynamic field) := inferInstanceAs (Decidable (_ ∧ _))

/-- The count in front of an array, and whether as many bytes follow. -/
def countAt (offset : Nat) (data : List UInt8) : Nat := fromLe ((data.drop offset).take 2)

/-- The field is an array of wider elements without a size, and its count is taken for a number of
bytes that are there. -/
def CountsBytes (field : EventField) (data : List UInt8) : Prop :=
  (field.size = 0 ∧ field.location = .staticLenPrefixArray ∧
    tryGetElementSize field.typeName ≠ some 1) ∧
  0 < countAt field.offset data ∧
  field.offset + 2 + countAt field.offset data ≤ data.length

instance (field : EventField) (data : List UInt8) : Decidable (CountsBytes field data) :=
  inferInstanceAs (Decidable (_ ∧ _))

section Agree

variable {field : EventField} {data : List UInt8}

/-- The fields in front leave no skips, when none of them is dynamic. -/
theorem passed_no_skips {before : List EventField} (h : ∀ other ∈ before, ¬ Dynamic other)
    {start : Nat} {passed : Nat × List FieldSkip}
    (hpassed : before.foldlM passField (start, []) = some passed) : passed.2 = [] := by
  induction before generalizing start with
  | nil =>
    cases hpassed
    rfl
  | cons other before ih =>
    obtain ⟨hother, h⟩ := List.forall_mem_cons.mp h
    rw [List.foldlM_cons] at hpassed
    obtain ⟨next, hnext, hpassed⟩ := Option.bind_eq_some_iff.mp hpassed
    by_cases hsize : other.size = 0
    · unfold passField at hnext
      dsimp only at hnext
      rw [if_neg (not_not_intro hsize)] at hnext
      have hlocation : other.location ∉
          [LocationType.staticString, .staticUTF16String, .staticLenPrefixArray] :=
        fun hmem => hother ⟨hsize, hmem⟩
      cases hloc : other.location <;> simp [hloc] at hnext hlocation
    · unfold passField at hnext
      dsimp only at hnext
      rw [if_pos hsize] at hnext
      cases hnext
      exact ih h hpassed

theorem closureBehind_direct {before : List EventField} (h : ∀ other ∈ before, ¬ Dynamic other)
    {closure : List UInt8 → List UInt8} (hclosure : closureBehind before field = some closure) :
    ∃ size, closureSize field = some size ∧
      closure = getDataWithOffsetDirect size field.location field.offset := by
  obtain ⟨⟨offset, skips⟩, hpassed, hfield⟩ := Option.bind_eq_some_iff.mp hclosure
  obtain rfl : skips = [] := passed_no_skips h hpassed
  obtain ⟨size, hsize, hfield⟩ := Option.bind_eq_some_iff.mp hfield
  cases hfield
  exact ⟨size, hsize, rfl⟩

/-- An array of elements of a size. -/
theorem array_eq (size offset : Nat) (data : List UInt8) :
    getDataWithOffsetDirect size .staticLenPrefixArray offset data =
      if offset + 2 + countAt offset data * (if size = 0 then 1 else size) ≤ data.length then
        (data.drop (offset + 2)).take (countAt offset data * if size = 0 then 1 else size)
      else [] := by
  unfold getDataWithOffsetDirect countAt
  dsimp only
  rw [List.drop_drop, List.length_drop]
  by_cases hoffset : offset > data.length
  · rw [if_pos hoffset, if_neg (by omega)]
  · rw [if_neg hoffset]
    by_cases hprefix : data.length - offset < 2
    · rw [if_pos hprefix, if_neg (by omega)]
    · rw [if_neg hprefix]
      split_ifs
      all_goals first | rfl | omega

theorem array_length {size offset : Nat} (h : offset + 2 + countAt offset data * size ≤ data.length) :
    ((data.drop (offset + 2)).take (countAt offset data * size)).length =
      countAt offset data * size := by
  rw [List.length_take, List.length_drop]
  omega

/-- Elements of one byte and wider ones. -/
theorem array_agrees_iff {size offset : Nat} (hsize : 0 < size) :
    getDataWithOffsetDirect 0 .staticLenPrefixArray offset data =
        getDataWithOffsetDirect size .staticLenPrefixArray offset data ↔
      ¬ (size ≠ 1 ∧ 0 < countAt offset data ∧ offset + 2 + countAt offset data ≤ data.length) := by
  rw [array_eq, array_eq, if_pos rfl, if_neg (Nat.ne_of_gt hsize), Nat.mul_one]
  by_cases hone : size = 1
  · subst hone
    simp
  · have htwo : 2 ≤ size := by omega
    have hmul : countAt offset data * 2 ≤ countAt offset data * size :=
      Nat.mul_le_mul_left _ htwo
    by_cases hbytes : offset + 2 + countAt offset data ≤ data.length
    · have hlength : ((data.drop (offset + 2)).take (countAt offset data)).length =
          countAt offset data := by
        rw [List.length_take, List.length_drop]
        omega
      rw [if_pos hbytes]
      by_cases hzero : countAt offset data = 0
      · simp [hzero]
      · refine iff_of_false (fun heq => ?_) (not_not_intro ⟨hone, Nat.pos_of_ne_zero hzero, hbytes⟩)
        have hlen := congrArg List.length heq
        rw [hlength] at hlen
        split_ifs at hlen with hall
        · rw [array_length hall] at hlen
          omega
        · exact hzero hlen
    · rw [if_neg hbytes, if_neg (by omega)]
      exact iff_of_true rfl fun h => hbytes h.2.2

/-- **Direct and closure access** agree unless a count is taken for a number of bytes. -/
theorem direct_agrees_iff {self : EventFormat} {before after : List EventField}
    (hfields : self.fields = before ++ field :: after)
    (hname : ∀ other ∈ before, other.name ≠ field.name)
    (hbefore : ∀ other ∈ before, ¬ Dynamic other) {closure : List UInt8 → List UInt8}
    (hclosure : self.tryGetFieldDataClosure field.name = some closure) (data : List UInt8) :
    self.getDataAt before.length data = closure data ↔ ¬ CountsBytes field data := by
  rw [tryGetFieldDataClosure_eq hfields hname] at hclosure
  obtain ⟨size, hsize, rfl⟩ := closureBehind_direct hbefore hclosure
  have hget : self.getDataAt before.length data =
      getDataWithOffsetDirect field.size field.location field.offset data := by
    unfold getDataAt getDataWithOffset
    rw [hfields, List.getElem?_append_right (le_refl _), Nat.sub_self, List.getElem?_cons_zero]
    rfl
  rw [hget]
  unfold closureSize at hsize
  split_ifs at hsize with harray
  · obtain ⟨hzero, hlocation⟩ := harray
    rw [hzero, hlocation, array_agrees_iff (tryGetElementSize_pos hsize), CountsBytes, hsize]
    simp [hzero, hlocation]
  · cases hsize
    exact iff_of_true rfl fun hcounts => harray ⟨hcounts.1.1, hcounts.1.2.1⟩

end Agree

def wordArray : EventField :=
  { name := "ids", typeName := "u32", location := .staticLenPrefixArray, offset := 0, size := 0 }

theorem direct_agrees_wordArray :
    ∃ closure, (⟨[wordArray]⟩ : EventFormat).tryGetFieldDataClosure "ids" = some closure ∧
      ((⟨[wordArray]⟩ : EventFormat).getDataAt 0 [0, 0] = closure [0, 0] ↔
        ¬ CountsBytes wordArray [0, 0]) := by
  have hfields : (⟨[wordArray]⟩ : EventFormat).fields = [] ++ wordArray :: [] := rfl
  obtain ⟨closure, hclosure⟩ : ∃ closure,
    (⟨[wordArray]⟩ : EventFormat).tryGetFieldDataClosure wordArray.name = some closure := ⟨_, rfl⟩
  exact ⟨closure, hclosure, direct_agrees_iff hfields (fun _ h => absurd h List.not_mem_nil)
    (fun _ h => absurd h List.not_mem_nil) hclosure [0, 0]⟩

/-- Of one word the direct access gives the first byte. -/
theorem direct_not_agrees :
    ¬ ∀ (self : EventFormat) (before after : List EventField) (field : EventField)
      (closure : List UInt8 → List UInt8) (data : List UInt8),
      self.fields = before ++ field :: after →
      (∀ other ∈ before ++ after, other.name ≠ field.name) →
      (∀ other ∈ before, ¬ Dynamic other) →
      self.tryGetFieldDataClosure field.name = some closure →
      self.getDataAt before.length data = closure data := by
  intro h
  obtain ⟨closure, hclosure, hdata⟩ : ∃ closure,
      (⟨[wordArray]⟩ : EventFormat).tryGetFieldDataClosure wordArray.name = some closure ∧
        closure [1, 0, 7, 0, 0, 0] = [7, 0, 0, 0] := ⟨_, rfl, by decide⟩
  have heq := h ⟨[wordArray]⟩ [] [] wordArray closure [1, 0, 7, 0, 0, 0] rfl
    (fun _ h => absurd h List.not_mem_nil) (fun _ h => absurd h List.not_mem_nil) hclosure
  rw [hdata] at heq
  exact absurd heq (by decide)

end OneCollect.EventFormat
