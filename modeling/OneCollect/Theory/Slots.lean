import Mathlib.Data.List.Induction
import Mathlib.Data.List.GetD

/-! Writes into a vector of bytes that grows with zeros on demand. When the writes go to slots that
lie apart, each slot holds what was written to it last, or zeros, and the vector ends with the
highest slot that was written. -/

namespace OneCollect.Theory

/-- The data copied to an offset, behind which the vector grows first if it ends too early. -/
def writeAt (bytes : List UInt8) (offset : Nat) (data : List UInt8) : List UInt8 :=
  let grown :=
    if bytes.length < offset + data.length then
      bytes ++ List.replicate (offset + data.length - bytes.length) 0
    else bytes
  grown.take offset ++ data ++ grown.drop (offset + data.length)

theorem length_writeAt (bytes : List UInt8) (offset : Nat) (data : List UInt8) :
    (writeAt bytes offset data).length = max bytes.length (offset + data.length) := by
  unfold writeAt
  split
  · simp
    omega
  · simp
    omega

/-- A byte behind the end counts as zero. -/
theorem getD_writeAt (bytes : List UInt8) (offset : Nat) (data : List UInt8) (i : Nat) :
    (writeAt bytes offset data).getD i 0 =
      if offset ≤ i ∧ i < offset + data.length then data.getD (i - offset) 0
      else bytes.getD i 0 := by
  have hgrown : ∀ n, (bytes ++ List.replicate n 0).getD i 0 = bytes.getD i 0 := by
    intro n
    simp only [List.getD_eq_getElem?_getD, List.getElem?_append, List.getElem?_replicate]
    grind
  have hcopy : ∀ grown : List UInt8, offset + data.length ≤ grown.length →
      (grown.take offset ++ data ++ grown.drop (offset + data.length)).getD i 0 =
        if offset ≤ i ∧ i < offset + data.length then data.getD (i - offset) 0
        else grown.getD i 0 := by
    intro grown hle
    have htake : (grown.take offset).length = offset := by
      rw [List.length_take]
      omega
    simp only [List.getD_eq_getElem?_getD, List.getElem?_append, List.getElem?_take,
      List.getElem?_drop, List.length_append, htake]
    grind
  unfold writeAt
  dsimp only
  split
  · rename_i hlt
    rw [hcopy _ (by rw [List.length_append, List.length_replicate]; omega), hgrown]
  · exact hcopy _ (by omega)

structure Slot where
  offset : Nat
  size : Nat
  deriving DecidableEq, Repr

namespace Slot

def stop (slot : Slot) : Nat := slot.offset + slot.size

def Apart (s t : Slot) : Prop := s.stop ≤ t.offset ∨ t.stop ≤ s.offset

end Slot

section WriteAll

variable {ι : Type} (slot : ι → Slot)

/-- The writes in turn, each to the slot of its index. -/
def writeAll (writes : List (ι × List UInt8)) : List UInt8 :=
  writes.foldl (fun bytes w => writeAt bytes (slot w.1).offset w.2) []

variable {slot} {writes : List (ι × List UInt8)}

theorem writeAll_concat (w : ι × List UInt8) :
    writeAll slot (writes ++ [w]) = writeAt (writeAll slot writes) (slot w.1).offset w.2 := by
  rw [writeAll, List.foldl_append]
  rfl

theorem length_writeAll_le {n : Nat} (h : ∀ w ∈ writes, (slot w.1).offset + w.2.length ≤ n) :
    (writeAll slot writes).length ≤ n := by
  induction writes using List.reverseRecOn with
  | nil => exact Nat.zero_le n
  | append_singleton writes w ih =>
    rw [writeAll_concat, length_writeAt]
    exact Nat.max_le.mpr ⟨ih fun v hv => h v (List.mem_append_left _ hv), h w (by simp)⟩

theorem le_length_writeAll {w : ι × List UInt8} (h : w ∈ writes) :
    (slot w.1).offset + w.2.length ≤ (writeAll slot writes).length := by
  induction writes using List.reverseRecOn with
  | nil => exact (List.not_mem_nil h).elim
  | append_singleton writes v ih =>
    rw [writeAll_concat, length_writeAt]
    rcases List.mem_append.mp h with h | h
    · exact Nat.le_trans (ih h) (Nat.le_max_left _ _)
    · rw [List.mem_singleton.mp h]
      exact Nat.le_max_right _ _

variable [DecidableEq ι] {i : ι}

/-- What was written to an index last. -/
def lastWrite (i : ι) (writes : List (ι × List UInt8)) : Option (List UInt8) :=
  ((writes.filter (·.1 = i)).getLast?).map (·.2)

theorem lastWrite_concat (w : ι × List UInt8) :
    lastWrite i (writes ++ [w]) = if w.1 = i then some w.2 else lastWrite i writes := by
  unfold lastWrite
  rw [List.filter_append]
  split
  · rename_i h
    simp [h]
  · rename_i h
    simp [h]

theorem mem_of_lastWrite {data : List UInt8} (h : lastWrite i writes = some data) :
    (i, data) ∈ writes := by
  obtain ⟨w, hlast, rfl⟩ := Option.map_eq_some_iff.mp h
  have hmem := List.mem_filter.mp (List.mem_of_getLast? hlast)
  rw [← of_decide_eq_true hmem.2]
  exact hmem.1

/-- A byte of a slot is one of the last write to it, or zero. -/
theorem getD_writeAll (hsize : ∀ w ∈ writes, w.2.length = (slot w.1).size)
    (hapart : ∀ w ∈ writes, w.1 ≠ i → (slot w.1).Apart (slot i)) {k : Nat}
    (hk : k < (slot i).size) :
    (writeAll slot writes).getD ((slot i).offset + k) 0 =
      ((lastWrite i writes).getD []).getD k 0 := by
  induction writes using List.reverseRecOn with
  | nil => rfl
  | append_singleton writes w ih =>
    have hw := hsize w (by simp)
    rw [writeAll_concat, lastWrite_concat, getD_writeAt]
    by_cases hi : w.1 = i
    · subst hi
      rw [if_pos (by omega), if_pos rfl, Nat.add_sub_cancel_left]
      rfl
    · have hwi := hapart w (by simp) hi
      unfold Slot.Apart Slot.stop at hwi
      rw [if_neg (by omega), if_neg hi]
      exact ih (fun v hv => hsize v (List.mem_append_left _ hv))
        fun v hv => hapart v (List.mem_append_left _ hv)

/-- **Slots.** A slot within the vector holds what was written to it last, or zeros. -/
theorem slot_writeAll (hsize : ∀ w ∈ writes, w.2.length = (slot w.1).size)
    (hapart : ∀ w ∈ writes, w.1 ≠ i → (slot w.1).Apart (slot i))
    (hle : (slot i).stop ≤ (writeAll slot writes).length) :
    ((writeAll slot writes).drop (slot i).offset).take (slot i).size =
      (lastWrite i writes).getD (List.replicate (slot i).size 0) := by
  unfold Slot.stop at hle
  have hlength : ((lastWrite i writes).getD (List.replicate (slot i).size 0)).length =
      (slot i).size := by
    cases hlast : lastWrite i writes with
    | none => exact List.length_replicate
    | some data => exact hsize (i, data) (mem_of_lastWrite hlast)
  refine List.ext_getElem (by simp only [List.length_take, List.length_drop]; omega) fun k hk _ => ?_
  have hk : k < (slot i).size := by
    simp only [List.length_take] at hk
    omega
  have hbyte := getD_writeAll hsize hapart hk
  rw [List.getD_eq_getElem _ _ (by omega)] at hbyte
  rw [List.getElem_take, List.getElem_drop, hbyte, List.getElem_eq_getD 0]
  cases lastWrite i writes with
  | none => simp [List.getD_eq_getElem?_getD, hk]
  | some data => rfl

end WriteAll

end OneCollect.Theory
