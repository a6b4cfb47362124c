import OneCollect.Exporting.Process
import OneCollect.Ruwind.Dwarf

/-! Metric values of a payload (`MetricValue::try_get_value_closure` of `process.rs`): the closure
for a metric type and an integer data type.

The 24 arms are two closures over a width and a metric. Two of them give another metric than
their own, and none has a check of the length in front of its slice (`metric_decodes_iff`). -/

namespace OneCollect.Exporting
open Theory

abbrev ValueClosure := List UInt8 → Exec MetricValue

namespace MetricValue

/-- The arms of the signed types: `i as u64` where `i` is positive. -/
def signedClosure (size : Nat) (metric : Nat → MetricValue) : ValueClosure := fun data => do
  let word ← slice data 0 size
  let i := Ruwind.signed (8 * size) (fromLe word)
  if i > 0 then .ok (metric (toU64 i)) else .ok (metric 0)

/-- The arms of the unsigned types. -/
def unsignedClosure (size : Nat) (metric : Nat → MetricValue) : ValueClosure := fun data => do
  let word ← slice data 0 size
  .ok (metric (fromLe word))

/-- Whether a data type is signed, and its size. -/
def dataTypeOf : String → Option (Bool × Nat)
  | "char" | "s8" | "i8" => some (true, 1)
  | "unsigned char" | "u8" => some (false, 1)
  | "short" | "s16" | "i16" => some (true, 2)
  | "unsigned short" | "u16" => some (false, 2)
  | "int" | "s32" | "i32" => some (true, 4)
  | "unsigned int" | "u32" => some (false, 4)
  | "long" | "s64" | "i64" => some (true, 8)
  | "unsigned long" | "u64" => some (false, 8)
  | _ => none

def countClosure (isSigned : Bool) : Nat → Option ValueClosure
  | 1 => some (if isSigned then signedClosure 1 .count else unsignedClosure 1 .count)
  | 2 => some (if isSigned then signedClosure 2 .count else unsignedClosure 2 .count)
  | 4 => some (if isSigned then signedClosure 4 .count else unsignedClosure 4 .count)
  | 8 => some (if isSigned then signedClosure 8 .count else unsignedClosure 8 .count)
  | _ => none

def durationClosure (isSigned : Bool) : Nat → Option ValueClosure
  | 1 => some (if isSigned then signedClosure 1 .duration else unsignedClosure 1 .count)
  | 2 => some (if isSigned then signedClosure 2 .duration else unsignedClosure 2 .duration)
  | 4 => some (if isSigned then signedClosure 4 .duration else unsignedClosure 4 .duration)
  | 8 => some (if isSigned then signedClosure 8 .duration else unsignedClosure 8 .duration)
  | _ => none

def bytesClosure (isSigned : Bool) : Nat → Option ValueClosure
  | 1 => some (if isSigned then signedClosure 1 .bytes else unsignedClosure 1 .count)
  | 2 => some (if isSigned then signedClosure 2 .bytes else unsignedClosure 2 .bytes)
  | 4 => some (if isSigned then signedClosure 4 .bytes else unsignedClosure 4 .bytes)
  | 8 => some (if isSigned then signedClosure 8 .bytes else unsignedClosure 8 .bytes)
  | _ => none

def tryGetValueClosure (metricType dataType : String) : Option ValueClosure := do
  let (isSigned, size) ← dataTypeOf dataType
  match metricType with
  | "count" => countClosure isSigned size
  | "duration" => durationClosure isSigned size
  | "bytes" => bytesClosure isSigned size
  | _ => none

/-! ## What a closure should give -/

/-- The metric that a metric type names. -/
def metricOf : String → Option (Nat → MetricValue)
  | "count" => some .count
  | "duration" => some .duration
  | "bytes" => some .bytes
  | _ => none

/-- The integer of a payload, 0 for a negative one. -/
def clamped (isSigned : Bool) (size : Nat) (data : List UInt8) : Nat :=
  let word := fromLe (data.take size)
  if isSigned then (Ruwind.signed (8 * size) word).toNat else word

/-- The closure gives an error for a payload that is too short, else the metric of the integer. -/
def Decodes (closure : ValueClosure) (metric : Nat → MetricValue) (isSigned : Bool) (size : Nat)
    (data : List UInt8) : Prop :=
  if data.length < size then ∃ text, closure data = fail text
  else closure data = .ok (metric (clamped isSigned size data))

/-- The unsigned byte, whose arm counts whatever the metric. -/
def UnsignedByte (dataType : String) : Prop := dataType = "unsigned char" ∨ dataType = "u8"

/-! ## The arms -/

section Arms

variable {metric : Nat → MetricValue} {isSigned : Bool} {size : Nat} {data : List UInt8}

/-- One arm: the closure of a type into a metric. -/
def arm (isSigned : Bool) (size : Nat) (metric : Nat → MetricValue) : ValueClosure :=
  if isSigned then signedClosure size metric else unsignedClosure size metric

theorem slice_start (h : size ≤ data.length) : slice data 0 size = .ok (data.take size) :=
  slice_eq_ok.mpr ⟨⟨Nat.zero_le _, h⟩, by simp⟩

theorem arm_eq (hsize : size ≤ 8) (h : size ≤ data.length) :
    arm isSigned size metric data = .ok (metric (clamped isSigned size data)) := by
  have hword : fromLe (data.take size) < 2 ^ 64 := by
    refine lt_of_lt_of_le (fromLe_lt _) ?_
    exact Nat.pow_le_pow_right (n := 256) (by decide)
      ((List.length_take_le size data).trans hsize)
  unfold arm clamped
  cases isSigned with
  | false =>
    simp only [Bool.false_eq_true, if_false]
    rw [unsignedClosure, slice_start h, ok_bind]
  | true =>
    simp only [if_true]
    rw [signedClosure, slice_start h, ok_bind]
    dsimp only
    have hle : Ruwind.signed (8 * size) (fromLe (data.take size)) ≤ fromLe (data.take size) := by
      unfold Ruwind.signed
      split
      · exact le_refl _
      · have : (0 : Int) < 2 ^ (8 * size) := by positivity
        omega
    split
    · rename_i hpos
      rw [toU64_of_nonneg (by omega) (by omega)]
    · rename_i hneg
      rw [Int.toNat_of_nonpos (by omega)]

/-- No arm checks the length in front of its slice. -/
theorem arm_panics (h : ¬ size ≤ data.length) : arm isSigned size metric data = panicked := by
  have hslice : slice data 0 size = panicked := if_neg fun hle => h hle.2
  unfold arm
  cases isSigned with
  | false =>
    simp only [Bool.false_eq_true, if_false]
    rw [unsignedClosure, hslice]
    rfl
  | true =>
    simp only [if_true]
    rw [signedClosure, hslice]
    rfl

/-- The arm of a metric decodes into it when the payload is long enough, and no other arm does. -/
theorem decodes_arm_iff {metric' : Nat → MetricValue} (hsize : size ≤ 8)
    (hne : metric' = metric ∨ ∀ m n, metric' m ≠ metric n) :
    Decodes (arm isSigned size metric') metric isSigned size data ↔
      size ≤ data.length ∧ metric' = metric := by
  unfold Decodes
  split
  · rename_i hshort
    refine iff_of_false ?_ fun h => absurd h.1 (Nat.not_le.mpr hshort)
    rintro ⟨text, htext⟩
    rw [arm_panics (Nat.not_le.mpr hshort)] at htext
    cases htext
  · rename_i hlong
    have hle := Nat.not_lt.mp hlong
    rw [arm_eq hsize hle, Except.ok.injEq]
    constructor
    · intro heq
      exact ⟨hle, hne.resolve_right fun h => h _ _ heq⟩
    · rintro ⟨-, rfl⟩
      rfl

end Arms

/-! ## The closures -/

section Closures

variable {metricType dataType : String} {metric : Nat → MetricValue} {isSigned : Bool} {size : Nat}

theorem dataTypeOf_size (h : dataTypeOf dataType = some (isSigned, size)) :
    (size = 1 ∨ size = 2 ∨ size = 4 ∨ size = 8) ∧
      (UnsignedByte dataType ↔ isSigned = false ∧ size = 1) := by
  unfold dataTypeOf at h
  split at h <;> cases h
  all_goals simp [UnsignedByte]

/-- The metric of an arm: its own, or a count for an unsigned byte. -/
def armMetric (metric : Nat → MetricValue) (isSigned : Bool) (size : Nat) : Nat → MetricValue :=
  if isSigned = false ∧ size = 1 then .count else metric

theorem countClosure_eq (hsize : size = 1 ∨ size = 2 ∨ size = 4 ∨ size = 8) :
    countClosure isSigned size = some (arm isSigned size (armMetric .count isSigned size)) := by
  rcases hsize with rfl | rfl | rfl | rfl <;> cases isSigned <;> rfl

theorem durationClosure_eq (hsize : size = 1 ∨ size = 2 ∨ size = 4 ∨ size = 8) :
    durationClosure isSigned size =
      some (arm isSigned size (armMetric .duration isSigned size)) := by
  rcases hsize with rfl | rfl | rfl | rfl <;> cases isSigned <;> rfl

theorem bytesClosure_eq (hsize : size = 1 ∨ size = 2 ∨ size = 4 ∨ size = 8) :
    bytesClosure isSigned size = some (arm isSigned size (armMetric .bytes isSigned size)) := by
  rcases hsize with rfl | rfl | rfl | rfl <;> cases isSigned <;> rfl

/-- The closure of a metric type and a data type is their arm. -/
theorem tryGetValueClosure_eq (hmetric : metricOf metricType = some metric)
    (htype : dataTypeOf dataType = some (isSigned, size)) :
    tryGetValueClosure metricType dataType =
      some (arm isSigned size (armMetric metric isSigned size)) := by
  have hsize := (dataTypeOf_size htype).1
  unfold tryGetValueClosure
  rw [htype]
  unfold metricOf at hmetric
  split at hmetric <;> cases hmetric
  · exact countClosure_eq hsize
  · exact durationClosure_eq hsize
  · exact bytesClosure_eq hsize

/-- Every closure is an arm. -/
theorem arm_of_tryGetValueClosure {closure : ValueClosure}
    (h : tryGetValueClosure metricType dataType = some closure) :
    ∃ isSigned size metric, dataTypeOf dataType = some (isSigned, size) ∧
      closure = arm isSigned size metric := by
  obtain ⟨⟨isSigned, size⟩, htype, h⟩ := Option.bind_eq_some_iff.mp h
  have hsize := (dataTypeOf_size htype).1
  dsimp only at h
  split at h
  · rw [countClosure_eq hsize] at h
    exact ⟨isSigned, size, _, htype, (Option.some.inj h).symm⟩
  · rw [durationClosure_eq hsize] at h
    exact ⟨isSigned, size, _, htype, (Option.some.inj h).symm⟩
  · rw [bytesClosure_eq hsize] at h
    exact ⟨isSigned, size, _, htype, (Option.some.inj h).symm⟩
  · cases h

/-- Where a payload is too short a closure panics, and else it has a value. -/
theorem closure_eq_orPanic {closure : ValueClosure}
    (h : tryGetValueClosure metricType dataType = some closure) (data : List UInt8) :
    ∃ value, closure data = orPanic value ∧ ((∃ metric, value = some metric) ↔
      ∀ isSigned size, dataTypeOf dataType = some (isSigned, size) → size ≤ data.length) := by
  obtain ⟨isSigned, size, metric, htype, rfl⟩ := arm_of_tryGetValueClosure h
  have hsize := (dataTypeOf_size htype).1
  have hshape : (∀ isSigned size, dataTypeOf dataType = some (isSigned, size) →
      size ≤ data.length) ↔ size ≤ data.length := by
    rw [htype]
    constructor
    · intro hall
      exact hall isSigned size rfl
    · rintro hle _ _ hsame
      cases hsame
      exact hle
  rw [hshape]
  by_cases hle : size ≤ data.length
  · exact ⟨_, arm_eq (by omega) hle, iff_of_true ⟨_, rfl⟩ hle⟩
  · refine ⟨none, arm_panics hle, iff_of_false ?_ hle⟩
    rintro ⟨metric, hmetric⟩
    cases hmetric

/-- The arm of an unsigned byte counts; every other gives the metric that the type names. -/
theorem armMetric_eq_iff (hmetric : metricOf metricType = some metric) :
    (armMetric metric isSigned size = metric ∨
        ∀ m n, armMetric metric isSigned size m ≠ metric n) ∧
      (armMetric metric isSigned size = metric ↔
        metricType = "count" ∨ ¬ (isSigned = false ∧ size = 1)) := by
  have hduration : ∀ m n, MetricValue.count m ≠ .duration n := fun _ _ => by simp
  have hbytes : ∀ m n, MetricValue.count m ≠ .bytes n := fun _ _ => by simp
  unfold armMetric
  by_cases hbyte : isSigned = false ∧ size = 1
  · rw [if_pos hbyte]
    unfold metricOf at hmetric
    split at hmetric <;> cases hmetric
    · exact ⟨.inl rfl, iff_of_true rfl (.inl rfl)⟩
    · exact ⟨.inr hduration, iff_of_false (fun h => hduration 0 0 (congrFun h 0)) (by simp [hbyte])⟩
    · exact ⟨.inr hbytes, iff_of_false (fun h => hbytes 0 0 (congrFun h 0)) (by simp [hbyte])⟩
  · rw [if_neg hbyte]
    exact ⟨.inl rfl, iff_of_true rfl (.inr hbyte)⟩

/-- **Metric decoding.** The closure of a metric type and a data type gives an error for a payload
that is too short and else the metric of the integer, if and only if the payload is long enough
and, for a metric other than a count, the data type is not the unsigned byte. -/
theorem metric_decodes_iff (hmetric : metricOf metricType = some metric)
    (htype : dataTypeOf dataType = some (isSigned, size)) (data : List UInt8) :
    ∃ closure, tryGetValueClosure metricType dataType = some closure ∧
      (Decodes closure metric isSigned size data ↔
        size ≤ data.length ∧ (metricType = "count" ∨ ¬ UnsignedByte dataType)) := by
  obtain ⟨hsize, hbyte⟩ := dataTypeOf_size htype
  obtain ⟨hne, hiff⟩ := @armMetric_eq_iff metricType metric isSigned size hmetric
  refine ⟨_, tryGetValueClosure_eq hmetric htype, ?_⟩
  rw [decodes_arm_iff (by omega) hne, hiff, hbyte]

theorem metric_decodes_duration :
    ∃ closure, tryGetValueClosure "duration" "i16" = some closure ∧
      (Decodes closure .duration true 2 [0xFE, 0xFF] ↔
        2 ≤ [(0xFE : UInt8), 0xFF].length ∧ ("duration" = "count" ∨ ¬ UnsignedByte "i16")) :=
  metric_decodes_iff rfl rfl [0xFE, 0xFF]

/-- An empty payload of a count, and a duration in an unsigned byte. -/
theorem metric_not_decodes :
    (∃ closure, tryGetValueClosure "count" "u64" = some closure ∧ closure [] = panicked) ∧
      ∃ closure, tryGetValueClosure "duration" "u8" = some closure ∧
        closure [2] = .ok (.count 2) ∧ ¬ Decodes closure .duration false 1 [2] := by
  refine ⟨⟨_, rfl, rfl⟩, _, rfl, rfl, fun h => ?_⟩
  exact absurd (Except.ok.inj h) (by decide)

end Closures

end MetricValue

end OneCollect.Exporting
