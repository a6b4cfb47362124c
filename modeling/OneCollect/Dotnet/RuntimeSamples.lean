import OneCollect.Event.Format
import OneCollect.Exporting.Metrics

/-! The samples of the runtime provider that scenarios use (`scripting/runtime.rs`): for each event
its format, and the closure that takes a value from a payload.

A closure that reads the payload takes eight bytes at a fixed range, which is that of a field of the
format, and has no check of the length in front of its slice (`decodes_iff`). -/

namespace OneCollect.Dotnet
open Theory Exporting

/-! ## Values -/

/-- What a closure takes as its value: one, or the eight bytes of a range. -/
inductive SampleValue where
  | one
  | count (start stop : Nat)
  | bytes (start stop : Nat)
  deriving DecidableEq, Repr

namespace SampleValue

/-- `data[start..stop].try_into()?`, and `from_ne_bytes`. -/
def wordAt (start stop : Nat) (data : List UInt8) : Exec Nat := do
  let word ← slice data start stop
  if word.length = 8 then .ok (fromLe word) else fail "could not convert slice to array"

/-- `sample_value`. -/
def closure (self : SampleValue) : ValueClosure := fun data =>
  match self with
  | one => .ok (.count 1)
  | count start stop => do
    let value ← wordAt start stop data
    .ok (.count value)
  | bytes start stop => do
    let value ← wordAt start stop data
    .ok (.bytes value)

def range : SampleValue → Option (Nat × Nat)
  | one => none
  | count start stop => some (start, stop)
  | bytes start stop => some (start, stop)

def metric : SampleValue → Nat → MetricValue
  | bytes _ _, value => .bytes value
  | _, value => .count value

end SampleValue

/-! ## Events -/

/-- An event of the runtime provider, with the format and the value of its sample. -/
structure RuntimeEvent where
  name : String
  format : EventFormat := {}
  value : SampleValue := .one
  deriving DecidableEq, Repr

namespace RuntimeEvent

def u8 (name : String) : String × String × Nat := (name, "u8", 1)

def u16 (name : String) : String × String × Nat := (name, "u16", 2)

def u32 (name : String) : String × String × Nat := (name, "u32", 4)

def u64 (name : String) : String × String × Nat := (name, "u64", 8)

def double (name : String) : String × String × Nat := (name, "double", 8)

/-- Fields one behind another: `offset += len`. -/
def behind : Nat → List (String × String × Nat) → List EventField
  | _, [] => []
  | offset, (name, typeName, len) :: fields =>
    ⟨name, typeName, .static, offset, len⟩ :: behind (offset + len) fields

def layout (fields : List (String × String × Nat)) : EventFormat := ⟨behind 0 fields⟩

/-- The four events of worker threads. -/
def workerThread (name : String) : RuntimeEvent where
  name := name
  format := layout [u32 "ActiveWorkerThreadCount", u32 "RetiredWorkerThreadCount",
    u16 "ClrInstanceID"]

/-- The four events of IO threads. -/
def ioThread (name : String) : RuntimeEvent where
  name := name
  format := layout [u64 "Count", u64 "NumRetired", u16 "ClrInstanceID"]
  value := .count 0 8

def contention (name : String) : RuntimeEvent where
  name := name
  format := layout [u8 "Flags", u16 "ClrInstanceID"]

/-- Behind the name of the type the offsets are not moved on. -/
def gcAllocationTick : RuntimeEvent where
  name := "GCAllocationTick"
  format := ⟨behind 0 [u32 "AllocationAmount", u32 "AllocationKind", u16 "ClrInstanceID",
    u64 "AllocationAmount64", u64 "TypeId"] ++
      [⟨"TypeName", "wchar", .staticUTF16String, 26, 0⟩, ⟨"HeapIndex", "u32", .static, 26, 4⟩,
        ⟨"Address", "u64", .static, 26, 8⟩, ⟨"ObjectSize", "u64", .static, 26, 8⟩]⟩
  value := .bytes 10 18

def exceptionThrown : RuntimeEvent where
  name := "ExceptionThrown"
  format := ⟨[⟨"ExceptionType", "wchar", .staticUTF16String, 0, 0⟩,
    ⟨"ExceptionMessage", "wchar", .staticUTF16String, 0, 0⟩,
    ⟨"EIPCodeThrow", "u64", .static, 0, 8⟩, ⟨"ExceptionHR", "u32", .static, 0, 4⟩,
    ⟨"ExceptionFlags", "u16", .static, 0, 2⟩, ⟨"ClrInstanceID", "u16", .static, 0, 2⟩]⟩

def gcHeapStats : RuntimeEvent where
  name := "GCHeapStats"
  format := layout [u64 "GenerationSize0", u64 "TotalPromotedSize0", u64 "GenerationSize1",
    u64 "TotalPromotedSize1", u64 "GenerationSize2", u64 "TotalPromotedSize2",
    u64 "GenerationSize3", u64 "TotalPromotedSize3", u64 "FinalizationPromotedSize",
    u64 "FinalizationPromotedCount", u32 "PinnedObjectCount", u32 "SinkBlockCount",
    u32 "GCHandleCount", u16 "ClrInstanceID", u64 "GenerationSize4", u64 "TotalPromotedSize4"]

def adjustmentSample : RuntimeEvent where
  name := "ThreadPoolWorkerThreadAdjustmentSample"
  format := layout [double "Throughput", u16 "ClrInstanceID"]
  value := .count 0 8

def adjustment : RuntimeEvent where
  name := "ThreadPoolWorkerThreadAdjustmentAdjustment"
  format := layout [double "AverageThroughput", u32 "NewWorkerThreadCount", u32 "Reason",
    u16 "ClrInstanceID"]
  value := .count 0 8

def adjustmentStats : RuntimeEvent where
  name := "ThreadPoolWorkerThreadAdjustmentStats"
  format := layout [double "Duration", double "Throughput", double "ThreadWave",
    double "ThroughputWave", double "ThroughputErrorEstimate",
    double "AverageThroughputErrorEstimate", double "ThroughputRatio", double "Confidence",
    double "NewControlSetting", u16 "NewThreadWaveMagnitude", u16 "ClrInstanceID"]
  value := .count 8 16

def appDomainMemAllocated : RuntimeEvent where
  name := "AppDomainMemAllocated"
  format := layout [u64 "AppDomainID", u64 "Allocated", u16 "ClrInstanceID"]
  value := .bytes 8 16

def appDomainMemSurvived : RuntimeEvent where
  name := "AppDomainMemSurvived"
  format := layout [u64 "AppDomainID", u64 "Survived", u64 "ProcessSurvived", u16 "ClrInstanceID"]
  value := .bytes 8 16

end RuntimeEvent

open RuntimeEvent in
/-- The events that `add_runtime_samples` knows, by their ids. -/
def runtimeEvents : List (Nat × RuntimeEvent) :=
  [(1, { name := "GCStart", format := layout [u32 "Count", u32 "Depth", u32 "Reason", u32 "Type",
      u16 "ClrInstanceID"] }),
    (2, { name := "GCEnd", format := layout [u32 "Count", u32 "Depth", u16 "ClrInstanceID"] }),
    (4, gcHeapStats),
    (5, { name := "GCCreateSegment", format := layout [u64 "Address", u64 "Size", u32 "Type",
      u16 "ClrInstanceID"] }),
    (6, { name := "GCFreeSegment", format := layout [u64 "Address", u16 "ClrInstanceID"] }),
    (7, { name := "GCRestartEEBegin" }),
    (3, { name := "GCRestartEEEnd" }),
    (9, { name := "GCSuspendEE", format := layout [u16 "Reason", u32 "Count",
      u16 "ClrInstanceID"] }),
    (8, { name := "GCSuspendEEEnd" }),
    (10, gcAllocationTick),
    (14, { name := "GCFinalizersBegin" }),
    (13, { name := "GCFinalizersEnd", format := layout [u32 "Count", u16 "ClrInstanceID"] }),
    (11, { name := "GCCreateConcurrentThread" }),
    (12, { name := "GCTerminateConcurrentThread" }),
    (80, exceptionThrown),
    (50, workerThread "ThreadPoolWorkerThreadStart"),
    (51, workerThread "ThreadPoolWorkerThreadStop"),
    (52, workerThread "ThreadPoolWorkerThreadRetirementStart"),
    (53, workerThread "ThreadPoolWorkerThreadRetirementStop"),
    (54, adjustmentSample),
    (55, adjustment),
    (56, adjustmentStats),
    (44, ioThread "IOThreadCreate"),
    (46, ioThread "IOThreadRetire"),
    (47, ioThread "IOThreadUnretire"),
    (45, ioThread "IOThreadTerminate"),
    (81, contention "ContentionStart"),
    (85, { name := "ThreadCreated", format := layout [u64 "ThreadID", u64 "AppDomainID",
      u32 "Flags", u32 "ManagedThreadIndex", u32 "OSThreadID", u16 "ClrInstanceID"] }),
    (86, { name := "ThreadTerminated", format := layout [u64 "ThreadID", u64 "AppDomainID",
      u16 "ClrInstanceID"] }),
    (87, { name := "ThreadAppDomainEnter", format := layout [u64 "ThreadID", u64 "AppDomainID",
      u16 "ClrInstanceID"] }),
    (83, appDomainMemAllocated),
    (84, appDomainMemSurvived),
    (91, contention "ContentionStop")]

/-- A sample of a known event. -/
structure DotNetSample where
  id : Nat
  event : RuntimeEvent
  known : (id, event) ∈ runtimeEvents
  record : Bool

/-! ## Declared fields -/

/-- The field of an event that is sampled, by the id of the event. -/
def sampledFields : List (Nat × String) :=
  [(10, "AllocationAmount64"), (54, "Throughput"), (55, "AverageThroughput"), (56, "Throughput"),
    (44, "Count"), (46, "Count"), (47, "Count"), (45, "Count"), (83, "Allocated"), (84, "Survived")]

namespace DotNetSample

/-- The field that is sampled, as its format declares it. -/
def field (self : DotNetSample) : Option EventField :=
  (sampledFields.lookup self.id).bind self.event.format.getField

/-- The value in a payload, of a double its bits; none where it ends in front of the field. -/
def valueIn (self : DotNetSample) (payload : List UInt8) : Option MetricValue :=
  match self.field with
  | none => some (.count 1)
  | some field =>
    if field.offset + field.size ≤ payload.length then
      some (self.event.value.metric (fromLe ((payload.drop field.offset).take field.size)))
    else none

/-- A closure gives the value in the payload, and an error where there is none. -/
def Decodes (self : DotNetSample) (payload : List UInt8) : Prop :=
  (∀ value, self.valueIn payload = some value → self.event.value.closure payload = .ok value) ∧
    (self.valueIn payload = none → ∃ text, self.event.value.closure payload = fail text)

/-- The payload has the field that is sampled. -/
def Reaches (self : DotNetSample) (payload : List UInt8) : Prop :=
  ∀ field, self.field = some field → field.offset + field.size ≤ payload.length

end DotNetSample

/-- What is read is a field of eight bytes, and one is the value without a field. -/
theorem runtimeEvents_declared : ∀ entry ∈ runtimeEvents,
    entry.2.value.range = ((sampledFields.lookup entry.1).bind entry.2.format.getField).map
      (fun field => (field.offset, field.offset + field.size)) ∧
    ∀ field ∈ (sampledFields.lookup entry.1).bind entry.2.format.getField, field.size = 8 := by
  decide +kernel

namespace DotNetSample

variable {sample : DotNetSample} {payload : List UInt8}

theorem wordAt_eq {start stop : Nat} (hlen : stop - start = 8) (h : stop ≤ payload.length) :
    SampleValue.wordAt start stop payload = .ok (fromLe ((payload.drop start).take 8)) := by
  have hslice : slice payload start stop = .ok ((payload.drop start).take 8) :=
    slice_eq_ok.mpr ⟨⟨by omega, h⟩, by rw [hlen]⟩
  have hlength := slice_length hslice
  rw [SampleValue.wordAt, hslice, ok_bind, if_pos (by omega)]

theorem wordAt_panics {start stop : Nat} (h : ¬ stop ≤ payload.length) :
    SampleValue.wordAt start stop payload = panicked := by
  rw [SampleValue.wordAt, slice, if_neg fun hand => h hand.2]
  rfl

/-- **What a closure does**: where there is no value, it panics. -/
theorem closure_eq (sample : DotNetSample) (payload : List UInt8) :
    sample.event.value.closure payload = orPanic (sample.valueIn payload) := by
  obtain ⟨hrange, hsize⟩ := runtimeEvents_declared _ sample.known
  change _ = sample.field.map _ at hrange
  change ∀ field ∈ sample.field, _ at hsize
  unfold valueIn
  cases hfield : sample.field with
  | none =>
    rw [hfield] at hrange
    cases hvalue : sample.event.value with
    | one => rfl
    | count start stop => simp [hvalue, SampleValue.range] at hrange
    | bytes start stop => simp [hvalue, SampleValue.range] at hrange
  | some field =>
    have height := hsize field hfield
    have hword : SampleValue.wordAt field.offset (field.offset + field.size) payload =
        if field.offset + field.size ≤ payload.length
        then .ok (fromLe ((payload.drop field.offset).take field.size)) else panicked := by
      split
      · rename_i hle
        rw [wordAt_eq (by omega) hle, height]
      · rename_i hnot
        exact wordAt_panics hnot
    rw [hfield] at hrange
    dsimp only
    cases hvalue : sample.event.value with
    | one => simp [hvalue, SampleValue.range] at hrange
    | count start stop =>
      simp only [hvalue, SampleValue.range, Option.map_some, Option.some.injEq, Prod.mk.injEq]
        at hrange
      rw [SampleValue.closure, hrange.1, hrange.2, hword]
      split
      · rfl
      · rfl
    | bytes start stop =>
      simp only [hvalue, SampleValue.range, Option.map_some, Option.some.injEq, Prod.mk.injEq]
        at hrange
      rw [SampleValue.closure, hrange.1, hrange.2, hword]
      split
      · rfl
      · rfl

theorem reaches_iff : sample.Reaches payload ↔ ∃ value, sample.valueIn payload = some value := by
  unfold Reaches valueIn
  cases sample.field with
  | none => simp
  | some field => simp

/-- **The values of samples.** A closure does as it should exactly if the payload has its field. -/
theorem decodes_iff : sample.Decodes payload ↔ sample.Reaches payload := by
  unfold Decodes
  rw [closure_eq, reaches_iff]
  cases sample.valueIn payload with
  | none => simp [orPanic, panicked, fail]
  | some value => simp [orPanic]

end DotNetSample

end OneCollect.Dotnet
