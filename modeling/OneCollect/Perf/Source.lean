import OneCollect.Perf.RingBuf

/-! The data source of `rb/source.rs` that reads all rings in the order of time, and the loop
`parse_until` that drives it.

A ring is a reader with its cursor and the pages it reads. `RingBufs` is the map from ids to
ring buffers, of which only lookups matter. A record handed to `parse_perf_data` is delivered;
what the events do with it is not modelled. -/

namespace OneCollect.Perf
open Theory Circular

structure AncillaryData where
  cpu : Nat
  attributes : EventAttr
  deriving DecidableEq, Repr

structure PerfData where
  ancillary : AncillaryData
  rawData : Bytes
  deriving DecidableEq, Repr

/-- `sample_time_offset` is a function of the attributes, which never change. -/
structure CpuRingBuf where
  cpu : Nat
  attributes : EventAttr
  deriving DecidableEq, Repr

namespace CpuRingBuf

def sampleTimeOffset (self : CpuRingBuf) : Nat :=
  let offset := Header.dataOffset
  let offset := if self.attributes.hasFormat sampleIdentifier then offset + 8 else offset
  let offset := if self.attributes.hasFormat sampleIp then offset + 8 else offset
  if self.attributes.hasFormat sampleTid then offset + 8 else offset

def ancillary (self : CpuRingBuf) : AncillaryData := ⟨self.cpu, self.attributes⟩

theorem sampleTimeOffset_mod (self : CpuRingBuf) : self.sampleTimeOffset % 8 = 0 := by
  unfold sampleTimeOffset Header.dataOffset
  split <;> split <;> split <;> rfl

end CpuRingBuf

abbrev RingBufs := Nat → Option CpuRingBuf

structure CpuRing where
  pages : Pages
  reader : CpuRingReader
  cursor : CpuRingCursor := {}

/-- The time and the buffer of the record at the cursor, and the cursor, which moves over a
record that is skipped. -/
def readTime (reader : CpuRingReader) (pages : Pages) (cursor : CpuRingCursor)
    (ringBufs : RingBufs) : Exec (Option (Nat × CpuRingBuf) × CpuRingCursor) := do
  if !cursor.more then .ok (none, cursor) else
  let (_, header) ← reader.peekHeader pages cursor
  let minSize := Header.dataOffset + 16
  if header.size < minSize then
    let cursor ← cursor.advance (max header.size Header.dataOffset)
    .ok (none, cursor)
  else
    let isSample := header.entryType = recordSample
    let idOffset := if isSample then Header.dataOffset else header.size - 8
    let timeOffset := if isSample then none else some (header.size - 16)
    let id ← reader.peekU64 pages cursor idOffset
    match ringBufs id with
    | none => do
      let cursor ← cursor.advance header.size
      .ok (none, cursor)
    | some buf => do
      let time ← reader.peekU64 pages cursor (timeOffset.getD buf.sampleTimeOffset)
      .ok (some (time, buf), cursor)

/-- The locals of `find_current_buffer`. -/
structure Oldest where
  oldestTime : Option Nat := none
  nextTime : Option Nat := none
  oldestCpu : Option Nat := none
  deriving DecidableEq, Repr

def Oldest.consider (self : Oldest) (time i : Nat) : Oldest :=
  match self.oldestTime with
  | some prevTime =>
    if time < prevTime then
      { nextTime := self.oldestTime, oldestTime := some time, oldestCpu := some i }
    else match self.nextTime with
      | some currentNextTime =>
        if time < currentNextTime then { self with nextTime := some time } else self
      | none => { self with nextTime := some time }
  | none => { self with oldestTime := some time, oldestCpu := some i }

/-- The loop of `find_current_buffer`, from ring `i` on. -/
def findLoop (ringBufs : RingBufs) : Nat → Oldest → List CpuRing → Exec (Oldest × List CpuRing)
  | _, oldest, [] => .ok (oldest, [])
  | i, oldest, ring :: rings => do
    let (found, cursor) ← readTime ring.reader ring.pages ring.cursor ringBufs
    let oldest := match found with
      | some (time, _) => oldest.consider time i
      | none => oldest
    let (oldest, rings) ← findLoop ringBufs (i + 1) oldest rings
    .ok (oldest, { ring with cursor } :: rings)

structure RingBufDataSource where
  rings : List CpuRing
  ringBufs : RingBufs
  oldestCpu : Option Nat := none
  nextTime : Option Nat := none
  enabled : Bool := false

/-- The record at index 100 is the last one that a cycle reads. -/
def maxBatch : Nat := 101

/-- A record handed to `parse_perf_data`, with the ring it came from. -/
structure Delivery where
  cpu : Nat
  data : PerfData
  deriving DecidableEq, Repr

namespace RingBufDataSource

def findCurrentBuffer (self : RingBufDataSource) : Exec RingBufDataSource := do
  let (oldest, rings) ← findLoop self.ringBufs 0 {} self.rings
  .ok { self with rings, oldestCpu := oldest.oldestCpu, nextTime := oldest.nextTime }

def beginReading (self : RingBufDataSource) : Exec RingBufDataSource :=
  findCurrentBuffer { self with
    rings := self.rings.map fun ring =>
      { ring with cursor := ring.reader.beginReading ring.pages ring.cursor } }

def read (self : RingBufDataSource) : Exec (Option PerfData × RingBufDataSource) :=
  match self.oldestCpu with
  | none => .ok (none, self)
  | some cpu => do
    let ring ← getAt self.rings cpu
    let (found, cursor) ← readTime ring.reader ring.pages ring.cursor self.ringBufs
    let self := { self with rings := self.rings.set cpu { ring with cursor } }
    match found with
    | none => .ok (none, self)
    | some (time, rb) =>
      if self.nextTime.any (time > ·) then .ok (none, self) else do
      let (rawData, cursor) ← ring.reader.read ring.pages cursor
      .ok (some { ancillary := rb.ancillary, rawData },
        { self with rings := self.rings.set cpu { ring with cursor } })

def endReading (self : RingBufDataSource) : Exec RingBufDataSource :=
  match self.oldestCpu with
  | none => .ok self
  | some cpu => do
    let ring ← getAt self.rings cpu
    let pages := ring.reader.endReading ring.pages ring.cursor
    .ok { self with rings := self.rings.set cpu { ring with pages } }

def more (self : RingBufDataSource) : Bool := self.oldestCpu.isSome || self.enabled

/-- The inner loop of `parse_until`, for at most `n` records. -/
def readBatch : Nat → RingBufDataSource → Exec (List PerfData × RingBufDataSource)
  | 0, self => .ok ([], self)
  | n + 1, self => do
    let (data, self) ← self.read
    match data with
    | none => .ok ([], self)
    | some data => do
      let (rest, self) ← readBatch n self
      .ok (data :: rest, self)

/-- One turn of the outer loop of `parse_until`. -/
def cycle (self : RingBufDataSource) : Exec (List Delivery × RingBufDataSource) := do
  let self ← self.beginReading
  let (batch, self) ← readBatch maxBatch self
  let self ← self.endReading
  .ok (batch.map fun data => ⟨self.oldestCpu.getD 0, data⟩, self)

/-- `parse_until`, within `fuel` turns; `shouldStop` answers the call after turn `n`. -/
def parseUntil (shouldStop : Nat → Bool) :
    Nat → Nat → List Delivery → RingBufDataSource → Exec (Option (List Delivery × RingBufDataSource))
  | 0, _, _, _ => .ok none
  | fuel + 1, n, log, self => do
    let (batch, self) ← self.cycle
    if shouldStop n || !self.more then .ok (some (log ++ batch, self))
    else parseUntil shouldStop fuel (n + 1) (log ++ batch) self

/-- The first `n` turns. -/
def cycles : Nat → RingBufDataSource → Exec (List Delivery × RingBufDataSource)
  | 0, self => .ok ([], self)
  | n + 1, self => do
    let (log, self) ← cycles n self
    let (batch, self) ← self.cycle
    .ok (log ++ batch, self)

end RingBufDataSource

/-! ## Records, as the source reads them -/

def isSample (record : Bytes) : Bool := fromLe (record.take 4) = recordSample

def recordId (record : Bytes) : Nat :=
  let offset := if isSample record then Header.dataOffset else record.length - 8
  fromLe ((record.drop offset).take 8)

/-- The time of a record whose id is known. -/
def recordTime (ringBufs : RingBufs) (record : Bytes) : Option Nat :=
  (ringBufs (recordId record)).map fun buf =>
    let offset := if isSample record then buf.sampleTimeOffset else record.length - 16
    fromLe ((record.drop offset).take 8)

/-- A record of at least the minimum size, with room for the fields its format asks for. -/
structure WellFormed (ringBufs : RingBufs) (record : Bytes) : Prop where
  built : Built record
  minSize : Header.dataOffset + 16 ≤ record.length
  sample : ∀ buf, isSample record = true → ringBufs (recordId record) = some buf →
    buf.sampleTimeOffset + 8 ≤ record.length

/-- The unread records of a ring. -/
structure CpuRing.Carries (ringBufs : RingBufs) (ring : CpuRing) (records : List Bytes) : Prop where
  area : IsArea ring.reader.dataSize
  mask : ring.reader.dataMask = ring.reader.dataSize - 1
  dataLen : ring.pages.data.length = ring.reader.dataSize
  wellFormed : ∀ record ∈ records, WellFormed ringBufs record
  holds : Holds ring.pages.data ring.pages.tail records.flatten
  head_eq : ring.pages.head = ring.pages.tail + records.flatten.length
  fits : records.flatten.length ≤ ring.reader.dataSize
  head_lt : ring.pages.head < 2 ^ 64
  tail_mod : ring.pages.tail % 8 = 0

/-- In a cycle, the cursor stands behind the records `done`. -/
structure CpuRing.At (ringBufs : RingBufs) (ring : CpuRing) (done rest : List Bytes) : Prop where
  carries : ring.Carries ringBufs (done ++ rest)
  start_eq : ring.cursor.start = ring.pages.tail + done.flatten.length
  stop_eq : ring.cursor.stop = ring.pages.head

section Ring

variable {ringBufs : RingBufs} {ring : CpuRing} {done rest : List Bytes} {record : Bytes}

/-- What a ring carries is determined by its bytes. -/
theorem carries_unique {records records' : List Bytes} (h : ring.Carries ringBufs records)
    (h' : ring.Carries ringBufs records') : records = records' := by
  have hhead := h.head_eq
  have hhead' := h'.head_eq
  have hflat := h.holds.unique h'.holds (by omega)
  exact built_flatten_inj (fun r hr => (h.wellFormed r hr).built)
    (fun r hr => (h'.wellFormed r hr).built) hflat

theorem flatten_mod_of_wellFormed {records : List Bytes}
    (h : ∀ record ∈ records, WellFormed ringBufs record) : records.flatten.length % 8 = 0 := by
  induction records with
  | nil => rfl
  | cons record records ih =>
    have hr := (h record (by simp)).built.length_bounds
    have := ih fun r hr => h r (by simp [hr])
    rw [List.flatten_cons, List.length_append]
    omega

theorem at_begin {records : List Bytes} (h : ring.Carries ringBufs records) :
    CpuRing.At ringBufs
      { ring with cursor := ring.reader.beginReading ring.pages ring.cursor } [] records where
  carries := { h with }
  start_eq := by simp [CpuRingReader.beginReading, CpuRingCursor.set]
  stop_eq := rfl

theorem more_iff (h : ring.At ringBufs done rest) : ring.cursor.more = true ↔ rest ≠ [] := by
  have hstart := h.start_eq
  have hstop := h.stop_eq
  have hhead := h.carries.head_eq
  rw [List.flatten_append, List.length_append] at hhead
  unfold CpuRingCursor.more
  rw [decide_eq_true_eq]
  constructor
  · rintro hlt rfl
    rw [List.flatten_nil, List.length_nil] at hhead
    omega
  · intro hne
    obtain ⟨record, rest', rfl⟩ := List.exists_cons_of_ne_nil hne
    have hb := (h.carries.wellFormed record (by simp)).built.length_bounds
    rw [List.flatten_cons, List.length_append] at hhead
    omega

/-- What a cursor at a record is good for. -/
theorem at_record (h : ring.At ringBufs done (record :: rest)) :
    WellFormed ringBufs record ∧ Holds ring.pages.data ring.cursor.start record ∧
      ring.cursor.start % 8 = 0 ∧ record.length ≤ ring.reader.dataSize ∧
      ring.cursor.start + record.length < 2 ^ 64 := by
  have hstart := h.start_eq
  have hhead := h.carries.head_eq
  have hfits := h.carries.fits
  have hlt := h.carries.head_lt
  have htail := h.carries.tail_mod
  have hmod := flatten_mod_of_wellFormed fun r hr =>
    h.carries.wellFormed r (List.mem_append_left _ hr)
  have hholds := h.carries.holds
  rw [List.flatten_append, holds_append, List.flatten_cons, holds_append, ← hstart] at hholds
  rw [List.flatten_append, List.length_append, List.flatten_cons, List.length_append] at hhead hfits
  exact ⟨h.carries.wellFormed record (by simp), hholds.2.1, by omega, by omega, by omega⟩

/-- The cursor moved over a record. -/
theorem at_advance (h : ring.At ringBufs done (record :: rest)) :
    CpuRing.At ringBufs
      { ring with cursor := { ring.cursor with start := ring.cursor.start + record.length } }
      (done ++ [record]) rest := by
  have happ : done ++ [record] ++ rest = done ++ record :: rest := by simp
  constructor
  · rw [happ]
    exact { h.carries with }
  · have := h.start_eq
    simp only [List.flatten_append, List.length_append, List.flatten_cons, List.flatten_nil,
      List.append_nil]
    omega
  · exact h.stop_eq

/-- Publishing the cursor leaves the records behind it. -/
theorem carries_endReading (h : ring.At ringBufs done rest) :
    CpuRing.Carries ringBufs
      { ring with pages := ring.reader.endReading ring.pages ring.cursor } rest := by
  have hstart := h.start_eq
  have hhead := h.carries.head_eq
  have hfits := h.carries.fits
  have hholds := h.carries.holds
  have hmod := flatten_mod_of_wellFormed fun r hr =>
    h.carries.wellFormed r (List.mem_append_left _ hr)
  have htail := h.carries.tail_mod
  rw [List.flatten_append, holds_append, ← hstart] at hholds
  rw [List.flatten_append, List.length_append] at hhead hfits
  refine ⟨h.carries.area, h.carries.mask, h.carries.dataLen, ?_, hholds.2, ?_, ?_,
    h.carries.head_lt, ?_⟩
  · exact fun r hr => h.carries.wellFormed r (List.mem_append_right _ hr)
  · simp only [CpuRingReader.endReading]
    omega
  · simp only
    omega
  · simp only [CpuRingReader.endReading]
    omega

/-- **`read_time` at the end** of what there is to read. -/
theorem readTime_nil (h : ring.At ringBufs done []) :
    readTime ring.reader ring.pages ring.cursor ringBufs = .ok (none, ring.cursor) := by
  have hmore : ring.cursor.more = false := by
    have := (more_iff h).not.mpr (by simp)
    simpa using this
  simp [readTime, hmore]

/-- **`read_time` at a record**: its time when its id is known; otherwise it is skipped. -/
theorem readTime_cons (h : ring.At ringBufs done (record :: rest)) :
    readTime ring.reader ring.pages ring.cursor ringBufs =
      match recordTime ringBufs record with
      | none => .ok (none, { ring.cursor with start := ring.cursor.start + record.length })
      | some time => .ok ((ringBufs (recordId record)).map (time, ·), ring.cursor) := by
  obtain ⟨hwf, hholds, hmod, hle, hlt⟩ := at_record h
  have hc := h.carries
  have hb := hwf.built.length_bounds
  have hmin := hwf.minSize
  have hmore : ring.cursor.more = true := (more_iff h).mpr (by simp)
  obtain ⟨header, hheader, hsize⟩ := hwf.built.header
  have htype := fromSlice_entryType hheader
  have hpeek := peekHeader_of_holds hc.mask hc.area hc.dataLen hmod hwf.built hholds hheader
  have hword := fun {offset : Nat} (hoff : offset % 8 = 0) (hle : offset + 8 ≤ record.length) =>
    peekU64_of_holds hc.mask hc.area hc.dataLen hmod hholds hoff hle hlt
  have hsample : (header.entryType = recordSample) = (isSample record = true) := by
    simp [isSample, htype]
  unfold Header.dataOffset at hmin
  have hid : ring.reader.peekU64 ring.pages ring.cursor
      (if isSample record = true then Header.dataOffset else record.length - 8) =
        .ok (recordId record) := by
    unfold recordId
    split
    · exact hword rfl (by unfold Header.dataOffset; omega)
    · exact hword (by omega) (by omega)
  unfold readTime
  rw [hmore, Bool.not_true, if_neg Bool.false_ne_true, hpeek, ok_bind]
  simp only [hsize, hsample, hid, ok_bind]
  rw [if_neg (by unfold Header.dataOffset; omega)]
  unfold recordTime
  cases hbuf : ringBufs (recordId record) with
  | none => simp only [CpuRingCursor.advance_of_lt hlt, ok_bind, Option.map_none]
  | some buf =>
    have htime : ring.reader.peekU64 ring.pages ring.cursor
        ((if isSample record = true then none else some (record.length - 16)).getD
          buf.sampleTimeOffset) =
        .ok (fromLe ((record.drop
          (if isSample record = true then buf.sampleTimeOffset else record.length - 16)).take 8)) := by
      by_cases hs : isSample record = true
      · rw [if_pos hs, if_pos hs]
        exact hword buf.sampleTimeOffset_mod (hwf.sample buf hs hbuf)
      · rw [if_neg hs, if_neg hs, Option.getD_some]
        exact hword (by omega) (by omega)
    simp only [htime, ok_bind]
    rfl

/-- **`CpuRingReader::read` at a record.** -/
theorem read_at (h : ring.At ringBufs done (record :: rest)) :
    ring.reader.read ring.pages ring.cursor =
      .ok (record, { ring.cursor with start := ring.cursor.start + record.length }) := by
  obtain ⟨hwf, hholds, hmod, hle, hlt⟩ := at_record h
  exact read_of_holds rfl h.carries.mask h.carries.area h.carries.dataLen hmod hwf.built hholds hle
    hlt

end Ring

end OneCollect.Perf
