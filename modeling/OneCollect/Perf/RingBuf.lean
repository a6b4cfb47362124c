import OneCollect.Perf.Abi
import OneCollect.Theory.Circular

/-! The rings of `rb/mod.rs`: the shared pages, the reader with its cursor, and the
in-process ring with its writer.

The pages are their four metadata words and the data area. Everything that happens to them
is a load or a store of one of these, so a caller that interleaves such steps sees the
memory of the source. A write outside the area is undefined behaviour there and a panic
here.

`writeRaw_eq_ok` and `read_of_holds` reduce both ends to `Theory.Circular`. -/

namespace OneCollect.Perf
open Theory Circular

/-- The words at 1024, 1032 and 1048 of the metadata page, and the data area behind it. -/
structure Pages where
  head : Nat := 0
  tail : Nat := 0
  dataSize : Nat
  data : Bytes
  deriving Repr

/-! ## Reading -/

structure CpuRingCursor where
  start : Nat := 0
  stop : Nat := 0
  deriving DecidableEq, Repr

namespace CpuRingCursor

def set (_self : CpuRingCursor) (start stop : Nat) : CpuRingCursor := ⟨start, stop⟩

def advance (self : CpuRingCursor) (len : Nat) : Exec CpuRingCursor := do
  let start ← addU64 self.start len
  .ok { self with start }

def more (self : CpuRingCursor) : Bool := self.start < self.stop

end CpuRingCursor

theorem CpuRingCursor.advance_of_lt {cursor : CpuRingCursor} {len : Nat}
    (h : cursor.start + len < 2 ^ 64) :
    cursor.advance len = .ok { cursor with start := cursor.start + len } := by
  rw [CpuRingCursor.advance, addU64, if_pos h, ok_bind]

structure CpuRingReader where
  dataSize : Nat
  dataMask : Nat
  deriving Repr

namespace CpuRingReader

def new (pages : Pages) : Exec CpuRingReader := do
  let dataMask ← subU64 pages.dataSize 1
  .ok ⟨pages.dataSize, dataMask⟩

def beginReading (_self : CpuRingReader) (pages : Pages) (cursor : CpuRingCursor) :
    CpuRingCursor :=
  cursor.set pages.tail pages.head

def peekHeader (self : CpuRingReader) (pages : Pages) (cursor : CpuRingCursor) :
    Exec (Nat × Header) := do
  let start := cursor.start &&& self.dataMask
  let headerSlice ← slice pages.data start (start + Header.dataOffset)
  let header ← Header.fromSlice headerSlice
  .ok (start, header)

def peekU64 (self : CpuRingReader) (pages : Pages) (cursor : CpuRingCursor) (offset : Nat) :
    Exec Nat := do
  let position ← addU64 cursor.start offset
  readLe 8 pages.data (position &&& self.dataMask)

/-- `read`, with the cursor behind the record. -/
def read (self : CpuRingReader) (pages : Pages) (cursor : CpuRingCursor) :
    Exec (Bytes × CpuRingCursor) := do
  let (headerStart, header) ← self.peekHeader pages cursor
  let dataEnd := headerStart + header.size
  let cursor ← cursor.advance header.size
  if dataEnd ≤ self.dataSize then
    let record ← slice pages.data headerStart dataEnd
    .ok (record, cursor)
  else
    let first ← slice pages.data headerStart pages.data.length
    let remaining ← subU64 header.size first.length
    let second ← slice pages.data 0 remaining
    .ok (first ++ second, cursor)

def endReading (_self : CpuRingReader) (pages : Pages) (cursor : CpuRingCursor) : Pages :=
  { pages with tail := cursor.start }

end CpuRingReader

/-! ## Writing -/

/-- `copy_nonoverlapping` into the data area. -/
def copyTo (data : Bytes) (position : Nat) (bytes : Bytes) : Exec Bytes :=
  if position + bytes.length ≤ data.length then .ok (overwrite data position bytes) else panicked

structure InProcessRingBufWriter where
  dataSize : Nat
  dataMask : Nat
  head : Nat
  lostCount : Nat := 0
  deriving Repr

/-- What a call of the writer does to the ring: a record stored for its caller, a record of
lost events, a record dropped. -/
inductive Event where
  | stored (record : Bytes)
  | lost (record : Bytes)
  | dropped
  deriving DecidableEq, Repr

/-- A call of `write` is over, or it waits for space for its record. -/
inductive WriteCall where
  | done
  | waiting (record : Bytes)
  deriving DecidableEq, Repr

structure Outcome where
  writer : InProcessRingBufWriter
  pages : Pages
  call : WriteCall := .done
  events : List Event := []
  deriving Repr

namespace InProcessRingBufWriter

def lostRecordSize : Nat := 48

def available (self : InProcessRingBufWriter) (pages : Pages) : Exec Nat := do
  let used ← subU64 self.head pages.tail
  subU64 self.dataSize used

/-- The bytes of a record, in one piece or two. -/
def writeRecord (self : InProcessRingBufWriter) (data : Bytes) (writePos : Nat)
    (record : Bytes) : Exec Bytes :=
  if writePos + record.length ≤ self.dataSize then copyTo data writePos record
  else do
    let firstPart ← subU64 self.dataSize writePos
    let data ← copyTo data writePos (record.take firstPart)
    copyTo data 0 (record.drop firstPart)

/-- The zeros behind a record that ends at `position`. -/
def writePadding (self : InProcessRingBufWriter) (data : Bytes) (position padding : Nat) :
    Exec Bytes :=
  if padding > 0 then
    let paddingStart := position &&& self.dataMask
    if paddingStart + padding ≤ self.dataSize then
      copyTo data paddingStart (List.replicate padding 0)
    else do
      let firstPart ← subU64 self.dataSize paddingStart
      let data ← copyTo data paddingStart (List.replicate firstPart 0)
      copyTo data 0 (List.replicate (padding - firstPart) 0)
  else .ok data

def writeRaw (self : InProcessRingBufWriter) (pages : Pages) (record : Bytes)
    (alignedLen : Nat) : Exec (InProcessRingBufWriter × Pages) := do
  let writePos := self.head &&& self.dataMask
  let data ← self.writeRecord pages.data writePos record
  let padding ← subU64 alignedLen record.length
  let data ← self.writePadding data (writePos + record.length) padding
  let head ← addU64 self.head alignedLen
  .ok ({ self with head }, { pages with data, head })

/-- The payload of a record of lost events; `now` is the time stamp. -/
def lostPayload (lostCount now : Nat) : Bytes :=
  toLe 8 0 ++ toLe 8 lostCount ++ toLe 8 0 ++ toLe 8 now ++ toLe 8 0

def flushPendingLost (self : InProcessRingBufWriter) (pages : Pages) (now : Nat) :
    Exec Outcome := do
  if self.lostCount = 0 then .ok { writer := self, pages } else
  let available ← self.available pages
  if available < lostRecordSize then .ok { writer := self, pages } else
  let record ← Header.write recordLost 0 (lostPayload self.lostCount now) []
  let self := { self with lostCount := 0 }
  let (writer, pages) ← self.writeRaw pages record (alignToPerfRecord record.length)
  .ok { writer, pages, events := [.lost record] }

def flush (self : InProcessRingBufWriter) (pages : Pages) (now : Nat) : Exec Outcome :=
  self.flushPendingLost pages now

def drop (self : InProcessRingBufWriter) (pages : Pages) : Exec Outcome := do
  let lostCount ← addU64 self.lostCount 1
  .ok { writer := { self with lostCount }, pages, events := [.dropped] }

/-- The space `write` asks for: the record and, when losses are pending, their record. -/
def needed (self : InProcessRingBufWriter) (record : Bytes) : Nat :=
  alignToPerfRecord record.length + if self.lostCount > 0 then lostRecordSize else 0

/-- The end of `write`, once there is space. -/
def store (self : InProcessRingBufWriter) (pages : Pages) (record : Bytes) (now : Nat) :
    Exec Outcome := do
  let flushed ← self.flushPendingLost pages now
  let (writer, pages) ← flushed.writer.writeRaw flushed.pages record
    (alignToPerfRecord record.length)
  .ok { writer, pages, events := flushed.events ++ [.stored record] }

/-- `write` up to `wait_for_space`; without a wait, to its end. -/
def write (self : InProcessRingBufWriter) (pages : Pages) (record : Bytes) (now : Nat) :
    Exec Outcome := do
  if alignToPerfRecord record.length > self.dataSize then self.drop pages else
  let available ← self.available pages
  if available < self.needed record then
    .ok { writer := self, pages, call := .waiting record }
  else self.store pages record now

/-- One turn of the loop in `wait_for_space` and, when it was the last one, the rest of
`write`. -/
def poll (self : InProcessRingBufWriter) (pages : Pages) (record : Bytes) (timedOut : Bool)
    (now : Nat) : Exec Outcome := do
  let available ← self.available pages
  if available ≥ self.needed record then self.store pages record now
  else if timedOut then self.drop pages
  else .ok { writer := self, pages, call := .waiting record }

end InProcessRingBufWriter

/-- The page size of the system: a power of two, of at least 4096 bytes. -/
structure PageSize where
  bits : Nat
  twelve_le : 12 ≤ bits

def PageSize.bytes (self : PageSize) : Nat := 2 ^ self.bits

structure InProcessRingBuf where
  pages : Pages
  dataSize : Nat
  dataMask : Nat
  head : Nat
  deriving Repr

namespace InProcessRingBuf

def new (pageSize : PageSize) (dataPages : Nat) : Exec InProcessRingBuf := do
  let dataSize := dataPages.nextPowerOfTwo * pageSize.bytes
  let dataMask ← subU64 dataSize 1
  .ok { pages := { dataSize, data := List.replicate dataSize 0 }, dataSize, dataMask, head := 0 }

def createReader (self : InProcessRingBuf) : Exec CpuRingReader := CpuRingReader.new self.pages

def writer (self : InProcessRingBuf) : InProcessRingBufWriter :=
  { dataSize := self.dataSize, dataMask := self.dataMask, head := self.head }

end InProcessRingBuf

/-! ## Records -/

/-- What `Header.write` builds. -/
def Built (record : Bytes) : Prop :=
  ∃ entryType misc payload, Header.write entryType misc payload [] = .ok record

theorem Built.length_bounds {record : Bytes} (h : Built record) :
    8 ≤ record.length ∧ record.length < 2 ^ 16 ∧ record.length % 8 = 0 := by
  obtain ⟨entryType, misc, payload, hwrite⟩ := h
  obtain ⟨hfits, rfl⟩ := write_eq_ok.mp hwrite
  have hb := alignToPerfRecord_bounds (payload.length + 8)
  rw [List.nil_append, length_recordOf _ _ hb.1]
  unfold Fits at hfits
  omega

/-- The size in the header of a built record is its length. -/
theorem Built.header {record : Bytes} (h : Built record) :
    ∃ header, Header.fromSlice (record.take 8) = .ok header ∧ header.size = record.length := by
  obtain ⟨entryType, misc, payload, hwrite⟩ := h
  obtain ⟨hfits, rfl⟩ := write_eq_ok.mp hwrite
  have hb := alignToPerfRecord_bounds (payload.length + 8)
  rw [List.nil_append, length_recordOf _ _ hb.1]
  obtain ⟨rest, hrest⟩ := fromSlice_recordOf entryType misc payload hfits (Nat.le_refl 8)
  exact ⟨_, hrest, rfl⟩

/-- A built record is told by its first bytes where it ends. -/
theorem built_append_inj {record record' : Bytes} {rest rest' : Bytes} (h : Built record)
    (h' : Built record') (heq : record ++ rest = record' ++ rest') :
    record = record' ∧ rest = rest' := by
  have hb := h.length_bounds
  have hb' := h'.length_bounds
  obtain ⟨header, hheader, hsize⟩ := h.header
  obtain ⟨header', hheader', hsize'⟩ := h'.header
  have htake : record.take 8 = record'.take 8 := by
    rw [← @List.take_append_of_le_length _ record rest _ hb.1, heq,
      List.take_append_of_le_length hb'.1]
  rw [htake, hheader'] at hheader
  cases hheader
  exact List.append_inj heq (hsize.symm.trans hsize')

theorem built_flatten_inj {records records' : List Bytes} (h : ∀ record ∈ records, Built record)
    (h' : ∀ record ∈ records', Built record) (heq : records.flatten = records'.flatten) :
    records = records' := by
  induction records generalizing records' with
  | nil =>
    cases records' with
    | nil => rfl
    | cons record' records' =>
      have hb := (h' record' (by simp)).length_bounds
      have hlen := congrArg List.length heq
      simp only [List.flatten_nil, List.length_nil, List.flatten_cons, List.length_append] at hlen
      omega
  | cons record records ih =>
    have hr := h record (by simp)
    cases records' with
    | nil =>
      have hb := hr.length_bounds
      have hlen := congrArg List.length heq
      simp only [List.flatten_nil, List.length_nil, List.flatten_cons, List.length_append] at hlen
      omega
    | cons record' records' =>
      obtain ⟨rfl, hrest⟩ := built_append_inj hr (h' record' (by simp)) heq
      rw [ih (fun r hr => h r (by simp [hr])) (fun r hr => h' r (by simp [hr])) hrest]

/-- The header slice of a record gives the type its first four bytes name. -/
theorem fromSlice_entryType {record : Bytes} {header : Header}
    (hheader : Header.fromSlice (record.take 8) = .ok header) :
    header.entryType = fromLe (record.take 4) := by
  obtain ⟨entryType, hentry, hheader⟩ := bind_eq_ok.mp hheader
  obtain ⟨misc, -, hheader⟩ := bind_eq_ok.mp hheader
  obtain ⟨size, -, hheader⟩ := bind_eq_ok.mp hheader
  obtain ⟨data, -, hheader⟩ := bind_eq_ok.mp hheader
  cases hheader
  obtain ⟨-, rfl⟩ := readLe_eq_ok.mp hentry
  rw [List.drop_zero, List.take_take]
  rfl

/-! ## The area -/

/-- A data area of `size` bytes, a power of two of at least a page. -/
def IsArea (size : Nat) : Prop := ∃ k, 12 ≤ k ∧ size = 2 ^ k

theorem IsArea.bounds {size : Nat} (h : IsArea size) : 4096 ≤ size ∧ size % 8 = 0 := by
  obtain ⟨k, hk, rfl⟩ := h
  have hsplit : 2 ^ k = 4096 * 2 ^ (k - 12) := by
    rw [show (4096 : Nat) = 2 ^ 12 by rfl, ← Nat.pow_add]
    congr 1
    omega
  have := Nat.two_pow_pos (k - 12)
  omega

theorem IsArea.mask {size : Nat} (h : IsArea size) (x : Nat) : x &&& (size - 1) = x % size := by
  obtain ⟨k, -, rfl⟩ := h
  exact Nat.and_two_pow_sub_one_eq_mod x k

section Area

variable {size : Nat} {data : Bytes}

/-- The two ways of copying into the area are one write. -/
theorem copy_eq_put (hlen : data.length = size) (hpos : 0 < size) (start : Nat) (bytes : Bytes)
    (hle : bytes.length ≤ size) :
    (if start % size + bytes.length ≤ size then copyTo data (start % size) bytes
      else do
        let firstPart ← subU64 size (start % size)
        let data ← copyTo data (start % size) (bytes.take firstPart)
        copyTo data 0 (bytes.drop firstPart)) = .ok (put data start bytes) := by
  subst hlen
  have hmod : start % data.length < data.length := Nat.mod_lt _ hpos
  by_cases hfit : start % data.length + bytes.length ≤ data.length
  · rw [if_pos hfit, copyTo, if_pos hfit, put_eq_overwrite hfit]
  · have hfirst : (bytes.take (data.length - start % data.length)).length =
        data.length - start % data.length := by
      rw [List.length_take]; omega
    have hover : (overwrite data (start % data.length)
        (bytes.take (data.length - start % data.length))).length = data.length := by
      simp only [overwrite, List.length_append, List.length_take, List.length_drop]
      omega
    rw [if_neg hfit, subU64, if_pos (Nat.le_of_lt hmod), ok_bind, copyTo,
      if_pos (by rw [hfirst]; omega), ok_bind, copyTo,
      if_pos (by rw [hover, List.length_drop]; omega), put_eq_wrapped (by omega) hle hpos]

theorem put_replicate_take {firstPart padding : Nat} (h : firstPart ≤ padding) :
    (List.replicate padding (0 : UInt8)).take firstPart = List.replicate firstPart 0 := by
  rw [List.take_replicate, Nat.min_eq_left h]

variable {w : InProcessRingBufWriter} {pages : Pages} {record : Bytes}

theorem writePadding_eq (hs : w.dataSize = size) (hm : w.dataMask = size - 1) (ha : IsArea size)
    (hlen : data.length = size) (start padding : Nat) (hle : padding ≤ size) (position : Nat)
    (hp : position % size = start % size) :
    w.writePadding data position padding = .ok (put data start (List.replicate padding 0)) := by
  have hpos : 0 < size := by have := ha.bounds; omega
  have hmod : start % size < size := Nat.mod_lt _ hpos
  unfold InProcessRingBufWriter.writePadding
  rw [hs, hm, ha.mask, hp]
  by_cases hzero : padding > 0
  · have hcopy := copy_eq_put hlen hpos start (List.replicate padding 0)
      (by rw [List.length_replicate]; exact hle)
    rw [List.length_replicate] at hcopy
    rw [if_pos hzero, ← hcopy]
    by_cases hfit : start % size + padding ≤ size
    · rw [if_pos hfit, if_pos hfit]
    · rw [if_neg hfit, if_neg hfit, subU64, if_pos (Nat.le_of_lt hmod), ok_bind, ok_bind,
        put_replicate_take (by omega), List.drop_replicate]
  · have : padding = 0 := by omega
    subst this
    rw [if_neg hzero, List.replicate_zero, put_nil]

/-- **The writer's copy** is one write of the record and its zeros at the head. -/
theorem writeRaw_eq_ok (hs : w.dataSize = size) (hm : w.dataMask = size - 1) (ha : IsArea size)
    (hlen : pages.data.length = size) {alignedLen : Nat} (hrecord : record.length ≤ alignedLen)
    (hle : alignedLen ≤ size) {out : InProcessRingBufWriter × Pages} :
    w.writeRaw pages record alignedLen = .ok out ↔
      w.head + alignedLen < 2 ^ 64 ∧
        out = ({ w with head := w.head + alignedLen },
          { pages with
            data := put pages.data w.head
              (record ++ List.replicate (alignedLen - record.length) 0),
            head := w.head + alignedLen }) := by
  have hpos : 0 < size := by have := ha.bounds; omega
  have hput : (put pages.data w.head record).length = size := by rw [length_put, hlen]
  have hpad := writePadding_eq hs hm ha hput (w.head + record.length)
    (alignedLen - record.length) (by omega) (w.head % size + record.length)
    (Nat.mod_add_mod _ _ _)
  have hcopy : w.writeRecord pages.data (w.head % size) record =
      .ok (put pages.data w.head record) := by
    unfold InProcessRingBufWriter.writeRecord
    rw [hs]
    exact copy_eq_put hlen hpos w.head record (by omega)
  unfold InProcessRingBufWriter.writeRaw
  simp only [hm, ha.mask, hcopy, ok_bind, subU64, if_pos hrecord, hpad, ← put_append]
  rw [bind_eq_ok]
  constructor
  · rintro ⟨head, hhead, hout⟩
    obtain ⟨hlt, rfl⟩ := addU64_eq_ok.mp hhead
    cases hout
    exact ⟨hlt, rfl⟩
  · rintro ⟨hlt, rfl⟩
    exact ⟨_, addU64_eq_ok.mpr ⟨hlt, rfl⟩, rfl⟩

variable {reader : CpuRingReader} {cursor : CpuRingCursor}

/-- The header of a built record at the cursor does not wrap: positions and the size of the
area are multiples of eight. -/
theorem peekHeader_of_holds (hm : reader.dataMask = size - 1) (ha : IsArea size)
    (hlen : pages.data.length = size) (hstart : cursor.start % 8 = 0) (hr : Built record)
    (hh : Holds pages.data cursor.start record) {header : Header}
    (hheader : Header.fromSlice (record.take 8) = .ok header) :
    reader.peekHeader pages cursor = .ok (cursor.start % size, header) := by
  have hb := ha.bounds
  have hrb := hr.length_bounds
  have hmod : cursor.start % size < size := Nat.mod_lt _ (by omega)
  have hmod8 : cursor.start % size % 8 = 0 := by
    have hdvd : 8 ∣ size := Nat.dvd_of_mod_eq_zero hb.2
    rw [Nat.mod_mod_of_dvd _ hdvd, hstart]
  have hfirst : Holds pages.data cursor.start (record.take 8) := by
    rw [← List.take_append_drop 8 record] at hh
    exact (holds_append.mp hh).1
  have hl8 : (record.take 8).length = 8 := by rw [List.length_take]; omega
  have hslice : slice pages.data (cursor.start % size) (cursor.start % size + 8) =
      .ok (record.take 8) := by
    have hget := hfirst.take_drop (by rw [hlen, hl8]; omega)
    rw [hlen, hl8] at hget
    exact slice_eq_ok.mpr ⟨⟨by omega, by omega⟩, by rw [Nat.add_sub_cancel_left, hget]⟩
  unfold CpuRingReader.peekHeader
  rw [hm, ha.mask]
  simp only [Header.dataOffset, hslice, hheader, ok_bind]

/-- A word of a record at the cursor, at a multiple of eight, does not wrap. -/
theorem peekU64_of_holds (hm : reader.dataMask = size - 1) (ha : IsArea size)
    (hlen : pages.data.length = size) (hstart : cursor.start % 8 = 0)
    (hh : Holds pages.data cursor.start record) {offset : Nat} (hoff : offset % 8 = 0)
    (hle : offset + 8 ≤ record.length) (hlt : cursor.start + record.length < 2 ^ 64) :
    reader.peekU64 pages cursor offset = .ok (fromLe ((record.drop offset).take 8)) := by
  have hb := ha.bounds
  have hmod : (cursor.start + offset) % size < size := Nat.mod_lt _ (by omega)
  have hmod8 : (cursor.start + offset) % size % 8 = 0 := by
    have hdvd : 8 ∣ size := Nat.dvd_of_mod_eq_zero hb.2
    rw [Nat.mod_mod_of_dvd _ hdvd]
    omega
  have hpart := hh.part offset 8
  have hl8 : ((record.drop offset).take 8).length = 8 := by
    rw [List.length_take, List.length_drop]; omega
  have hget := hpart.take_drop (by rw [hlen, hl8]; omega)
  rw [hlen, hl8] at hget
  unfold CpuRingReader.peekU64
  rw [addU64, if_pos (by omega), ok_bind, hm, ha.mask]
  exact readLe_eq_ok.mpr ⟨by omega, by rw [hget]⟩

/-- **The reader's copy** gives back the built record that lies at the cursor. -/
theorem read_of_holds (hs : reader.dataSize = size) (hm : reader.dataMask = size - 1)
    (ha : IsArea size) (hlen : pages.data.length = size) (hstart : cursor.start % 8 = 0)
    (hr : Built record) (hh : Holds pages.data cursor.start record) (hle : record.length ≤ size)
    (hlt : cursor.start + record.length < 2 ^ 64) :
    reader.read pages cursor =
      .ok (record, { cursor with start := cursor.start + record.length }) := by
  have hpos : 0 < size := by have := ha.bounds; omega
  have hmod : cursor.start % size < size := Nat.mod_lt _ hpos
  obtain ⟨header, hheader, hsize⟩ := hr.header
  have hpeek := peekHeader_of_holds hm ha hlen hstart hr hh hheader
  have hadv : cursor.advance header.size =
      .ok { cursor with start := cursor.start + record.length } := by
    rw [hsize]
    exact CpuRingCursor.advance_of_lt hlt
  unfold CpuRingReader.read
  rw [hpeek]
  simp only [ok_bind, hadv]
  rw [hsize, hs]
  by_cases hfit : cursor.start % size + record.length ≤ size
  · have hread : slice pages.data (cursor.start % size) (cursor.start % size + record.length) =
        .ok record := by
      have := hh.take_drop (by rw [hlen]; exact hfit)
      rw [hlen] at this
      exact slice_eq_ok.mpr ⟨⟨by omega, by omega⟩, by rw [Nat.add_sub_cancel_left, this]⟩
    rw [if_pos hfit, hread, ok_bind]
  · have hwrap := hh.drop_take (by rw [hlen]; omega) (by rw [hlen]; exact hle)
      (by rw [hlen]; exact hpos)
    rw [hlen] at hwrap
    have hfirst : slice pages.data (cursor.start % size) pages.data.length =
        .ok (pages.data.drop (cursor.start % size)) := by
      refine slice_eq_ok.mpr ⟨⟨by omega, Nat.le_refl _⟩, ?_⟩
      rw [List.take_of_length_le (by rw [List.length_drop])]
    have hsub : subU64 record.length (pages.data.drop (cursor.start % size)).length =
        .ok (record.length - (size - cursor.start % size)) := by
      refine subU64_eq_ok.mpr ⟨?_, ?_⟩ <;> rw [List.length_drop, hlen]
      omega
    have hsecond : slice pages.data 0 (record.length - (size - cursor.start % size)) =
        .ok (pages.data.take (record.length - (size - cursor.start % size))) :=
      slice_eq_ok.mpr ⟨⟨Nat.zero_le _, by omega⟩, rfl⟩
    rw [if_neg hfit, hfirst, ok_bind, hsub, ok_bind, hsecond, ok_bind, hwrap]

end Area

end OneCollect.Perf
