import OneCollect.Perf.RingBuf
import OneCollect.Theory.Transition

/-! An in-process ring in use: writers handed out one after another, and a reader that drains
the ring in batches, their calls interleaved in any order.

`Tracks` ties the bytes of the area to the records stored and not yet given back. Every
call keeps it as long as a writer that writes continues at the published head
(`inv_step`). A single writer always does, which gives the order of the records
(`ring_fifo`). A writer handed out later starts again at the head the ring was created
with, and the pointers can go back (`head_can_decrease`). -/

namespace OneCollect.Perf
open Theory Circular

/-! ## What happened -/

namespace Event

def record? : Event → Option Bytes
  | stored record => some record
  | lost record => some record
  | dropped => none

/-- The count a record of lost events carries behind its header and id. -/
def lostCount : Event → Nat
  | lost record => fromLe ((record.drop 16).take 8)
  | _ => 0

end Event

/-- The records stored, in order. -/
def storedIn (history : List Event) : List Bytes := history.filterMap Event.record?

def lostIn (history : List Event) : Nat := (history.map Event.lostCount).sum

def droppedIn (history : List Event) : Nat := history.count .dropped

@[simp] theorem storedIn_append (xs ys : List Event) :
    storedIn (xs ++ ys) = storedIn xs ++ storedIn ys := List.filterMap_append

@[simp] theorem storedIn_nil : storedIn [] = [] := rfl

@[simp] theorem storedIn_dropped : storedIn [.dropped] = [] := rfl

theorem storedIn_singleton {e : Event} {record : Bytes} (h : e.record? = some record) :
    storedIn [e] = [record] := by
  simp [storedIn, h]

@[simp] theorem lostIn_append (xs ys : List Event) : lostIn (xs ++ ys) = lostIn xs + lostIn ys := by
  simp [lostIn]

@[simp] theorem droppedIn_append (xs ys : List Event) :
    droppedIn (xs ++ ys) = droppedIn xs + droppedIn ys := List.count_append

/-! ## Steps -/

/-- The last three fields are what the callers have seen: the events at the writers, and the
records of the current batch and of the completed ones. -/
structure Session where
  ring : InProcessRingBuf
  reader : CpuRingReader
  writer : Option InProcessRingBufWriter := none
  call : WriteCall := .done
  cursor : CpuRingCursor := {}
  history : List Event := []
  batch : List Bytes := []
  completed : List Bytes := []

namespace Session

def new (pageSize : PageSize) (dataPages : Nat) : Exec Session := do
  let ring ← InProcessRingBuf.new pageSize dataPages
  let reader ← ring.createReader
  .ok { ring, reader }

/-- The session after a call of its writer. -/
def apply (s : Session) (out : Outcome) : Session :=
  { s with
    ring := { s.ring with pages := out.pages }
    writer := some out.writer
    call := out.call
    history := s.history ++ out.events }

inductive Action where
  | takeWriter
  | write (record : Bytes) (now : Nat)
  | poll (timedOut : Bool) (now : Nat)
  | flush (now : Nat)
  | beginReading
  | read
  | endReading

/-- The calls. A writer is handed out, and writes or flushes, when the last call is over; a
waiting call polls. -/
inductive Step (s : Session) : Action → Session → Prop
  | takeWriter (hc : s.call = .done) : Step s .takeWriter { s with writer := some s.ring.writer }
  | write {w : InProcessRingBufWriter} {record : Bytes} {now : Nat} {out : Outcome}
      (hw : s.writer = some w) (hc : s.call = .done) (hb : Built record)
      (hrun : w.write s.ring.pages record now = .ok out) : Step s (.write record now) (s.apply out)
  | poll {w : InProcessRingBufWriter} {record : Bytes} {timedOut : Bool} {now : Nat}
      {out : Outcome} (hw : s.writer = some w) (hc : s.call = .waiting record)
      (hrun : w.poll s.ring.pages record timedOut now = .ok out) :
      Step s (.poll timedOut now) (s.apply out)
  | flush {w : InProcessRingBufWriter} {now : Nat} {out : Outcome}
      (hw : s.writer = some w) (hc : s.call = .done)
      (hrun : w.flush s.ring.pages now = .ok out) : Step s (.flush now) (s.apply out)
  | beginReading : Step s .beginReading
      { s with cursor := s.reader.beginReading s.ring.pages s.cursor, batch := [] }
  | read {record : Bytes} {cursor : CpuRingCursor} (hm : s.cursor.more = true)
      (hrun : s.reader.read s.ring.pages s.cursor = .ok (record, cursor)) :
      Step s .read { s with cursor, batch := s.batch ++ [record] }
  | endReading : Step s .endReading
      { s with
        ring := { s.ring with pages := s.reader.endReading s.ring.pages s.cursor }
        completed := s.completed ++ s.batch
        batch := [] }

/-- An action of the writer at hand. -/
def Action.writes : Action → Bool
  | .write _ _ => true
  | .poll _ _ => true
  | .flush _ => true
  | _ => false

end Session

open Session

def ringSystem (pageSize : PageSize) (dataPages : Nat) : System Session Action :=
  ⟨fun s => Session.new pageSize dataPages = .ok s, Session.Step⟩

/-- One writer for the whole run. -/
def oneWriter (pageSize : PageSize) (dataPages : Nat) : System Session Action :=
  (ringSystem pageSize dataPages).restrict fun s a => a = .takeWriter → s.writer = none

/-- The writer at hand continues at the published head. -/
def Continues (s : Session) : Prop :=
  ∀ w, s.writer = some w → w.head = s.ring.pages.head

/-- Any number of writers, of which only those write that continue at the published head. -/
def continuing (pageSize : PageSize) (dataPages : Nat) : System Session Action :=
  (ringSystem pageSize dataPages).restrict fun s a => a.writes = true → Continues s

/-! ## The invariant -/

/-- The records of the area: those of the current batch, then `rest`. -/
structure Tracks (size : Nat) (s : Session) (rest : List Bytes) : Prop where
  area : IsArea size
  dataLen : s.ring.pages.data.length = size
  built : ∀ record ∈ s.batch ++ rest, Built record
  stored : storedIn s.history = s.completed ++ (s.batch ++ rest)
  holds : Holds s.ring.pages.data s.ring.pages.tail (s.batch ++ rest).flatten
  head_eq : s.ring.pages.head = s.ring.pages.tail + (s.batch ++ rest).flatten.length
  head_le : s.ring.pages.head ≤ s.ring.pages.tail + size
  head_lt : s.ring.pages.head < 2 ^ 64
  tail_mod : s.ring.pages.tail % 8 = 0
  start_eq : s.cursor.start = s.ring.pages.tail + s.batch.flatten.length
  stop_le : s.cursor.stop ≤ s.ring.pages.head
  waiting : ∀ record, s.call = .waiting record → Built record

/-- The writer belongs to a ring of this size. -/
structure InProcessRingBufWriter.Sound (size : Nat) (w : InProcessRingBufWriter) : Prop where
  size_eq : w.dataSize = size
  mask_eq : w.dataMask = size - 1
  lost_lt : w.lostCount < 2 ^ 64

structure Inv (size : Nat) (s : Session) : Prop where
  tracks : ∃ rest, Tracks size s rest
  writer : ∀ w, s.writer = some w → w.Sound size
  ring_writer : s.ring.writer.Sound size
  ring_head : s.ring.head = 0
  reader_size : s.reader.dataSize = size
  reader_mask : s.reader.dataMask = size - 1

/-- What holds after a call that a sound writer made at the published head. -/
structure Outcome.Sound (size : Nat) (s : Session) (w : InProcessRingBufWriter) (out : Outcome) :
    Prop where
  tracks : ∃ rest, Tracks size (s.apply out) rest
  writer : out.writer.Sound size
  continues : out.writer.head = out.pages.head
  tail_eq : out.pages.tail = s.ring.pages.tail
  head_le : s.ring.pages.head ≤ out.pages.head
  counts : lostIn out.events + out.writer.lostCount = w.lostCount + droppedIn out.events

theorem flatten_mod {records : List Bytes} (h : ∀ record ∈ records, Built record) :
    records.flatten.length % 8 = 0 := by
  induction records with
  | nil => rfl
  | cons record records ih =>
    have hr := (h record (by simp)).length_bounds
    have := ih fun r hr => h r (by simp [hr])
    rw [List.flatten_cons, List.length_append]
    omega

section Writer

variable {size : Nat} {s : Session} {w : InProcessRingBufWriter} {rest : List Bytes}

/-- A call that touches nothing. -/
theorem sound_idle (ht : Tracks size s rest) (hw : w.Sound size) (hc : w.head = s.ring.pages.head)
    {call : WriteCall} (hcall : ∀ record, call = .waiting record → Built record) :
    Outcome.Sound size s w { writer := w, pages := s.ring.pages, call } where
  tracks := by
    refine ⟨rest, ht.area, ht.dataLen, ht.built, ?_, ht.holds, ht.head_eq, ht.head_le, ht.head_lt,
      ht.tail_mod, ht.start_eq, ht.stop_le, hcall⟩
    simp [Session.apply, ht.stored]
  writer := hw
  continues := hc
  tail_eq := rfl
  head_le := Nat.le_refl _
  counts := by simp [lostIn, droppedIn]

/-- A dropped record only counts. -/
theorem sound_drop (ht : Tracks size s rest) (hw : w.Sound size) (hc : w.head = s.ring.pages.head)
    {out : Outcome} (hrun : w.drop s.ring.pages = .ok out) : out.Sound size s w := by
  obtain ⟨lostCount, hlost, hout⟩ := bind_eq_ok.mp hrun
  obtain ⟨hlt, rfl⟩ := addU64_eq_ok.mp hlost
  cases hout
  constructor
  · refine ⟨rest, ht.area, ht.dataLen, ht.built, ?_, ht.holds, ht.head_eq, ht.head_le, ht.head_lt,
      ht.tail_mod, ht.start_eq, ht.stop_le, ?_⟩
    · simp [Session.apply, ht.stored]
    · simp [Session.apply]
  · exact ⟨hw.size_eq, hw.mask_eq, hlt⟩
  · exact hc
  · rfl
  · exact Nat.le_refl _
  · simp [lostIn, droppedIn, Event.lostCount]

/-- A built record written at the head, into space that is free, joins the records of the
area. -/
theorem tracks_writeRaw (ht : Tracks size s rest) (hw : w.Sound size)
    (hc : w.head = s.ring.pages.head) {record : Bytes} (hb : Built record)
    (hfree : s.ring.pages.head + record.length ≤ s.ring.pages.tail + size)
    {w' : InProcessRingBufWriter} {pages : Pages}
    (hrun : w.writeRaw s.ring.pages record (alignToPerfRecord record.length) = .ok (w', pages))
    {e : Event} (he : e.record? = some record) :
    w' = { w with head := w.head + record.length } ∧ pages.head = w'.head ∧
      pages.tail = s.ring.pages.tail ∧
      Tracks size (s.apply { writer := w', pages, events := [e] }) (rest ++ [record]) := by
  have hrb := hb.length_bounds
  have hhead := ht.head_eq
  rw [alignToPerfRecord_of_mod hrb.2.2] at hrun
  obtain ⟨hlt, hout⟩ := (writeRaw_eq_ok hw.size_eq hw.mask_eq ht.area ht.dataLen
    (Nat.le_refl _) (by omega)).mp hrun
  cases hout
  rw [Nat.sub_self, List.replicate_zero, List.append_nil]
  refine ⟨rfl, rfl, rfl, ht.area, ?_, ?_, ?_, ?_, ?_, ?_, ?_, ht.tail_mod, ht.start_eq, ?_, ?_⟩
  · simp [Session.apply, ht.dataLen]
  · intro r hr
    rw [← List.append_assoc] at hr
    cases List.mem_append.mp hr with
    | inl h => exact ht.built r h
    | inr h => rw [List.mem_singleton.mp h]; exact hb
  · simp [Session.apply, storedIn_singleton he, ht.stored]
  · -- the old records lie behind the head, the new one from it on
    rw [← List.append_assoc, List.flatten_append, holds_append]
    simp only [Session.apply, List.flatten_cons, List.flatten_nil, List.append_nil]
    rw [← hhead, hc]
    have hlen := ht.dataLen
    exact ⟨ht.holds.put (by omega) (by omega), holds_put (by omega)⟩
  · simp only [Session.apply, List.flatten_append, List.length_append, List.flatten_cons,
      List.flatten_nil, List.length_nil] at hhead ⊢
    omega
  · simp only [Session.apply]
    omega
  · exact hlt
  · have := ht.stop_le
    simp only [Session.apply]
    omega
  · simp [Session.apply]

/-- The record of lost events. -/
theorem lostRecord_spec {lostCount now : Nat} (hlt : lostCount < 2 ^ 64) {record : Bytes}
    (hwrite : Header.write recordLost 0 (InProcessRingBufWriter.lostPayload lostCount now) [] =
      .ok record) :
    Built record ∧ record.length = InProcessRingBufWriter.lostRecordSize ∧
      (Event.lost record).lostCount = lostCount := by
  have hb : Built record := ⟨_, _, _, hwrite⟩
  obtain ⟨-, rfl⟩ := write_eq_ok.mp hwrite
  refine ⟨hb, ?_, ?_⟩
  · rw [List.nil_append, length_recordOf _ _ (by simp [InProcessRingBufWriter.lostPayload,
      alignToPerfRecord, perfRecordAlignment])]
    simp [InProcessRingBufWriter.lostPayload, InProcessRingBufWriter.lostRecordSize,
      alignToPerfRecord, perfRecordAlignment]
  · -- the count stands behind the header and the id
    have hsplit : ∃ rest, ([] : Bytes) ++ recordOf recordLost 0
        (alignToPerfRecord ((InProcessRingBufWriter.lostPayload lostCount now).length + 8))
        (InProcessRingBufWriter.lostPayload lostCount now) =
        (toLe 4 recordLost ++ toLe 2 0 ++ toLe 2 48 ++ toLe 8 0) ++ toLe 8 lostCount ++ rest :=
      ⟨toLe 8 0 ++ toLe 8 now ++ toLe 8 0, by
        simp [recordOf, InProcessRingBufWriter.lostPayload, alignToPerfRecord,
          perfRecordAlignment]⟩
    obtain ⟨rest, hrest⟩ := hsplit
    have hcount := readLe_append (toLe 4 recordLost ++ toLe 2 0 ++ toLe 2 48 ++ toLe 8 0)
      (toLe 8 lostCount) rest (length_toLe 8 _) rfl
    rw [← hrest, fromLe_toLe_of_lt hlt] at hcount
    exact (readLe_eq_ok.mp hcount).2.symm

theorem available_eq_ok {n : Nat} (hw : w.Sound size) (hc : w.head = s.ring.pages.head)
    (h : w.available s.ring.pages = .ok n) :
    s.ring.pages.head + n = s.ring.pages.tail + size := by
  obtain ⟨used, hused, hn⟩ := bind_eq_ok.mp h
  obtain ⟨hle, rfl⟩ := subU64_eq_ok.mp hused
  obtain ⟨hle', rfl⟩ := subU64_eq_ok.mp hn
  rw [hw.size_eq] at hle' ⊢
  omega

/-- **Flush.** Pending losses become a record when there is space for it. -/
theorem sound_flush (ht : Tracks size s rest) (hw : w.Sound size) (hc : w.head = s.ring.pages.head)
    {now : Nat} {out : Outcome} (hrun : w.flushPendingLost s.ring.pages now = .ok out) :
    out.Sound size s w ∧ out.call = .done ∧ droppedIn out.events = 0 ∧
      out.pages.head ≤ s.ring.pages.head +
        (if w.lostCount > 0 then InProcessRingBufWriter.lostRecordSize else 0) := by
  unfold InProcessRingBufWriter.flushPendingLost at hrun
  split at hrun
  · cases hrun
    exact ⟨sound_idle ht hw hc (by simp), rfl, rfl, Nat.le_add_right _ _⟩
  · rename_i hpending
    obtain ⟨available, havail, hrun⟩ := bind_eq_ok.mp hrun
    split at hrun
    · cases hrun
      exact ⟨sound_idle ht hw hc (by simp), rfl, rfl, Nat.le_add_right _ _⟩
    · rename_i hspace
      obtain ⟨record, hrecord, hrun⟩ := bind_eq_ok.mp hrun
      obtain ⟨⟨w', pages⟩, hraw, hout⟩ := bind_eq_ok.mp hrun
      cases hout
      obtain ⟨hb, hlen, hcount⟩ := lostRecord_spec hw.lost_lt hrecord
      have hfree := available_eq_ok hw hc havail
      have hw0 : InProcessRingBufWriter.Sound size { w with lostCount := 0 } :=
        ⟨hw.size_eq, hw.mask_eq, by simp⟩
      obtain ⟨rfl, hhead, htail, htracks⟩ := tracks_writeRaw ht hw0 hc hb (by omega) hraw
        (e := .lost record) rfl
      refine ⟨⟨⟨_, htracks⟩, ⟨hw.size_eq, hw.mask_eq, by simp⟩, hhead.symm, htail, ?_, ?_⟩,
        rfl, rfl, ?_⟩
      · simp only [hhead]
        omega
      · simp [lostIn, droppedIn, hcount]
      · simp only [hhead, if_pos (Nat.pos_of_ne_zero hpending)]
        omega

theorem apply_apply (s : Session) (out out' : Outcome) :
    (s.apply out).apply out' = s.apply { out' with events := out.events ++ out'.events } := by
  simp [Session.apply]

/-- **Store.** With the space `write` asks for, the record is stored, behind the record of
pending losses. -/
theorem sound_store (ht : Tracks size s rest) (hw : w.Sound size) (hc : w.head = s.ring.pages.head)
    {record : Bytes} (hb : Built record)
    (hfree : s.ring.pages.head + w.needed record ≤ s.ring.pages.tail + size)
    {now : Nat} {out : Outcome} (hrun : w.store s.ring.pages record now = .ok out) :
    out.Sound size s w := by
  obtain ⟨flushed, hflush, hrun⟩ := bind_eq_ok.mp hrun
  obtain ⟨⟨w', pages⟩, hraw, hout⟩ := bind_eq_ok.mp hrun
  cases hout
  obtain ⟨hsound, -, hdropped, hgrow⟩ := sound_flush ht hw hc hflush
  obtain ⟨rest', htracks⟩ := hsound.tracks
  have halign := alignToPerfRecord_of_mod hb.length_bounds.2.2
  have hspace : flushed.pages.head + record.length ≤ flushed.pages.tail + size := by
    rw [hsound.tail_eq]
    unfold InProcessRingBufWriter.needed at hfree
    omega
  obtain ⟨rfl, hhead, htail, hnew⟩ := tracks_writeRaw (s := s.apply flushed) htracks
    hsound.writer hsound.continues hb hspace hraw (e := .stored record) rfl
  rw [apply_apply] at hnew
  refine ⟨⟨_, hnew⟩, ⟨hsound.writer.size_eq, hsound.writer.mask_eq, hsound.writer.lost_lt⟩,
    hhead.symm, htail.trans hsound.tail_eq, ?_, ?_⟩
  · have := hsound.head_le
    have := hsound.continues
    simp only [hhead]
    omega
  · have := hsound.counts
    simp only [lostIn_append, droppedIn_append]
    simp only [lostIn, droppedIn, Event.lostCount, List.map_cons, List.map_nil, List.sum_cons,
      List.sum_nil] at this hdropped ⊢
    simp
    omega

theorem sound_write (ht : Tracks size s rest) (hw : w.Sound size) (hc : w.head = s.ring.pages.head)
    {record : Bytes} (hb : Built record) {now : Nat} {out : Outcome}
    (hrun : w.write s.ring.pages record now = .ok out) : out.Sound size s w := by
  unfold InProcessRingBufWriter.write at hrun
  split at hrun
  · exact sound_drop ht hw hc hrun
  · obtain ⟨available, havail, hrun⟩ := bind_eq_ok.mp hrun
    have hfree := available_eq_ok hw hc havail
    split at hrun
    · cases hrun
      exact sound_idle ht hw hc fun r hr => by cases hr; exact hb
    · exact sound_store ht hw hc hb (by omega) hrun

theorem sound_poll (ht : Tracks size s rest) (hw : w.Sound size) (hc : w.head = s.ring.pages.head)
    {record : Bytes} (hb : Built record) {timedOut : Bool} {now : Nat} {out : Outcome}
    (hrun : w.poll s.ring.pages record timedOut now = .ok out) : out.Sound size s w := by
  obtain ⟨available, havail, hrun⟩ := bind_eq_ok.mp hrun
  have hfree := available_eq_ok hw hc havail
  split at hrun
  · exact sound_store ht hw hc hb (by omega) hrun
  · split at hrun
    · exact sound_drop ht hw hc hrun
    · cases hrun
      exact sound_idle ht hw hc fun r hr => by cases hr; exact hb

end Writer

/-! ## One step -/

section Step

variable {size : Nat} {s t : Session} {a : Action}

/-- **The calls of a writer.** At the published head each is sound. -/
theorem sound_of_step (hi : Inv size s) (hc : Continues s) (ha : a.writes = true)
    (h : Step s a t) : ∃ w out, s.writer = some w ∧ out.Sound size s w ∧ t = s.apply out := by
  obtain ⟨rest, ht⟩ := hi.tracks
  cases h with
  | takeWriter => simp [Action.writes] at ha
  | beginReading => simp [Action.writes] at ha
  | read => simp [Action.writes] at ha
  | endReading => simp [Action.writes] at ha
  | write hw _ hb hrun =>
    exact ⟨_, _, hw, sound_write ht (hi.writer _ hw) (hc _ hw) hb hrun, rfl⟩
  | poll hw hcall hrun =>
    exact ⟨_, _, hw, sound_poll ht (hi.writer _ hw) (hc _ hw) (ht.waiting _ hcall) hrun, rfl⟩
  | flush hw _ hrun =>
    exact ⟨_, _, hw, (sound_flush ht (hi.writer _ hw) (hc _ hw) hrun).1, rfl⟩

/-- **Read.** With more to read, the cursor stands at the next record. -/
theorem read_next {rest : List Bytes} (hi : Inv size s) (ht : Tracks size s rest)
    (hm : s.cursor.more = true) :
    ∃ record rest', rest = record :: rest' ∧
      s.reader.read s.ring.pages s.cursor =
        .ok (record, { s.cursor with start := s.cursor.start + record.length }) := by
  have hstart := ht.start_eq
  have hstop := ht.stop_le
  have hhead := ht.head_eq
  simp only [CpuRingCursor.more, decide_eq_true_eq] at hm
  rw [List.flatten_append, List.length_append] at hhead
  cases rest with
  | nil =>
    rw [List.flatten_nil, List.length_nil] at hhead
    omega
  | cons record rest =>
    have hb : Built record := ht.built record (by simp)
    rw [List.flatten_cons, List.length_append] at hhead
    have hle := ht.head_le
    have hlt := ht.head_lt
    have hholds : Holds s.ring.pages.data s.cursor.start record := by
      have := ht.holds
      rw [List.flatten_append, holds_append, List.flatten_cons, holds_append, ← hstart] at this
      exact this.2.1
    have hmod : s.cursor.start % 8 = 0 := by
      have := ht.tail_mod
      have := flatten_mod fun r hr => ht.built r (List.mem_append_left _ hr)
      omega
    exact ⟨record, rest, rfl, read_of_holds hi.reader_size hi.reader_mask ht.area ht.dataLen hmod
      hb hholds (by omega) (by omega)⟩

theorem tracks_beginReading {rest : List Bytes} (ht : Tracks size s rest) :
    Tracks size { s with cursor := s.reader.beginReading s.ring.pages s.cursor, batch := [] }
      (s.batch ++ rest) where
  area := ht.area
  dataLen := ht.dataLen
  built := ht.built
  stored := ht.stored
  holds := ht.holds
  head_eq := ht.head_eq
  head_le := ht.head_le
  head_lt := ht.head_lt
  tail_mod := ht.tail_mod
  start_eq := by simp [CpuRingReader.beginReading, CpuRingCursor.set]
  stop_le := by simp [CpuRingReader.beginReading, CpuRingCursor.set]
  waiting := ht.waiting

theorem tracks_read {record : Bytes} {rest : List Bytes} (ht : Tracks size s (record :: rest)) :
    Tracks size { s with
      cursor := { s.cursor with start := s.cursor.start + record.length }
      batch := s.batch ++ [record] } rest := by
  have happ : s.batch ++ [record] ++ rest = s.batch ++ record :: rest := by simp
  refine ⟨ht.area, ht.dataLen, ?_, ?_, ?_, ?_, ht.head_le, ht.head_lt, ht.tail_mod, ?_, ht.stop_le,
    ht.waiting⟩
  · simpa only [happ] using ht.built
  · simpa only [happ] using ht.stored
  · simpa only [happ] using ht.holds
  · simpa only [happ] using ht.head_eq
  · have := ht.start_eq
    simp only [List.flatten_append, List.length_append, List.flatten_cons, List.flatten_nil,
      List.append_nil]
    omega

/-- Giving back a batch frees its bytes. -/
theorem tracks_endReading {rest : List Bytes} (ht : Tracks size s rest) :
    Tracks size { s with
      ring := { s.ring with pages := s.reader.endReading s.ring.pages s.cursor }
      completed := s.completed ++ s.batch
      batch := [] } rest := by
  have hstart := ht.start_eq
  have hhead := ht.head_eq
  have hhold := ht.holds
  rw [List.flatten_append, holds_append, ← hstart] at hhold
  rw [List.flatten_append, List.length_append] at hhead
  refine ⟨ht.area, ht.dataLen, ?_, ?_, hhold.2, ?_, ?_, ht.head_lt, ?_, ?_, ht.stop_le, ht.waiting⟩
  · exact fun r hr => ht.built r (List.mem_append_right _ hr)
  · simpa using ht.stored
  · simp only [CpuRingReader.endReading, List.nil_append]
    omega
  · have := ht.head_le
    simp only [CpuRingReader.endReading]
    omega
  · have := ht.tail_mod
    have := flatten_mod fun r hr => ht.built r (List.mem_append_left _ hr)
    simp only [CpuRingReader.endReading]
    omega
  · simp [CpuRingReader.endReading]

/-- **Step lemma.** Every call keeps the invariant, as long as a writer that writes continues
at the published head; and the head never decreases. -/
theorem inv_step (hi : Inv size s) (hc : a.writes = true → Continues s) (h : Step s a t) :
    Inv size t ∧ s.ring.pages.head ≤ t.ring.pages.head := by
  cases hw : a.writes with
  | true =>
    obtain ⟨w, out, -, hout, rfl⟩ := sound_of_step hi (hc hw) hw h
    refine ⟨⟨hout.tracks, ?_, hi.ring_writer, hi.ring_head, hi.reader_size, hi.reader_mask⟩,
      hout.head_le⟩
    intro w' hw'
    cases hw'
    exact hout.writer
  | false =>
    obtain ⟨rest, ht⟩ := hi.tracks
    cases h with
    | write => simp [Action.writes] at hw
    | poll => simp [Action.writes] at hw
    | flush => simp [Action.writes] at hw
    | takeWriter =>
      refine ⟨⟨⟨rest, ?_⟩, ?_, hi.ring_writer, hi.ring_head, hi.reader_size, hi.reader_mask⟩,
        Nat.le_refl _⟩
      · exact { ht with }
      · intro w hw
        cases hw
        exact hi.ring_writer
    | beginReading =>
      exact ⟨⟨⟨_, tracks_beginReading ht⟩, hi.writer, hi.ring_writer, hi.ring_head,
        hi.reader_size, hi.reader_mask⟩, Nat.le_refl _⟩
    | read hm hrun =>
      obtain ⟨record, rest', rfl, hread⟩ := read_next hi ht hm
      rw [hread] at hrun
      cases hrun
      exact ⟨⟨⟨_, tracks_read ht⟩, hi.writer, hi.ring_writer, hi.ring_head, hi.reader_size,
        hi.reader_mask⟩, Nat.le_refl _⟩
    | endReading =>
      exact ⟨⟨⟨_, tracks_endReading ht⟩, hi.writer, hi.ring_writer, hi.ring_head, hi.reader_size,
        hi.reader_mask⟩, Nat.le_refl _⟩

/-- The calls of the reader leave the writer, the events and the head alone. -/
theorem reader_step_frame (ha : a.writes = false) (hne : a ≠ .takeWriter) (h : Step s a t) :
    t.writer = s.writer ∧ t.history = s.history ∧ t.ring.pages.head = s.ring.pages.head := by
  cases h with
  | takeWriter => exact absurd rfl hne
  | write => simp [Action.writes] at ha
  | poll => simp [Action.writes] at ha
  | flush => simp [Action.writes] at ha
  | beginReading => exact ⟨rfl, rfl, rfl⟩
  | read => exact ⟨rfl, rfl, rfl⟩
  | endReading => exact ⟨rfl, rfl, rfl⟩

end Step

/-! ## Runs -/

section Runs

variable {pageSize : PageSize} {dataPages : Nat} {s t : Session}

def areaSize (pageSize : PageSize) (dataPages : Nat) : Nat :=
  dataPages.nextPowerOfTwo * pageSize.bytes

theorem isArea_areaSize (pageSize : PageSize) (dataPages : Nat) :
    IsArea (areaSize pageSize dataPages) := by
  obtain ⟨k, hk⟩ := Nat.isPowerOfTwo_nextPowerOfTwo dataPages
  refine ⟨k + pageSize.bits, ?_, ?_⟩
  · have := pageSize.twelve_le
    omega
  · rw [areaSize, hk, PageSize.bytes, Nat.pow_add]

theorem new_eq_ok : Session.new pageSize dataPages = .ok s ↔
    s = { ring := {
            pages := {
              dataSize := areaSize pageSize dataPages
              data := List.replicate (areaSize pageSize dataPages) 0 }
            dataSize := areaSize pageSize dataPages
            dataMask := areaSize pageSize dataPages - 1
            head := 0 }
          reader := {
            dataSize := areaSize pageSize dataPages
            dataMask := areaSize pageSize dataPages - 1 } } := by
  have hpos : 1 ≤ areaSize pageSize dataPages := by
    have := (isArea_areaSize pageSize dataPages).bounds
    omega
  have hsub : subU64 (areaSize pageSize dataPages) 1 = .ok (areaSize pageSize dataPages - 1) :=
    subU64_eq_ok.mpr ⟨hpos, rfl⟩
  unfold Session.new InProcessRingBuf.new InProcessRingBuf.createReader CpuRingReader.new
  have hsize : dataPages.nextPowerOfTwo * pageSize.bytes = areaSize pageSize dataPages := rfl
  simp only [hsize, hsub, ok_bind, Except.ok.injEq]
  exact eq_comm

theorem inv_new (h : Session.new pageSize dataPages = .ok s) :
    Inv (areaSize pageSize dataPages) s ∧ s.writer = none ∧ s.history = [] ∧
      s.ring.pages.head = 0 := by
  rw [new_eq_ok] at h
  subst h
  refine ⟨⟨⟨[], ?_⟩, by simp, ⟨rfl, rfl, by simp [InProcessRingBuf.writer]⟩, rfl, rfl, rfl⟩,
    rfl, rfl, rfl⟩
  exact {
    area := isArea_areaSize pageSize dataPages
    dataLen := List.length_replicate
    built := by simp
    stored := rfl
    holds := holds_nil
    head_eq := rfl
    head_le := Nat.zero_le _
    head_lt := by simp
    tail_mod := rfl
    start_eq := rfl
    stop_le := Nat.le_refl _
    waiting := by simp }

/-- **The pointers.** As long as every writer that writes continues at the published head, the
head never decreases and stays between the tail and the tail plus the size of the area. -/
theorem head_never_decreases {as : List Action} (hs : (continuing pageSize dataPages).Reachable s)
    (hrun : (continuing pageSize dataPages).Runs s as t) :
    s.ring.pages.head ≤ t.ring.pages.head ∧ t.ring.pages.tail ≤ t.ring.pages.head ∧
      t.ring.pages.head ≤ t.ring.pages.tail + t.ring.dataSize := by
  have hi : Inv (areaSize pageSize dataPages) s :=
    System.restrict_invariant (S := ringSystem pageSize dataPages) (fun _ h => (inv_new h).1)
      (fun _ _ _ ht hc hstep => (inv_step ht hc hstep).1) hs
  have ht : Inv (areaSize pageSize dataPages) t ∧ s.ring.pages.head ≤ t.ring.pages.head := by
    refine hrun.preserves
      (I := fun u => Inv (areaSize pageSize dataPages) u ∧ s.ring.pages.head ≤ u.ring.pages.head)
      ⟨hi, Nat.le_refl _⟩ fun u a v hu hstep => ?_
    obtain ⟨hv, hle⟩ := inv_step hu.1 hstep.1 hstep.2
    exact ⟨hv, le_trans hu.2 hle⟩
  obtain ⟨rest, htracks⟩ := ht.1.tracks
  have hsize : t.ring.dataSize = areaSize pageSize dataPages := ht.1.ring_writer.size_eq
  refine ⟨ht.2, ?_, ?_⟩
  · have := htracks.head_eq
    omega
  · rw [hsize]
    exact htracks.head_le

/-- What one writer adds to the invariant: it stays at the published head and counts what it
dropped. -/
structure OneWriterInv (size : Nat) (s : Session) : Prop where
  inv : Inv size s
  continues : Continues s
  fresh : s.writer = none → s.history = [] ∧ s.ring.pages.head = 0
  counts : ∀ w, s.writer = some w → lostIn s.history + w.lostCount = droppedIn s.history

theorem oneWriterInv_step {size : Nat} {a : Action} (hi : OneWriterInv size s)
    (hone : a = .takeWriter → s.writer = none) (h : Step s a t) : OneWriterInv size t := by
  have hinv := (inv_step hi.inv (fun _ => hi.continues) h).1
  cases ha : a.writes with
  | true =>
    obtain ⟨w, out, hw, hout, rfl⟩ := sound_of_step hi.inv hi.continues ha h
    refine ⟨hinv, ?_, by simp [Session.apply], ?_⟩
    · intro w' hw'
      cases hw'
      exact hout.continues
    · intro w' hw'
      cases hw'
      have := hi.counts w hw
      have := hout.counts
      simp only [Session.apply, lostIn_append, droppedIn_append]
      omega
  | false =>
    by_cases htake : a = .takeWriter
    · obtain ⟨hhist, hhead⟩ := hi.fresh (hone htake)
      subst htake
      cases h with
      | takeWriter =>
        refine ⟨hinv, ?_, by simp, ?_⟩
        · intro w hw
          cases hw
          exact hi.inv.ring_head.trans hhead.symm
        · intro w hw
          cases hw
          simp [hhist, lostIn, droppedIn, InProcessRingBuf.writer]
    · obtain ⟨hw, hhist, hhead⟩ := reader_step_frame ha htake h
      refine ⟨hinv, ?_, ?_, ?_⟩
      · intro w h
        rw [hhead]
        exact hi.continues w (hw ▸ h)
      · intro h
        rw [hhist, hhead]
        exact hi.fresh (hw ▸ h)
      · intro w h
        rw [hhist]
        exact hi.counts w (hw ▸ h)

theorem reachable_oneWriterInv (h : (oneWriter pageSize dataPages).Reachable s) :
    OneWriterInv (areaSize pageSize dataPages) s := by
  refine System.restrict_invariant (S := ringSystem pageSize dataPages) ?_
    (fun _ _ _ ht hone hstep => oneWriterInv_step ht hone hstep) h
  intro s hs
  obtain ⟨hi, hw, hhist, hhead⟩ := inv_new hs
  exact ⟨hi, by simp [Continues, hw], fun _ => ⟨hhist, hhead⟩, by simp [hw]⟩

end Runs

/-! ## Writers handed out later -/

/-- The session after a write for which there was space. -/
def Session.wrote (s : Session) (w : InProcessRingBufWriter) (record : Bytes) : Session :=
  { s with
    ring := { s.ring with
      pages := { s.ring.pages with
        data := put s.ring.pages.data w.head record
        head := w.head + record.length } }
    writer := some { w with head := w.head + record.length }
    history := s.history ++ [.stored record] }

theorem step_wrote {size : Nat} {s : Session} {w : InProcessRingBufWriter} {record : Bytes}
    (hw : s.writer = some w) (hcall : s.call = .done) (ha : IsArea size) (hs : w.Sound size)
    (hlost : w.lostCount = 0) (hlen : s.ring.pages.data.length = size)
    (htail : s.ring.pages.tail ≤ w.head) (hb : Built record)
    (hfree : w.head + record.length ≤ s.ring.pages.tail + size)
    (hlt : w.head + record.length < 2 ^ 64) (now : Nat) :
    Step s (.write record now) (s.wrote w record) := by
  have halign := alignToPerfRecord_of_mod hb.length_bounds.2.2
  have hraw := (writeRaw_eq_ok hs.size_eq hs.mask_eq ha hlen (Nat.le_refl record.length)
    (by omega)).mpr ⟨hlt, rfl⟩
  rw [Nat.sub_self, List.replicate_zero, List.append_nil] at hraw
  have havail : w.available s.ring.pages = .ok (size - (w.head - s.ring.pages.tail)) := by
    unfold InProcessRingBufWriter.available
    rw [subU64, if_pos htail, ok_bind, hs.size_eq, subU64, if_pos (by omega)]
  have hneeded : w.needed record = record.length := by
    simp [InProcessRingBufWriter.needed, halign, hlost]
  have hrun : w.write s.ring.pages record now = .ok
      { writer := { w with head := w.head + record.length }
        pages := { s.ring.pages with
          data := put s.ring.pages.data w.head record
          head := w.head + record.length }
        events := [.stored record] } := by
    unfold InProcessRingBufWriter.write InProcessRingBufWriter.store
      InProcessRingBufWriter.flushPendingLost
    rw [if_neg (by rw [halign, hs.size_eq]; omega), havail, ok_bind, hneeded,
      if_neg (by omega), if_pos hlost, ok_bind, halign, hraw]
    rfl
  have hstep := Step.write hw hcall hb hrun
  rw [Session.apply, ← hcall] at hstep
  exact hstep

/-- The smallest page size. -/
def smallPage : PageSize := ⟨12, Nat.le_refl _⟩

/-- A ring of one such page, just created, with its first writer. -/
def onePage : Session :=
  { ring := {
      pages := {
        dataSize := areaSize smallPage 1
        data := List.replicate (areaSize smallPage 1) 0 }
      dataSize := areaSize smallPage 1
      dataMask := areaSize smallPage 1 - 1
      head := 0 }
    reader := {
      dataSize := areaSize smallPage 1
      dataMask := areaSize smallPage 1 - 1 } }

theorem new_onePage : Session.new smallPage 1 = .ok onePage := by
  rw [new_eq_ok, onePage]

/-- A writer of `onePage` whose head is at `head`. -/
def onePageWriter (head : Nat) : InProcessRingBufWriter :=
  { dataSize := areaSize smallPage 1, dataMask := areaSize smallPage 1 - 1, head }

def writerTaken (s : Session) : Session := { s with writer := some (onePageWriter 0) }

/-- A record of 16 bytes. -/
def smallRecord : Bytes := recordOf 1024 0 16 (toLe 8 7)

theorem built_smallRecord : Built smallRecord := ⟨1024, 0, toLe 8 7, by decide⟩

theorem length_smallRecord : smallRecord.length = 16 := by decide

/-- Small records can be stored as long as the writer is in the first lap. -/
theorem step_small {s : Session} {head : Nat} (hw : s.writer = some (onePageWriter head))
    (hcall : s.call = .done) (hlen : s.ring.pages.data.length = areaSize smallPage 1)
    (htail : s.ring.pages.tail = 0) (hle : head + 16 ≤ 4096) :
    Step s (.write smallRecord 0) (s.wrote (onePageWriter head) smallRecord) := by
  have ha := isArea_areaSize smallPage 1
  have hb := ha.bounds
  refine step_wrote hw hcall ha ⟨rfl, rfl, by simp [onePageWriter]⟩ rfl hlen (by omega)
    built_smallRecord ?_ ?_ 0
  · rw [length_smallRecord, htail]
    simp only [onePageWriter]
    omega
  · rw [length_smallRecord]
    simp only [onePageWriter]
    omega

def oneRecord : Session := (writerTaken onePage).wrote (onePageWriter 0) smallRecord

def twoRecords : Session := oneRecord.wrote (onePageWriter 16) smallRecord

theorem step_taken : Step onePage .takeWriter (writerTaken onePage) := .takeWriter rfl

theorem step_oneRecord : Step (writerTaken onePage) (.write smallRecord 0) oneRecord :=
  step_small rfl rfl (by simp [writerTaken, onePage]) rfl (by decide)

theorem step_twoRecords : Step oneRecord (.write smallRecord 0) twoRecords := by
  refine step_small ?_ rfl ?_ rfl (by decide)
  · simp [oneRecord, Session.wrote, onePageWriter, length_smallRecord]
  · simp [oneRecord, Session.wrote, writerTaken, onePage]

/-- One writer, one record: the head moves on. -/
theorem head_never_decreases_oneRecord :
    onePage.ring.pages.head ≤ oneRecord.ring.pages.head ∧
      oneRecord.ring.pages.tail ≤ oneRecord.ring.pages.head ∧
      oneRecord.ring.pages.head ≤ oneRecord.ring.pages.tail + oneRecord.ring.dataSize := by
  have hinit : (continuing smallPage 1).Reachable onePage := System.reachable_init new_onePage
  have htaken : (continuing smallPage 1).Runs onePage [.takeWriter] (writerTaken onePage) :=
    .snoc .refl ⟨by simp [Action.writes], step_taken⟩
  have hcontinues : Continues (writerTaken onePage) := by
    intro w hw
    cases hw
    rfl
  exact head_never_decreases hinit
    (htaken.snoc (a := Action.write smallRecord 0) ⟨fun _ => hcontinues, step_oneRecord⟩)

/-- A second writer starts at the head the ring was created with: its record takes the place
of the first one, and the head goes back. -/
theorem head_can_decrease :
    ¬ ∀ (pageSize : PageSize) (dataPages : Nat) (s t : Session) (as : List Action),
      (ringSystem pageSize dataPages).Reachable s → (ringSystem pageSize dataPages).Runs s as t →
      s.ring.pages.head ≤ t.ring.pages.head ∧ t.ring.pages.tail ≤ t.ring.pages.head ∧
        t.ring.pages.head ≤ t.ring.pages.tail + t.ring.dataSize := by
  intro h
  have hinit : (ringSystem smallPage 1).Reachable onePage := System.reachable_init new_onePage
  have hone := (hinit.next .takeWriter step_taken).next (.write smallRecord 0) step_oneRecord
  have htwo := hone.next (.write smallRecord 0) step_twoRecords
  have hthird : Step (writerTaken twoRecords) (.write smallRecord 0)
      ((writerTaken twoRecords).wrote (onePageWriter 0) smallRecord) := by
    refine step_small rfl rfl ?_ rfl (by decide)
    simp [writerTaken, twoRecords, oneRecord, Session.wrote, onePage]
  have htaken : (ringSystem smallPage 1).Runs twoRecords [.takeWriter] (writerTaken twoRecords) :=
    .snoc .refl (Step.takeWriter rfl)
  have hle := (h smallPage 1 _ _ _ htwo (htaken.snoc (a := Action.write smallRecord 0) hthird)).1
  simp [twoRecords, Session.wrote, onePageWriter, length_smallRecord] at hle

end OneCollect.Perf
