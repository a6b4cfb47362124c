import OneCollect.Perf.Source
import OneCollect.Theory.BatchMerge
import OneCollect.Theory.Pointwise

/-! The cycles of `parse_until` over rings with fixed contents are those of
`Theory.BatchMerge` over the records of the rings, with the time of a record as its key and
none for a record of an unknown id (`cycle_eq`, `cycles_eq`).

* Records of known ids in the order of time are merged in the order of time, each at most
  once (`merge_sorted`).
* With the source disabled the loop ends, and it has delivered all records of known ids
  exactly when no cycle started at a ring whose first record has an unknown id and which
  holds one of a known id behind it (`delivers_all_iff`): such a ring is skipped anew in
  every cycle and its tail never moves. -/

namespace OneCollect.Perf
open Theory Circular RingBufDataSource

/-! ## Finding the oldest ring -/

/-- The locals of `find_current_buffer` for a lead. -/
def Oldest.ofLead (lead : BatchMerge.Lead) : Oldest :=
  { oldestTime := lead.oldest.map (·.1), nextTime := lead.next, oldestCpu := lead.oldest.map (·.2) }

theorem consider_ofLead (lead : BatchMerge.Lead) (time i : Nat) :
    (Oldest.ofLead lead).consider time i = Oldest.ofLead (lead.add time i) := by
  obtain ⟨oldest, next⟩ := lead
  cases oldest with
  | none => rfl
  | some first =>
    unfold Oldest.consider BatchMerge.Lead.add Oldest.ofLead
    by_cases hlt : time < first.1
    · simp [hlt]
    · cases next with
      | none => simp [hlt]
      | some next =>
        by_cases hn : time < next
        · simp [hlt, hn]
        · simp [hlt, hn]

abbrev Carrying (ringBufs : RingBufs) (rings : List CpuRing) (qs : List (List Bytes)) : Prop :=
  List.Forall₂ (fun ring q => ring.Carries ringBufs q) rings qs

/-- After `find_current_buffer`, the cursor of a ring whose head has a time still stands at
that record. -/
abbrev Found (ringBufs : RingBufs) (ring : CpuRing) (q : List Bytes) : Prop :=
  ring.Carries ringBufs q ∧
    (BatchMerge.headKey (recordTime ringBufs) q ≠ none → ring.At ringBufs [] q)

theorem carrying_unique {ringBufs : RingBufs} {rings : List CpuRing} {qs qs' : List (List Bytes)}
    (h : Carrying ringBufs rings qs) (h' : Carrying ringBufs rings qs') : qs = qs' := by
  induction h generalizing qs' with
  | nil =>
    cases h' with
    | nil => rfl
  | cons hring _ ih =>
    cases h' with
    | cons hring' hrest => rw [carries_unique hring hring', ih hrest]

section Cycle

variable {ringBufs : RingBufs}

theorem recordTime_eq_some {record : Bytes} {time : Nat}
    (h : recordTime ringBufs record = some time) :
    ∃ buf, ringBufs (recordId record) = some buf := by
  obtain ⟨buf, hbuf, -⟩ := Option.map_eq_some_iff.mp h
  exact ⟨buf, hbuf⟩

/-- **The loop of `find_current_buffer`** computes the lead of the heads. -/
theorem findLoop_eq {rings : List CpuRing} {qs : List (List Bytes)}
    (h : List.Forall₂ (fun ring q => ring.At ringBufs [] q) rings qs) (i : Nat)
    (lead : BatchMerge.Lead) :
    ∃ rings', findLoop ringBufs i (.ofLead lead) rings = .ok
        (.ofLead (BatchMerge.leadFrom i lead
          (qs.map (BatchMerge.headKey (recordTime ringBufs)))), rings') ∧
      List.Forall₂ (Found ringBufs) rings' qs := by
  induction h generalizing i lead with
  | nil => exact ⟨[], rfl, .nil⟩
  | @cons ring q rings qs hat _ ih =>
    have hcarries : ∀ cursor, CpuRing.Carries ringBufs { ring with cursor } q := fun cursor =>
      { hat.carries with }
    cases q with
    | nil =>
      obtain ⟨rings', hloop, hfound⟩ := ih (i + 1) lead
      refine ⟨{ ring with cursor := ring.cursor } :: rings', ?_, .cons ⟨hcarries _, ?_⟩ hfound⟩
      · rw [findLoop, readTime_nil hat, ok_bind]
        simp only [hloop, ok_bind, List.map_cons, BatchMerge.headKey, List.head?_nil,
          Option.bind_none, BatchMerge.leadFrom]
      · simp [BatchMerge.headKey]
    | cons record q =>
      cases htime : recordTime ringBufs record with
      | none =>
        obtain ⟨rings', hloop, hfound⟩ := ih (i + 1) lead
        have hread := readTime_cons hat
        rw [htime] at hread
        refine ⟨{ ring with
            cursor := { ring.cursor with start := ring.cursor.start + record.length } } :: rings',
          ?_, .cons ⟨hcarries _, ?_⟩ hfound⟩
        · rw [findLoop, hread]
          simp only [ok_bind, hloop, List.map_cons, BatchMerge.headKey, List.head?_cons,
            Option.bind_some, htime, BatchMerge.leadFrom]
        · simp [BatchMerge.headKey, htime]
      | some time =>
        obtain ⟨buf, hbuf⟩ := recordTime_eq_some htime
        obtain ⟨rings', hloop, hfound⟩ := ih (i + 1) (lead.add time i)
        have hread := readTime_cons hat
        rw [htime, hbuf] at hread
        refine ⟨{ ring with cursor := ring.cursor } :: rings', ?_,
          .cons ⟨hcarries _, fun _ => hat⟩ hfound⟩
        rw [findLoop, hread]
        simp only [ok_bind, Option.map_some, consider_ofLead, hloop, List.map_cons,
          BatchMerge.headKey, List.head?_cons, Option.bind_some, htime, BatchMerge.leadFrom]

/-! ## Reading a batch -/

variable {self : RingBufDataSource} {c : Nat} {ring : CpuRing} {done q : List Bytes}

/-- `read` with a record at the cursor. -/
theorem read_cons (hc : self.oldestCpu = some c) (hring : self.rings[c]? = some ring)
    {record : Bytes} (hat : ring.At self.ringBufs done (record :: q)) :
    self.read = match recordTime self.ringBufs record with
      | none => .ok (none, { self with
          rings := self.rings.set c { ring with
            cursor := { ring.cursor with start := ring.cursor.start + record.length } } })
      | some time =>
        if self.nextTime.any (· < time) then .ok (none, self)
        else .ok ((self.ringBufs (recordId record)).map fun rb =>
            { ancillary := rb.ancillary, rawData := record },
          { self with
            rings := self.rings.set c { ring with
              cursor := { ring.cursor with start := ring.cursor.start + record.length } } }) := by
  have hget : getAt self.rings c = .ok ring := getAt_eq_ok.mpr hring
  have htime := readTime_cons hat
  have hread := read_at hat
  obtain ⟨rings, ringBufs, oldestCpu, nextTime, enabled⟩ := self
  cases hc
  unfold RingBufDataSource.read
  simp only [hget, ok_bind, htime]
  cases hrt : recordTime ringBufs record with
  | none => rfl
  | some time =>
    obtain ⟨buf, hbuf⟩ := recordTime_eq_some hrt
    simp only [hbuf, Option.map_some, ok_bind, set_of_getElem? hring, hread]

theorem read_nil (hc : self.oldestCpu = some c) (hring : self.rings[c]? = some ring)
    (hat : ring.At self.ringBufs done []) : self.read = .ok (none, self) := by
  have hget : getAt self.rings c = .ok ring := getAt_eq_ok.mpr hring
  obtain ⟨rings, ringBufs, oldestCpu, nextTime, enabled⟩ := self
  cases hc
  unfold RingBufDataSource.read
  simp only [hget, ok_bind, readTime_nil hat, set_of_getElem? hring]

/-- **The inner loop** hands out a batch of the oldest ring. -/
theorem readBatch_eq (n : Nat) (hc : self.oldestCpu = some c) (hring : self.rings[c]? = some ring)
    (hat : ring.At self.ringBufs done q) :
    ∃ data ring' done',
      readBatch n self = .ok (data, { self with rings := self.rings.set c ring' }) ∧
      data.map (·.rawData) = (BatchMerge.batch (recordTime self.ringBufs) self.nextTime n q).1 ∧
      ring'.At self.ringBufs done'
        (BatchMerge.batch (recordTime self.ringBufs) self.nextTime n q).2 := by
  induction n generalizing self ring done q with
  | zero => exact ⟨[], ring, done, by simp [readBatch, set_of_getElem? hring], rfl, hat⟩
  | succ n ih =>
    cases q with
    | nil =>
      refine ⟨[], ring, done, ?_, rfl, hat⟩
      simp [readBatch, read_nil hc hring hat, set_of_getElem? hring]
    | cons record q =>
      have hread := read_cons hc hring hat
      unfold BatchMerge.batch
      cases htime : recordTime self.ringBufs record with
      | none =>
        rw [htime] at hread
        exact ⟨[], _, done ++ [record], by simp [readBatch, hread], rfl, at_advance hat⟩
      | some time =>
        rw [htime] at hread
        by_cases hnext : self.nextTime.any (· < time) = true
        · simp only [hnext, if_true] at hread ⊢
          refine ⟨[], ring, done, ?_, rfl, hat⟩
          simp [readBatch, hread, set_of_getElem? hring]
        · obtain ⟨buf, hbuf⟩ := recordTime_eq_some htime
          have hlt := (List.getElem?_eq_some_iff.mp hring).1
          simp only [if_neg hnext, hbuf, Option.map_some] at hread ⊢
          obtain ⟨data, ring', done', hrest, hdata, hat'⟩ := @ih
            { self with
              rings := self.rings.set c { ring with
                cursor := { ring.cursor with start := ring.cursor.start + record.length } } }
            _ _ _ hc (List.getElem?_set_self hlt) (at_advance hat)
          refine ⟨{ ancillary := buf.ancillary, rawData := record } :: data, ring', done', ?_,
            by simp [hdata], hat'⟩
          rw [readBatch, hread]
          simp [hrest]

/-- Without a ring to read from nothing happens. -/
theorem readBatch_none (n : Nat) (hc : self.oldestCpu = none) :
    readBatch n self = .ok ([], self) := by
  cases n with
  | zero => rfl
  | succ n =>
    have hread : self.read = .ok (none, self) := by
      unfold RingBufDataSource.read
      rw [hc]
    rw [readBatch, hread, ok_bind]

theorem endReading_eq (hc : self.oldestCpu = some c) (hring : self.rings[c]? = some ring) :
    self.endReading = .ok { self with
      rings := self.rings.set c { ring with
        pages := ring.reader.endReading ring.pages ring.cursor } } := by
  have hget : getAt self.rings c = .ok ring := getAt_eq_ok.mpr hring
  obtain ⟨rings, ringBufs, oldestCpu, nextTime, enabled⟩ := self
  cases hc
  unfold RingBufDataSource.endReading
  simp only [hget, ok_bind]

/-- `begin_reading` finds the lead of the heads. -/
theorem beginReading_eq {qs : List (List Bytes)} (h : Carrying self.ringBufs self.rings qs) :
    ∃ rings, self.beginReading = .ok { self with
        rings
        oldestCpu := (BatchMerge.leadOf
          (qs.map (BatchMerge.headKey (recordTime self.ringBufs)))).oldest.map (·.2)
        nextTime := (BatchMerge.leadOf
          (qs.map (BatchMerge.headKey (recordTime self.ringBufs)))).next } ∧
      List.Forall₂ (Found self.ringBufs) rings qs := by
  have hat : List.Forall₂ (fun ring q => ring.At self.ringBufs [] q)
      (self.rings.map fun ring =>
        { ring with cursor := ring.reader.beginReading ring.pages ring.cursor }) qs :=
    forall₂_map_left (h.imp fun _ _ hc => at_begin hc)
  obtain ⟨rings, hloop, hfound⟩ := findLoop_eq hat 0 {}
  refine ⟨rings, ?_, hfound⟩
  have hstart : Oldest.ofLead {} = {} := rfl
  rw [hstart] at hloop
  unfold RingBufDataSource.beginReading RingBufDataSource.findCurrentBuffer
  simp only [hloop, ok_bind]
  rfl

/-- A delivery with the ring it came from and its bytes. -/
def Delivery.item (delivery : Delivery) : Nat × Bytes := (delivery.cpu, delivery.data.rawData)

/-- **One cycle** of `parse_until` is one cycle of the merge. -/
theorem cycle_eq {qs : List (List Bytes)} (h : Carrying self.ringBufs self.rings qs) :
    ∃ log self', self.cycle = .ok (log, self') ∧
      log.map Delivery.item =
        (BatchMerge.cycle (recordTime self.ringBufs) maxBatch qs).1 ∧
      Carrying self.ringBufs self'.rings
        (BatchMerge.cycle (recordTime self.ringBufs) maxBatch qs).2 ∧
      self'.ringBufs = self.ringBufs ∧ self'.enabled = self.enabled ∧
      (self'.oldestCpu = none ↔ BatchMerge.Finished (recordTime self.ringBufs) qs) := by
  obtain ⟨rings, hbegin, hfound⟩ := beginReading_eq h
  have hof := BatchMerge.leadOf_of (qs.map (BatchMerge.headKey (recordTime self.ringBufs)))
  unfold BatchMerge.cycle
  generalize BatchMerge.leadOf (qs.map (BatchMerge.headKey (recordTime self.ringBufs))) = lead
    at hbegin hof ⊢
  unfold RingBufDataSource.cycle
  rw [hbegin, ok_bind]
  cases hof with
  | idle hnone =>
    refine ⟨[], { self with rings, oldestCpu := none, nextTime := none }, ?_, rfl,
      hfound.imp fun _ _ hf => hf.1, rfl, rfl, ?_⟩
    · rw [readBatch_none _ rfl]
      rfl
    · refine ⟨fun _ q hq => hnone _ (List.mem_map.mpr ⟨q, hq, rfl⟩), fun _ => rfl⟩
  | @found t c next hhead hnext hothers =>
    rw [List.getElem?_map, Option.map_eq_some_iff] at hhead
    obtain ⟨q, hq, hkey⟩ := hhead
    obtain ⟨ring, hring, hcarries, hat⟩ := forall₂_getElem? hfound hq
    have hat := hat (by rw [hkey]; simp)
    have hlt := (List.getElem?_eq_some_iff.mp hring).1
    obtain ⟨data, ring', done', hbatch, hdata, hat'⟩ := @readBatch_eq
      { self with rings, oldestCpu := some c, nextTime := next } _ _ _ _ maxBatch rfl hring hat
    have hend := @endReading_eq
      { self with rings := rings.set c ring', oldestCpu := some c, nextTime := next } _ _
      rfl (List.getElem?_set_self hlt)
    have hgetD : qs.getD c [] = q := by rw [List.getD_eq_getElem?_getD, hq, Option.getD_some]
    refine ⟨data.map fun data => ⟨c, data⟩, { self with
      rings := rings.set c { ring' with
        pages := ring'.reader.endReading ring'.pages ring'.cursor }
      oldestCpu := some c
      nextTime := next }, ?_, ?_, ?_, rfl, rfl, ?_⟩
    · simp only [Option.map_some, hbatch, ok_bind, hend, List.set_set, Option.getD_some]
    · simp only [hgetD, ← hdata, List.map_map]
      rfl
    · simp only [hgetD]
      exact forall₂_set (hfound.imp fun _ _ hf => hf.1) (carries_endReading hat') c
    · constructor
      · simp
      · intro hfin
        rw [hfin q (List.mem_of_getElem? hq)] at hkey
        cases hkey

/-! ## Runs -/

/-- **The cycles** of `parse_until` are those of the merge. -/
theorem cycles_eq {qs : List (List Bytes)} (h : Carrying self.ringBufs self.rings qs) (n : Nat) :
    ∃ log self', cycles n self = .ok (log, self') ∧
      log.map Delivery.item = (BatchMerge.run (recordTime self.ringBufs) maxBatch n qs).1 ∧
      Carrying self.ringBufs self'.rings
        (BatchMerge.run (recordTime self.ringBufs) maxBatch n qs).2 ∧
      self'.ringBufs = self.ringBufs ∧ self'.enabled = self.enabled := by
  induction n with
  | zero => exact ⟨[], self, rfl, rfl, h, rfl, rfl⟩
  | succ n ih =>
    obtain ⟨log, t, hrun, hlog, hcarry, hbufs, henabled⟩ := ih
    rw [← hbufs] at hcarry
    obtain ⟨batch, u, hcycle, hbatch, hcarry', hbufs', henabled', -⟩ := cycle_eq hcarry
    rw [hbufs] at hbatch hcarry'
    refine ⟨log ++ batch, u, ?_, ?_, hcarry', hbufs'.trans hbufs, henabled'.trans henabled⟩
    · rw [cycles, hrun, ok_bind]
      simp only [hcycle, ok_bind]
    · rw [List.map_append, hlog, hbatch]
      rfl

/-- A turn more, from the inside: the loop asks for more exactly while the merge is not
finished. -/
theorem cycles_succ {qs : List (List Bytes)} (h : Carrying self.ringBufs self.rings qs)
    (hd : self.enabled = false) {n : Nat} {log : List Delivery} {t : RingBufDataSource}
    (hrun : cycles n self = .ok (log, t)) :
    ∃ batch u, t.cycle = .ok (batch, u) ∧ cycles (n + 1) self = .ok (log ++ batch, u) ∧
      (u.more = false ↔ BatchMerge.Finished (recordTime self.ringBufs)
        (BatchMerge.run (recordTime self.ringBufs) maxBatch n qs).2) := by
  obtain ⟨log', t', hrun', -, hcarry, hbufs, henabled⟩ := cycles_eq h n
  rw [hrun'] at hrun
  cases hrun
  rw [← hbufs] at hcarry
  obtain ⟨batch, u, hcycle, -, -, -, henabled', hmore⟩ := cycle_eq hcarry
  refine ⟨batch, u, hcycle, ?_, ?_⟩
  · rw [cycles, hrun', ok_bind]
    simp only [hcycle, ok_bind]
  · rw [← hbufs, ← hmore]
    unfold RingBufDataSource.more
    rw [henabled', henabled, hd, Bool.or_false]
    simp

/-- One turn of `parse_until`. -/
theorem parseUntil_turn {shouldStop : Nat → Bool} {fuel n : Nat} {log batch : List Delivery}
    {t u : RingBufDataSource} (hcycle : t.cycle = .ok (batch, u)) :
    parseUntil shouldStop (fuel + 1) n log t =
      if shouldStop n || !u.more then .ok (some (log ++ batch, u))
      else parseUntil shouldStop fuel (n + 1) (log ++ batch) u := by
  rw [parseUntil, hcycle]
  rfl

theorem cycle_of_parseUntil {shouldStop : Nat → Bool} {fuel n : Nat} {log : List Delivery}
    {t : RingBufDataSource} {r : List Delivery × RingBufDataSource}
    (h : parseUntil shouldStop (fuel + 1) n log t = .ok (some r)) :
    ∃ batch u, t.cycle = .ok (batch, u) := by
  rw [parseUntil] at h
  obtain ⟨⟨batch, u⟩, hcycle, -⟩ := bind_eq_ok.mp h
  exact ⟨batch, u, hcycle⟩

/-- What `parse_until` returns is what its turns have delivered. -/
theorem parseUntil_cycles {shouldStop : Nat → Bool} {fuel n : Nat} {log log' : List Delivery}
    {t t' : RingBufDataSource} (hrun : cycles n self = .ok (log, t))
    (h : parseUntil shouldStop fuel n log t = .ok (some (log', t'))) :
    ∃ m, cycles m self = .ok (log', t') := by
  induction fuel generalizing n log t with
  | zero => cases h
  | succ fuel ih =>
    obtain ⟨batch, u, hcycle⟩ := cycle_of_parseUntil h
    rw [parseUntil_turn hcycle] at h
    have hnext : cycles (n + 1) self = .ok (log ++ batch, u) := by
      rw [cycles, hrun, ok_bind]
      simp only [hcycle, ok_bind]
    by_cases hstop : (shouldStop n || !u.more) = true
    · rw [if_pos hstop] at h
      cases h
      exact ⟨n + 1, hnext⟩
    · rw [if_neg hstop] at h
      exact ih hnext h

/-- More fuel does not change what `parse_until` returns. -/
theorem parseUntil_unique {shouldStop : Nat → Bool} {fuel fuel' n : Nat} {log : List Delivery}
    {t : RingBufDataSource} {r r' : List Delivery × RingBufDataSource}
    (h : parseUntil shouldStop fuel n log t = .ok (some r))
    (h' : parseUntil shouldStop fuel' n log t = .ok (some r')) : r = r' := by
  induction fuel generalizing fuel' n log t with
  | zero => cases h
  | succ fuel ih =>
    cases fuel' with
    | zero => cases h'
    | succ fuel' =>
      obtain ⟨batch, u, hcycle⟩ := cycle_of_parseUntil h
      rw [parseUntil_turn hcycle] at h h'
      by_cases hstop : (shouldStop n || !u.more) = true
      · rw [if_pos hstop] at h h'
        rw [h] at h'
        cases h'
        rfl
      · rw [if_neg hstop] at h h'
        exact ih h h'

/-- With the source disabled, `parse_until` ends one turn after the merge is finished. -/
theorem parseUntil_ends {qs : List (List Bytes)} (h : Carrying self.ringBufs self.rings qs)
    (hd : self.enabled = false) {m : Nat}
    (hfin : BatchMerge.Finished (recordTime self.ringBufs)
      (BatchMerge.run (recordTime self.ringBufs) maxBatch m qs).2) {k n : Nat} (hk : n + k = m)
    {log : List Delivery} {t : RingBufDataSource} (hrun : cycles n self = .ok (log, t)) :
    ∃ log' t' j, parseUntil (fun _ => false) (k + 1) n log t = .ok (some (log', t')) ∧
      cycles (j + 1) self = .ok (log', t') ∧
      BatchMerge.Finished (recordTime self.ringBufs)
        (BatchMerge.run (recordTime self.ringBufs) maxBatch j qs).2 := by
  induction k generalizing n log t with
  | zero =>
    obtain ⟨batch, u, hcycle, hnext, hmore⟩ := cycles_succ h hd hrun
    have hdone : u.more = false := hmore.mpr (by rw [show n = m by omega]; exact hfin)
    refine ⟨log ++ batch, u, n, ?_, hnext, hmore.mp hdone⟩
    rw [parseUntil_turn hcycle, hdone]
    rfl
  | succ k ih =>
    obtain ⟨batch, u, hcycle, hnext, hmore⟩ := cycles_succ h hd hrun
    rw [parseUntil_turn hcycle, Bool.false_or]
    cases hu : u.more with
    | false => exact ⟨log ++ batch, u, n, by simp, hnext, hmore.mp hu⟩
    | true =>
      obtain ⟨log', t', j, hpart, hj⟩ := ih (n := n + 1) (by omega) hnext
      exact ⟨log', t', j, by simpa using hpart, hj⟩

end Cycle

/-! ## The order of deliveries -/

section Results

variable {self : RingBufDataSource} {records : List (List Bytes)}

/-- The records delivered from ring `c`, in order. -/
def deliveredFrom (c : Nat) (log : List Delivery) : List Bytes :=
  BatchMerge.itemsOf c (log.map Delivery.item)

/-- The log of a merge: in the order of time, and from each ring a beginning of its records. -/
def Merged (ringBufs : RingBufs) (records : List (List Bytes)) (log : List Delivery) : Prop :=
  (log.Pairwise fun a b =>
    BatchMerge.KeyLe (recordTime ringBufs) a.data.rawData b.data.rawData) ∧
  ∀ c q, records[c]? = some q → deliveredFrom c log <+: q

theorem keyed_of_all {key : Bytes → Option Nat} {q : List Bytes} (h : ∀ x ∈ q, key x ≠ none) :
    BatchMerge.keyed key q = q := by
  refine List.filter_eq_self.mpr fun x hx => ?_
  exact Option.isSome_iff_ne_none.mpr (h x hx)

/-- **Merge order.** Over rings of records of known ids in the order of time, every turn of
`parse_until` succeeds, and what it has delivered is in the order of time over the whole run
and delivers no record of a ring twice or out of turn. -/
theorem merge_sorted (h : Carrying self.ringBufs self.rings records)
    (hs : BatchMerge.SortedQueues (recordTime self.ringBufs) records) :
    (∀ n, ∃ log t, cycles n self = .ok (log, t) ∧ Merged self.ringBufs records log) ∧
      ∀ shouldStop fuel log t, parseUntil shouldStop fuel 0 [] self = .ok (some (log, t)) →
        Merged self.ringBufs records log := by
  have hmerged : ∀ n log t, cycles n self = .ok (log, t) → Merged self.ringBufs records log := by
    intro n log t hrun
    obtain ⟨log', t', hrun', hlog, -, -, -⟩ := cycles_eq h n
    rw [hrun'] at hrun
    cases hrun
    refine ⟨?_, fun c q hq => ?_⟩
    · have hsorted := BatchMerge.run_sorted maxBatch hs n
      rw [← hlog, List.pairwise_map] at hsorted
      exact hsorted
    · obtain ⟨r, hr, hsplit⟩ := BatchMerge.run_split (recordTime self.ringBufs) maxBatch hq n
      rw [keyed_of_all (hs.keyed q (List.mem_of_getElem? hq)), ← hlog] at hsplit
      exact ⟨_, hsplit.symm⟩
  constructor
  · intro n
    obtain ⟨log, t, hrun, -⟩ := cycles_eq h n
    exact ⟨log, t, hrun, hmerged n log t hrun⟩
  · intro shouldStop fuel log t hparse
    obtain ⟨m, hm⟩ := parseUntil_cycles (n := 0) rfl hparse
    exact hmerged m log t hm

/-! ## Skipped records -/

/-- `parse_until` ends, and from each ring it has delivered the records of known ids. -/
def DeliversAll (self : RingBufDataSource) (records : List (List Bytes)) : Prop :=
  ∃ fuel log t, parseUntil (fun _ => false) fuel 0 [] self = .ok (some (log, t)) ∧
    ∀ c q, records[c]? = some q →
      deliveredFrom c log = q.filter fun record => (recordTime self.ringBufs record).isSome

/-- The first unread record has an unknown id, and one of a known id follows. -/
def Starved (ringBufs : RingBufs) (q : List Bytes) : Prop :=
  ∃ record rest, q = record :: rest ∧ recordTime ringBufs record = none ∧
    ∃ other ∈ rest, recordTime ringBufs other ≠ none

theorem stuck_iff_starved {ringBufs : RingBufs} {q : List Bytes} :
    BatchMerge.Stuck (recordTime ringBufs) q ↔ Starved ringBufs q := by
  unfold BatchMerge.Stuck Starved
  cases q with
  | nil => simp [BatchMerge.keyed]
  | cons record rest =>
    simp only [BatchMerge.headKey, List.head?_cons, Option.bind_some, BatchMerge.keyed]
    constructor
    · rintro ⟨hnone, hne⟩
      obtain ⟨other, hother⟩ := List.exists_mem_of_ne_nil _ hne
      obtain ⟨hmem, hsome⟩ := List.mem_filter.mp hother
      refine ⟨record, rest, rfl, hnone, other, ?_, Option.isSome_iff_ne_none.mp hsome⟩
      cases List.mem_cons.mp hmem with
      | inl heq => rw [heq, hnone] at hsome; cases hsome
      | inr hrest => exact hrest
    · rintro ⟨r, rs, heq, hnone, other, hmem, hne⟩
      cases heq
      refine ⟨hnone, List.ne_nil_of_mem (a := other) (List.mem_filter.mpr ⟨?_, ?_⟩)⟩
      · exact List.mem_cons_of_mem _ hmem
      · exact Option.isSome_iff_ne_none.mpr hne

/-- In the terms of the merge: no cycle starts with a stuck queue. -/
theorem deliversAll_iff_run (h : Carrying self.ringBufs self.rings records)
    (hd : self.enabled = false) :
    DeliversAll self records ↔
      ∀ m, ∀ q ∈ (BatchMerge.run (recordTime self.ringBufs) maxBatch m records).2,
        ¬ BatchMerge.Stuck (recordTime self.ringBufs) q := by
  obtain ⟨m, hfin⟩ := BatchMerge.exists_finished (recordTime self.ringBufs)
    (show 0 < maxBatch by decide) records
  obtain ⟨log, t, j, hparse, hcycles, hfinj⟩ := parseUntil_ends h hd hfin (k := m) (n := 0)
    (by omega) rfl
  obtain ⟨log', t', hrun, hlog, -⟩ := cycles_eq h (j + 1)
  rw [hcycles] at hrun
  cases hrun
  have hfinal : BatchMerge.Finished (recordTime self.ringBufs)
      (BatchMerge.run (recordTime self.ringBufs) maxBatch (j + 1) records).2 := by
    rw [BatchMerge.run_finished hfinj (Nat.le_succ j)]
    exact hfinj
  rw [← BatchMerge.all_handed_out_iff hfinal, ← hlog]
  constructor
  · rintro ⟨fuel, log', t', hparse', hall⟩
    have heq := parseUntil_unique hparse hparse'
    cases heq
    exact hall
  · exact fun hall => ⟨_, log, t, hparse, hall⟩

/-- **Starvation by skipped records.** With the source disabled, all records of known ids are
delivered exactly when no turn of the loop starts at a starved ring. -/
theorem delivers_all_iff (h : Carrying self.ringBufs self.rings records)
    (hd : self.enabled = false) :
    DeliversAll self records ↔
      ∀ n log t qs, cycles n self = .ok (log, t) → Carrying self.ringBufs t.rings qs →
        ∀ q ∈ qs, ¬ Starved self.ringBufs q := by
  rw [deliversAll_iff_run h hd]
  simp only [stuck_iff_starved]
  constructor
  · intro hfree n log t qs hrun hcarry
    obtain ⟨log', t', hrun', -, hcarry', -⟩ := cycles_eq h n
    rw [hrun'] at hrun
    cases hrun
    rw [carrying_unique hcarry hcarry']
    exact hfree n
  · intro hfree m
    obtain ⟨log, t, hrun, -, hcarry, -⟩ := cycles_eq h m
    exact hfree m log t _ hrun hcarry

end Results

/-! ## Rings of one page -/

/-- A ring of 4096 bytes that holds `records` from its start. -/
def ringOf (records : List Bytes) : CpuRing :=
  { pages := {
      head := records.flatten.length
      dataSize := 4096
      data := put (List.replicate 4096 0) 0 records.flatten }
    reader := { dataSize := 4096, dataMask := 4095 } }

theorem carries_ringOf {ringBufs : RingBufs} {records : List Bytes}
    (hwf : ∀ record ∈ records, WellFormed ringBufs record) (hle : records.flatten.length ≤ 4096) :
    (ringOf records).Carries ringBufs records where
  area := ⟨12, Nat.le_refl _, rfl⟩
  mask := rfl
  dataLen := by
    unfold ringOf
    rw [length_put, List.length_replicate]
  wellFormed := hwf
  holds := holds_put (by rw [List.length_replicate]; exact hle)
  head_eq := (Nat.zero_add _).symm
  fits := hle
  head_lt := by simp only [ringOf]; omega
  tail_mod := rfl

/-- Only id 7 is known. -/
def onlySeven : RingBufs := fun id => if id = 7 then some ⟨0, {}⟩ else none

/-- A record that is not a sample, with its time and id at the end. -/
def timedRecord (time id : Nat) : Bytes := recordOf 1024 0 24 (toLe 8 time ++ toLe 8 id)

theorem wellFormed_timedRecord (time id : Nat) : WellFormed onlySeven (timedRecord time id) where
  built := ⟨1024, 0, toLe 8 time ++ toLe 8 id, by
    rw [write_eq_ok]
    exact ⟨by simp [Fits, alignToPerfRecord, perfRecordAlignment], by
      simp [timedRecord, alignToPerfRecord, perfRecordAlignment]⟩⟩
  minSize := by
    rw [timedRecord, length_recordOf _ _ (by simp)]
    simp [Header.dataOffset]
  sample := by
    intro buf hs
    have : isSample (timedRecord time id) = false := by
      simp [isSample, timedRecord, recordOf, toLe, fromLe, recordSample]
    rw [this] at hs
    cases hs

/-- A ring with a record of an unknown id before one of a known id. -/
def skippedFirst : RingBufDataSource :=
  { rings := [ringOf [timedRecord 10 99, timedRecord 20 7]], ringBufs := onlySeven }

theorem carrying_skippedFirst : Carrying skippedFirst.ringBufs skippedFirst.rings
    [[timedRecord 10 99, timedRecord 20 7]] := by
  refine .cons (carries_ringOf ?_ (by simp [timedRecord, recordOf])) .nil
  intro record hrecord
  cases List.mem_cons.mp hrecord with
  | inl h => exact h ▸ wellFormed_timedRecord 10 99
  | inr h => exact List.mem_singleton.mp h ▸ wellFormed_timedRecord 20 7

theorem delivers_all_iff_skippedFirst :
    DeliversAll skippedFirst [[timedRecord 10 99, timedRecord 20 7]] ↔
      ∀ n log t qs, cycles n skippedFirst = .ok (log, t) →
        Carrying skippedFirst.ringBufs t.rings qs →
        ∀ q ∈ qs, ¬ Starved skippedFirst.ringBufs q :=
  delivers_all_iff carrying_skippedFirst rfl

/-- The skip is forgotten at the start of each turn, so the second record is never reached. -/
theorem skipped_first_starves :
    ¬ ∀ (self : RingBufDataSource) (records : List (List Bytes)),
      Carrying self.ringBufs self.rings records → self.enabled = false →
      DeliversAll self records := by
  intro hall
  have hfree := (deliversAll_iff_run carrying_skippedFirst rfl).mp
    (hall _ _ carrying_skippedFirst rfl)
  refine hfree 0 _ (List.mem_singleton_self _) ⟨by decide, ?_⟩
  exact List.ne_nil_of_mem (a := timedRecord 20 7) (List.mem_filter.mpr ⟨by simp, by decide⟩)

/-- Two rings, of which the second has the older record. -/
def twoRings : RingBufDataSource :=
  { rings := [ringOf [timedRecord 20 7], ringOf [timedRecord 10 7]], ringBufs := onlySeven }

theorem merge_sorted_twoRings :
    (∀ n, ∃ log t, cycles n twoRings = .ok (log, t) ∧
        Merged twoRings.ringBufs [[timedRecord 20 7], [timedRecord 10 7]] log) ∧
      ∀ shouldStop fuel log t, parseUntil shouldStop fuel 0 [] twoRings = .ok (some (log, t)) →
        Merged twoRings.ringBufs [[timedRecord 20 7], [timedRecord 10 7]] log := by
  have hring : ∀ time, (ringOf [timedRecord time 7]).Carries onlySeven [timedRecord time 7] :=
    fun time => carries_ringOf
      (fun record hrecord => List.mem_singleton.mp hrecord ▸ wellFormed_timedRecord time 7)
      (by simp [timedRecord, recordOf])
  refine merge_sorted (.cons (hring 20) (.cons (hring 10) .nil)) ⟨?_, ?_⟩
  · intro q hq record hrecord
    simp only [List.mem_cons, List.not_mem_nil, or_false] at hq
    cases hq with
    | inl h =>
      rw [h] at hrecord
      rw [List.mem_singleton.mp hrecord]
      decide
    | inr h =>
      rw [h] at hrecord
      rw [List.mem_singleton.mp hrecord]
      decide
  · intro q hq
    simp only [List.mem_cons, List.not_mem_nil, or_false] at hq
    cases hq with
    | inl h => exact h ▸ List.pairwise_singleton _ _
    | inr h => exact h ▸ List.pairwise_singleton _ _

end OneCollect.Perf
