import Mathlib.Data.Nat.Log
import OneCollect.Theory.Checked
import OneCollect.Theory.Numbering

/-! The interned slices of `intern.rs`: buckets of hashes over spans of one flat storage.

`Interned` is the invariant that ties the three to a list of distinct slices; `toId` keeps it and
numbers the slices in the order they are first seen (`run_interned`), whatever the hash is. -/

namespace OneCollect.Interning
open Theory

structure InternedSpan where
  start : Nat
  stop : Nat
  deriving DecidableEq, Repr

structure InternedBucket where
  hash : UInt64
  len : Nat
  index : Nat
  deriving DecidableEq, Repr

structure InternedSlices (T : Type) where
  buckets : List (List InternedBucket)
  mask : UInt64
  slices : List T
  spans : List InternedSpan
  deriving DecidableEq, Repr

/-- `is_power_of_two`. -/
def isPowerOfTwo (n : Nat) : Bool := 2 ^ n.log2 = n

/-- `next_power_of_two` on 64 bits, where a power outside the word panics. -/
def nextPowerOfTwo (n : Nat) : Exec Nat :=
  if 2 ^ Nat.clog 2 n < 2 ^ 64 then .ok (2 ^ Nat.clog 2 n) else panicked

namespace InternedSlices

variable {T : Type}

def new (bucketCount : Nat) : Exec (InternedSlices T) := do
  let bucketCount ← if isPowerOfTwo bucketCount then .ok bucketCount else nextPowerOfTwo bucketCount
  .ok {
    buckets := List.replicate bucketCount []
    mask := UInt64.ofNat (bucketCount - 1)
    slices := []
    spans := [] }

def bucketIndex (self : InternedSlices T) (hash : UInt64) : Nat := (hash &&& self.mask).toNat

section Lookup

variable [DecidableEq T]

/-- The loop over a chain. -/
def findIn (self : InternedSlices T) (hash : UInt64) (slice : List T) :
    List InternedBucket → Exec (Option Nat)
  | [] => .ok none
  | bucket :: chain =>
    if bucket.hash = hash ∧ bucket.len = slice.length then do
      let span ← getAt self.spans bucket.index
      let items ← Theory.slice self.slices span.start span.stop
      if items = slice then .ok (some bucket.index) else self.findIn hash slice chain
    else self.findIn hash slice chain

section Hashed

-- the hasher of the element type
variable (hasher : List T → UInt64)

def findId (self : InternedSlices T) (slice : List T) : Exec (Option Nat) := do
  let hash := hasher slice
  let chain ← getAt self.buckets (self.bucketIndex hash)
  self.findIn hash slice chain

def toId (self : InternedSlices T) (slice : List T) : Exec (Nat × InternedSlices T) := do
  let hash := hasher slice
  let index := self.bucketIndex hash
  let chain ← getAt self.buckets index
  match ← self.findIn hash slice chain with
  | some id => .ok (id, self)
  | none =>
    let start := self.slices.length
    let spanIndex := self.spans.length
    .ok (spanIndex, { self with
      spans := self.spans ++ [⟨start, start + slice.length⟩]
      buckets := self.buckets.set index (chain ++ [⟨hash, slice.length, spanIndex⟩])
      slices := self.slices ++ slice })

end Hashed

/-- A sequence of `to_id` calls: their answers, and what they leave. -/
def run (hasher : List T → UInt64) : InternedSlices T → List (List T) →
    Exec (List Nat × InternedSlices T)
  | self, [] => .ok ([], self)
  | self, slice :: calls => do
    let (id, self) ← self.toId hasher slice
    let (ids, self) ← run hasher self calls
    .ok (id :: ids, self)

end Lookup

def fromId (self : InternedSlices T) (id : Nat) : Exec (Option (List T)) :=
  if id < self.spans.length then do
    let span ← getAt self.spans id
    let items ← Theory.slice self.slices span.start span.stop
    .ok (some items)
  else .ok none

/-- What the callback of `for_each` is called with, from a position on. -/
def visits (self : InternedSlices T) : (i : Nat) → List InternedSpan → Exec (List (Nat × List T))
  | _, [] => .ok []
  | i, span :: spans => do
    let items ← Theory.slice self.slices span.start span.stop
    let rest ← self.visits (i + 1) spans
    .ok ((i, items) :: rest)

def forEach (self : InternedSlices T) : Exec (List (Nat × List T)) := self.visits 0 self.spans

/-! ## The invariant -/

/-- The spans of slices that are stored one behind the other. -/
def spansFrom : (start : Nat) → List (List T) → List InternedSpan
  | _, [] => []
  | start, s :: items => ⟨start, start + s.length⟩ :: spansFrom (start + s.length) items

/-- The slices in the order of their ids. -/
structure Interned (hasher : List T → UInt64) (interned : InternedSlices T)
    (items : List (List T)) : Prop where
  nodup : items.Nodup
  slices : interned.slices = items.flatten
  spans : interned.spans = spansFrom 0 items
  /-- Every hash has a bucket. -/
  indexed : ∀ hash, interned.bucketIndex hash < interned.buckets.length
  /-- A bucket entry is about the slice with its index. -/
  sound : ∀ chain ∈ interned.buckets, ∀ bucket ∈ chain, ∃ s, items[bucket.index]? = some s ∧
    bucket.hash = hasher s ∧ bucket.len = s.length
  /-- A slice is found in the bucket of its hash. -/
  complete : ∀ i s, items[i]? = some s → ∃ chain,
    interned.buckets[interned.bucketIndex (hasher s)]? = some chain ∧
      ⟨hasher s, s.length, i⟩ ∈ chain

theorem length_spansFrom (start : Nat) (items : List (List T)) :
    (spansFrom start items).length = items.length := by
  induction items generalizing start with
  | nil => rfl
  | cons s items ih => rw [spansFrom, List.length_cons, List.length_cons, ih]

theorem spansFrom_append (start : Nat) (items : List (List T)) (s : List T) :
    spansFrom start (items ++ [s]) =
      spansFrom start items ++ [⟨start + items.flatten.length,
        start + items.flatten.length + s.length⟩] := by
  induction items generalizing start with
  | nil => rfl
  | cons first items ih =>
    rw [List.cons_append, spansFrom, ih, spansFrom, List.cons_append, List.flatten_cons,
      List.length_append, Nat.add_assoc start]

/-- A span delimits its slice in the storage. -/
theorem slice_spansFrom {items : List (List T)} {i : Nat} {s : List T} (h : items[i]? = some s)
    (stored : List T) :
    ∃ span, (spansFrom stored.length items)[i]? = some span ∧
      Theory.slice (stored ++ items.flatten) span.start span.stop = .ok s := by
  induction items generalizing i stored with
  | nil => cases h
  | cons first items ih =>
    cases i with
    | zero =>
      cases h
      refine ⟨⟨stored.length, stored.length + s.length⟩, rfl, ?_⟩
      rw [slice_eq_ok]
      refine ⟨⟨by simp, by simp⟩, ?_⟩
      simp
    | succ i =>
      obtain ⟨span, hspan, hslice⟩ := ih h (stored ++ first)
      refine ⟨span, ?_, ?_⟩
      · rw [List.length_append] at hspan
        exact hspan
      · rw [List.flatten_cons, ← List.append_assoc]
        exact hslice

section Interned

variable {hasher : List T → UInt64} {self : InternedSlices T} {items : List (List T)}

/-- The stored slice of an id. -/
theorem Interned.stored (h : Interned hasher self items) {i : Nat} {s : List T}
    (hs : items[i]? = some s) :
    ∃ span, getAt self.spans i = .ok span ∧
      Theory.slice self.slices span.start span.stop = .ok s := by
  obtain ⟨span, hspan, hslice⟩ := slice_spansFrom hs []
  rw [List.nil_append, ← h.slices] at hslice
  rw [List.length_nil, ← h.spans] at hspan
  exact ⟨span, getAt_eq_ok.mpr hspan, hslice⟩

theorem visits_eq (stored : List T) (hslices : self.slices = stored ++ items.flatten) (i : Nat) :
    self.visits i (spansFrom stored.length items) = .ok (items.zipIdx i |>.map Prod.swap) := by
  induction items generalizing i stored with
  | nil => rfl
  | cons s items ih =>
    obtain ⟨span, hspan, hslice⟩ := @slice_spansFrom T (s :: items) 0 s rfl stored
    cases hspan
    rw [← hslices] at hslice
    have hrest := ih (stored ++ s) (by rw [hslices]; simp) (i + 1)
    rw [List.length_append] at hrest
    rw [spansFrom, visits, hslice, ok_bind, hrest, ok_bind]
    rfl

theorem Interned.forEach_eq (h : Interned hasher self items) :
    self.forEach = .ok (items.zipIdx.map Prod.swap) := by
  unfold forEach
  rw [h.spans]
  exact visits_eq [] h.slices 0

theorem interned_replicate {k : Nat} (h : 2 ^ k < 2 ^ 64) :
    Interned hasher ⟨List.replicate (2 ^ k) [], UInt64.ofNat (2 ^ k - 1), [], []⟩ [] where
  nodup := List.nodup_nil
  slices := rfl
  spans := rfl
  indexed := fun hash => by
    have hpos := Nat.two_pow_pos k
    have hmask : (UInt64.ofNat (2 ^ k - 1)).toNat = 2 ^ k - 1 :=
      UInt64.toNat_ofNat_of_lt' (by show 2 ^ k - 1 < 2 ^ 64; omega)
    rw [bucketIndex, UInt64.toNat_and, hmask, List.length_replicate]
    exact Nat.and_lt_two_pow _ (by omega)
  sound := fun chain hmem bucket hbucket => by
    rw [List.eq_of_mem_replicate hmem] at hbucket
    cases hbucket
  complete := fun i s hs => nomatch hs

theorem Interned.fromId_eq (h : Interned hasher self items) (id : Nat) :
    self.fromId id = .ok items[id]? := by
  have hlen : self.spans.length = items.length := by rw [h.spans, length_spansFrom]
  unfold fromId
  by_cases hlt : id < items.length
  · have hget := List.getElem?_eq_getElem hlt
    obtain ⟨span, hspan, hitems⟩ := h.stored hget
    rw [if_pos (by omega), hspan, ok_bind, hitems, ok_bind, hget]
  · rw [if_neg (by omega), List.getElem?_eq_none (by omega)]

/-- A new collection is empty, for every number of buckets that has a next power of two. -/
theorem new_eq_ok (hasher : List T → UInt64) {bucketCount : Nat} (h : bucketCount ≤ 2 ^ 63) :
    ∃ start : InternedSlices T, InternedSlices.new bucketCount = .ok start ∧
      Interned hasher start [] := by
  unfold InternedSlices.new nextPowerOfTwo
  by_cases hpower : isPowerOfTwo bucketCount = true
  · have hlog : 2 ^ bucketCount.log2 = bucketCount := of_decide_eq_true hpower
    rw [if_pos hpower, ok_bind, ← hlog]
    exact ⟨_, rfl, interned_replicate (by omega)⟩
  · have hclog : 2 ^ Nat.clog 2 bucketCount ≤ 2 ^ 63 :=
      Nat.pow_le_pow_right (by decide) (Nat.clog_le_of_le_pow h)
    have hlt : 2 ^ Nat.clog 2 bucketCount < 2 ^ 64 := by omega
    rw [if_neg hpower, if_pos hlt, ok_bind]
    exact ⟨_, rfl, interned_replicate hlt⟩

variable [DecidableEq T]

/-- The loop over a chain finds the id of a slice with an entry in it, and no other. -/
theorem Interned.findIn_eq (h : Interned hasher self items) (slice : List T)
    {chain : List InternedBucket}
    (hsound : ∀ bucket ∈ chain, ∃ s, items[bucket.index]? = some s ∧
      bucket.hash = hasher s ∧ bucket.len = s.length) :
    (∃ i, self.findIn (hasher slice) slice chain = .ok (some i) ∧ items[i]? = some slice) ∨
    (self.findIn (hasher slice) slice chain = .ok none ∧
      ∀ bucket ∈ chain, items[bucket.index]? ≠ some slice) := by
  induction chain with
  | nil => exact Or.inr ⟨rfl, fun _ hmem => nomatch hmem⟩
  | cons bucket chain ih =>
    obtain ⟨⟨s, hs, hhash, hlen⟩, htail⟩ := List.forall_mem_cons.mp hsound
    obtain ⟨span, hspan, hitems⟩ := h.stored hs
    have hskip : s ≠ slice →
        self.findIn (hasher slice) slice (bucket :: chain) =
          self.findIn (hasher slice) slice chain := by
      intro hne
      rw [findIn]
      by_cases hmatch : bucket.hash = hasher slice ∧ bucket.len = slice.length
      · rw [if_pos hmatch, hspan, ok_bind, hitems, ok_bind, if_neg hne]
      · rw [if_neg hmatch]
    by_cases heq : s = slice
    · subst heq
      refine Or.inl ⟨bucket.index, ?_, hs⟩
      rw [findIn, if_pos ⟨hhash, hlen⟩, hspan, ok_bind, hitems, ok_bind, if_pos rfl]
    · rw [hskip heq]
      obtain hfound | ⟨hnone, hall⟩ := ih htail
      · exact Or.inl hfound
      · refine Or.inr ⟨hnone, List.forall_mem_cons.mpr ⟨?_, hall⟩⟩
        rw [hs]
        exact fun hsame => heq (Option.some.inj hsame)

/-- The chain of a hash, and what the loop over it finds. -/
theorem Interned.lookup (h : Interned hasher self items) (slice : List T) :
    ∃ chain, self.buckets[self.bucketIndex (hasher slice)]? = some chain ∧
      self.findIn (hasher slice) slice chain =
        .ok (if slice ∈ items then some (numberOf items slice) else none) := by
  have hchain := List.getElem?_eq_getElem (h.indexed (hasher slice))
  refine ⟨_, hchain, ?_⟩
  obtain ⟨i, hfound, hi⟩ | ⟨hnone, hall⟩ :=
    h.findIn_eq slice (h.sound _ (List.mem_of_getElem? hchain))
  · rw [hfound, if_pos (List.mem_of_getElem? hi), numberOf_eq h.nodup hi]
  · have hnot : slice ∉ items := fun hmem => by
      obtain ⟨i, hi⟩ := List.getElem?_of_mem hmem
      obtain ⟨chain, hsame, hentry⟩ := h.complete i slice hi
      rw [hchain] at hsame
      cases hsame
      exact hall _ hentry hi
    rw [hnone, if_neg hnot]

theorem Interned.findId_eq (h : Interned hasher self items) (slice : List T) :
    self.findId hasher slice =
      .ok (if slice ∈ items then some (numberOf items slice) else none) := by
  obtain ⟨chain, hchain, hfind⟩ := h.lookup slice
  simp only [findId, getAt_eq_ok.mpr hchain, ok_bind, hfind]

/-- A new slice is stored behind the others and put in the bucket of its hash. -/
theorem Interned.insert (h : Interned hasher self items) {slice : List T}
    (hnew : slice ∉ items) {chain : List InternedBucket}
    (hchain : self.buckets[self.bucketIndex (hasher slice)]? = some chain) :
    Interned hasher { self with
      spans := self.spans ++ [⟨self.slices.length, self.slices.length + slice.length⟩]
      buckets := self.buckets.set (self.bucketIndex (hasher slice))
        (chain ++ [⟨hasher slice, slice.length, self.spans.length⟩])
      slices := self.slices ++ slice } (items ++ [slice]) := by
  have hlen : self.spans.length = items.length := by rw [h.spans, length_spansFrom]
  have hlast : (items ++ [slice])[items.length]? = some slice := by simp
  have hkept : ∀ {i : Nat} {s : List T}, items[i]? = some s →
      (items ++ [slice])[i]? = some s := fun hs =>
    (List.getElem?_append_left (List.getElem?_eq_some_iff.mp hs).1).trans hs
  refine ⟨?_, ?_, ?_, fun hash => ?_, fun chain' hmem bucket hbucket => ?_, fun i s hs => ?_⟩
  · rw [← insertNew_of_not_mem hnew]
    exact nodup_insertNew h.nodup slice
  · simp [h.slices]
  · rw [h.spans, h.slices, spansFrom_append, Nat.zero_add]
  · simp only [List.length_set]
    exact h.indexed hash
  · obtain hold | rfl := List.mem_or_eq_of_mem_set hmem
    · obtain ⟨s, hs, hrest⟩ := h.sound chain' hold bucket hbucket
      exact ⟨s, hkept hs, hrest⟩
    · obtain hbucket | hbucket := List.mem_append.mp hbucket
      · obtain ⟨s, hs, hrest⟩ := h.sound chain (List.mem_of_getElem? hchain) bucket hbucket
        exact ⟨s, hkept hs, hrest⟩
      · cases List.mem_singleton.mp hbucket
        exact ⟨slice, by rw [hlen]; exact hlast, rfl, rfl⟩
  · by_cases hi : i < items.length
    · rw [List.getElem?_append_left hi] at hs
      obtain ⟨chain', hget, hentry⟩ := h.complete i s hs
      by_cases hsame : self.bucketIndex (hasher slice) = self.bucketIndex (hasher s)
      · rw [hsame] at hchain
        rw [hget] at hchain
        cases hchain
        refine ⟨chain ++ [⟨hasher slice, slice.length, self.spans.length⟩], ?_,
          List.mem_append_left _ hentry⟩
        show (self.buckets.set _ _)[self.bucketIndex (hasher s)]? = _
        rw [hsame, List.getElem?_set_self (h.indexed _)]
      · refine ⟨chain', ?_, hentry⟩
        show (self.buckets.set _ _)[self.bucketIndex (hasher s)]? = _
        rw [List.getElem?_set_ne hsame, hget]
    · have hi : i = items.length := by
        have := (List.getElem?_eq_some_iff.mp hs).1
        rw [List.length_append, List.length_singleton] at this
        omega
      subst hi
      rw [hlast] at hs
      cases hs
      refine ⟨_, List.getElem?_set_self (h.indexed _), ?_⟩
      rw [hlen]
      exact List.mem_append_right _ (List.mem_singleton.mpr rfl)

/-- **`to_id`** answers the number of the slice and keeps the invariant. -/
theorem Interned.toId_eq (h : Interned hasher self items) (slice : List T) :
    ∃ next, self.toId hasher slice = .ok (numberOf (insertNew items slice) slice, next) ∧
      Interned hasher next (insertNew items slice) ∧ (slice ∈ items → next = self) := by
  obtain ⟨chain, hchain, hfind⟩ := h.lookup slice
  simp only [toId, getAt_eq_ok.mpr hchain, ok_bind, hfind]
  by_cases hmem : slice ∈ items
  · rw [insertNew_of_mem hmem]
    simp only [if_pos hmem]
    exact ⟨self, rfl, h, fun _ => rfl⟩
  · have hlen : self.spans.length = numberOf (items ++ [slice]) slice := by
      rw [h.spans, length_spansFrom, numberOf_append_new hmem]
    rw [insertNew_of_not_mem hmem]
    simp only [if_neg hmem, hlen]
    refine ⟨_, rfl, ?_, fun hin => absurd hin hmem⟩
    rw [← hlen]
    exact h.insert hmem hchain

/-- **A sequence of calls** numbers the slices in the order they are first seen. -/
theorem Interned.run_eq (h : Interned hasher self items) (calls : List (List T)) :
    ∃ last, run hasher self calls =
        .ok (calls.map (numberOf (calls.foldl insertNew items)), last) ∧
      Interned hasher last (calls.foldl insertNew items) := by
  induction calls generalizing self items with
  | nil => exact ⟨self, rfl, h⟩
  | cons slice calls ih =>
    obtain ⟨next, hid, hnext, -⟩ := h.toId_eq slice
    obtain ⟨last, hrun, hlast⟩ := ih hnext
    refine ⟨last, ?_, hlast⟩
    have hkept := prefix_foldl_insertNew calls (insertNew items slice)
    rw [run, hid, ok_bind]
    simp only [hrun, ok_bind, List.map_cons, List.foldl_cons]
    rw [numberOf_extend hkept (mem_insertNew.mpr (Or.inr rfl))]

theorem Interned.run_distinct (h : Interned hasher self []) (calls : List (List T)) :
    ∃ last, run hasher self calls = .ok (calls.map (numberOf (distinct calls)), last) ∧
      Interned hasher last (distinct calls) :=
  h.run_eq calls

/-- **Interning**: ids number the slices in the order they are first seen, from 0 on; they lead
back to their slices, also behind further calls; and slices are found and visited by them. -/
theorem run_numbers (hasher : List T → UInt64) {bucketCount : Nat} (h : bucketCount ≤ 2 ^ 63)
    (calls : List (List T)) :
    ∃ start ids last, InternedSlices.new bucketCount = .ok start ∧
      run hasher start calls = .ok (ids, last) ∧ ids.length = calls.length ∧
      (∀ before slice after, calls = before ++ slice :: after → slice ∉ before →
        ids[before.length]? = some (distinct before).length) ∧
      (∀ i < calls.length, ∀ j < calls.length, ids[i]? = ids[j]? ↔ calls[i]? = calls[j]?) ∧
      (∀ (i id : Nat), ids[i]? = some id → last.fromId id = .ok calls[i]?) ∧
      (∀ slice id, last.findId hasher slice = .ok (some id) ↔
        slice ∈ calls ∧ last.toId hasher slice = .ok (id, last)) ∧
      (∀ slice, last.findId hasher slice = .ok none ↔ slice ∉ calls) ∧
      last.forEach = .ok ((distinct calls).zipIdx.map Prod.swap) ∧
      (distinct calls).Nodup ∧ ∀ slice, slice ∈ distinct calls ↔ slice ∈ calls := by
  obtain ⟨start, hstart, hempty⟩ := new_eq_ok hasher h
  obtain ⟨last, hrun, hlast⟩ := hempty.run_distinct calls
  have hget (i : Nat) : (calls.map (numberOf (distinct calls)))[i]? =
      calls[i]?.map (numberOf (distinct calls)) := List.getElem?_map
  refine ⟨start, _, last, hstart, hrun, List.length_map _, ?_, ?_, ?_, ?_, ?_, hlast.forEach_eq,
    nodup_distinct calls, fun slice => mem_distinct⟩
  · rintro before slice after rfl hfirst
    have hslice : (before ++ slice :: after)[before.length]? = some slice := by simp
    rw [hget, hslice, Option.map_some, numberOf_distinct_of_first hfirst]
  · intro i hi j hj
    have hmem (k : Nat) (hk : k < calls.length) : calls[k] ∈ distinct calls :=
      mem_distinct.mpr (List.getElem_mem hk)
    rw [hget, hget, List.getElem?_eq_getElem hi, List.getElem?_eq_getElem hj, Option.map_some,
      Option.map_some, Option.some.injEq, Option.some.injEq]
    exact numberOf_inj (hmem i hi) (hmem j hj)
  · intro i id hid
    rw [hget] at hid
    obtain ⟨slice, hslice, rfl⟩ := Option.map_eq_some_iff.mp hid
    rw [hlast.fromId_eq, hslice]
    exact congrArg _ (getElem?_numberOf (mem_distinct.mpr (List.mem_of_getElem? hslice)))
  · intro slice id
    obtain ⟨next, hid, -, hsame⟩ := hlast.toId_eq slice
    rw [hlast.findId_eq, hid]
    by_cases hmem : slice ∈ distinct calls
    · have hin : slice ∈ calls := mem_distinct.mp hmem
      rw [if_pos hmem, hsame hmem, insertNew_of_mem hmem]
      simp [hin]
    · have hnot : slice ∉ calls := fun hin => hmem (mem_distinct.mpr hin)
      simp [if_neg hmem, hnot]
  · intro slice
    rw [hlast.findId_eq]
    by_cases hmem : slice ∈ distinct calls
    · simp [if_pos hmem, mem_distinct.mp hmem]
    · simp [if_neg hmem, mt mem_distinct.mpr hmem]

/-- One bucket chain for all slices: three buckets asked for, and one hash. -/
theorem run_numbers_collisions :
    ∃ start ids last, InternedSlices.new 3 = .ok start ∧
      run (fun _ => 0) start [[1, 2], [], [3], [1, 2]] = .ok (ids, last) ∧
      last.forEach = .ok [(0, [1, 2]), (1, []), (2, [3])] := by
  obtain ⟨start, ids, last, hstart, hrun, -, -, -, -, -, -, hvisits, -⟩ :=
    run_numbers (fun _ => 0) (by decide : 3 ≤ 2 ^ 63) [[1, 2], [], [3], [1, 2]]
  exact ⟨start, ids, last, hstart, hrun, hvisits⟩

end Interned

end InternedSlices

end OneCollect.Interning
