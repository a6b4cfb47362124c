import OneCollect.Exporting.AnonMaps

/-! Where dynamic symbols go: `add_dynamic_symbol_mappings` of `process.rs`. A symbol goes to the
mapping that holds its start, or to a new one of whole pages.

As the symbols come by ascending start, only the last of the new mappings can hold the next one.
The new mappings are therefore apart, and each ends behind its symbols
(`addDynamicSymbolMappings_places`). -/

namespace OneCollect.Exporting
open Theory ExportMappingLookup

/-! ## Pages -/

section Pages

variable {host : ProcessHost} {k address : Nat}

/-- The mask of a page size clears the bits below it. -/
theorem and_pageMask (hk : k ≤ 64) (h : address < 2 ^ 64) :
    address &&& pageSizeToMask (2 ^ k) = address - address % 2 ^ k := by
  have hmask : pageSizeToMask (2 ^ k) = (2 ^ (64 - k) - 1) <<< k := by
    rw [Nat.shiftLeft_eq, Nat.sub_mul, ← Nat.pow_add, Nat.sub_add_cancel hk, pageSizeToMask]
    have hpos : 0 < 2 ^ k := Nat.two_pow_pos k
    omega
  have hpage : address - address % 2 ^ k = (address >>> k) <<< k := by
    rw [Nat.shiftLeft_eq, Nat.shiftRight_eq_div_pow, Nat.mul_comm]
    have hdiv := Nat.div_add_mod address (2 ^ k)
    omega
  rw [hmask, hpage]
  refine Nat.eq_of_testBit_eq fun i => ?_
  rw [Nat.testBit_and, Nat.testBit_shiftLeft, Nat.testBit_shiftLeft, Nat.testBit_two_pow_sub_one,
    Nat.testBit_shiftRight]
  by_cases hi : k ≤ i
  · by_cases hlt : i < 64
    · have hbit : i - k < 64 - k := by omega
      simp [hi, hbit]
    · have hbit : address.testBit i = false :=
        Nat.testBit_lt_two_pow (h.trans_le (Nat.pow_le_pow_right (by decide) (by omega)))
      simp [hi, hbit]
  · simp [hi]

/-- The pages of a system, whose kernel starts at one. -/
structure Paged (host : ProcessHost) (k : Nat) : Prop where
  size : host.pageSize = 2 ^ k
  le : k ≤ 47

theorem Paged.start_eq (h : Paged host k) (haddress : address < 2 ^ 64) :
    address &&& host.pageMask = address - address % host.pageSize := by
  have hle := h.le
  rw [ProcessHost.pageMask, h.size]
  exact and_pageMask (by omega) haddress

theorem Paged.pos (h : Paged host k) : 0 < host.pageSize := by
  rw [h.size]
  exact Nat.two_pow_pos k

theorem Paged.end_eq (h : Paged host k) (haddress : address < kernelStart) :
    host.pageEnd address =
      .ok (address - address % host.pageSize + host.pageSize - 1) := by
  have hsize : host.pageSize ≤ 2 ^ 47 := by
    rw [h.size]
    exact Nat.pow_le_pow_right (by decide) h.le
  have hkernel : kernelStart = 2 ^ 64 - 2 ^ 47 := by decide
  have hpos := h.pos
  rw [ProcessHost.pageEnd, h.start_eq (by omega), host.checks.addU64_of_lt (by omega), ok_bind]
  exact host.checks.subU64_of_le (by omega) (by omega)

/-- The start of a page is not before an address that starts one. -/
theorem le_page_start {size first address : Nat} (hfirst : first % size = 0)
    (hle : first ≤ address) : first ≤ address - address % size := by
  have hdiv := Nat.div_le_div_right (c := size) hle
  have hmul := Nat.mul_le_mul_left size hdiv
  have hsplit := Nat.div_add_mod first size
  have hsplit' := Nat.div_add_mod address size
  omega

end Pages

/-! ## Looking up -/

/-- A loop over mappings finds one that holds the address, if any. -/
theorem foldl_consider_inside {ms : List ExportMapping} {xs : List (ExportMapping × Nat)}
    (hxs : Numbered ms xs) (address time : Nat) :
    ∀ i ∈ (xs.foldl (fun best x => consider address time best x.1 x.2) none).map (·.2),
      ∃ m, ms[i]? = some m ∧ m.containsIp address = true := by
  intro i hi
  rcases foldl_consider hxs address time with ⟨hnone, -⟩ | ⟨y, -, hsome, hcandidate, -⟩
  · rw [hnone] at hi
    cases hi
  · rw [hsome] at hi
    cases hi
    exact ⟨y.1, hcandidate.1, hcandidate.2.1⟩

/-- A lookup that finds a mapping finds one that holds the address. -/
theorem findIndex_inside {host : ProcessHost} (hlookup : 0 < host.minLookup) (p : ExportProcess)
    (ip : Nat) (time : Option Nat) :
    ∃ found, p.findIndex host ip time = .ok found ∧
      ∀ i ∈ found, ∃ m, p.mappings[i]? = some m ∧ m.containsIp ip = true := by
  have hmappings : ∀ {i : Nat}, (∃ m, (p.mappings.map (·.toExportMapping))[i]? = some m ∧
      m.containsIp ip = true) → ∃ m, p.mappings[i]? = some m ∧ m.containsIp ip = true := by
    rintro i ⟨m, hget, hip⟩
    rw [List.getElem?_map] at hget
    obtain ⟨mapping, hmapping, rfl⟩ := Option.map_eq_some_iff.mp hget
    exact ⟨mapping, hmapping, hip⟩
  suffices h : ∃ found s', ExportMappingLookup.findIndex host.hashOrder
      { mappings := p.mappings.map (·.toExportMapping), minLookup := host.minLookup } ip time =
        .ok (found, s') ∧ ∀ i ∈ found, ∃ m,
          (p.mappings.map (·.toExportMapping))[i]? = some m ∧ m.containsIp ip = true by
    obtain ⟨found, s', hrun, hfound⟩ := h
    refine ⟨found, ?_, fun i hi => hmappings (hfound i hi)⟩
    unfold ExportProcess.findIndex
    dsimp only
    rw [hrun]
    rfl
  generalize p.mappings.map (·.toExportMapping) = ms
  by_cases hmin : host.minLookup ≤ ms.length
  · have hne : ms ≠ [] := fun hnil => by
      rw [hnil, List.length_nil] at hmin
      omega
    obtain ⟨l, hl, hlt, -⟩ := find_lookupItems host.hashOrder hne ip
    obtain ⟨xs, hxs, -, hfold⟩ := foldlM_consider ip (time.getD u64Max) hlt none
    refine ⟨_, ⟨.update host.hashOrder (lookupItems ms), ms, host.minLookup⟩, ?_,
      foldl_consider_inside hxs ip (time.getD u64Max)⟩
    have hself : (if (⟨{}, ms, host.minLookup⟩ : ExportMappingLookup).lookup.isEmpty = true then
        buildLookup host.hashOrder ⟨{}, ms, host.minLookup⟩ else ⟨{}, ms, host.minLookup⟩) =
          ⟨.update host.hashOrder (lookupItems ms), ms, host.minLookup⟩ := rfl
    unfold ExportMappingLookup.findIndex
    rw [if_pos hmin, hself]
    simp only [hl, ok_bind]
    rw [hfold]
    rfl
  · have hxs : Numbered ms ms.zipIdx := fun x hx => List.mem_zipIdx_iff_getElem?.mp hx
    refine ⟨_, ⟨{}, ms, host.minLookup⟩, ?_, foldl_consider_inside hxs ip (time.getD u64Max)⟩
    unfold ExportMappingLookup.findIndex
    rw [if_neg hmin]
    rfl

/-! ## Placement -/

/-- The symbols that a mapping takes in, by their order. -/
def addedTo (placed : List (ExportTimeSymbol × Nat)) (i : Nat) : List ExportSymbol :=
  (placed.filter (·.2 = i)).map (·.1.symbol)

def ProcessMapping.takes (self : ProcessMapping) (symbols : List ExportSymbol) : ProcessMapping :=
  { self with symbols := self.symbols ++ symbols }

theorem takes_nil (m : ProcessMapping) : m.takes [] = m := by
  rw [ProcessMapping.takes, List.append_nil]

theorem addedTo_concat_self (placed : List (ExportTimeSymbol × Nat)) (d : ExportTimeSymbol)
    (i : Nat) : addedTo (placed ++ [(d, i)]) i = addedTo placed i ++ [d.symbol] := by
  rw [addedTo, List.filter_append, List.map_append, List.filter_cons_of_pos (by simp)]
  rfl

theorem addedTo_concat_of_ne {i j : Nat} (h : j ≠ i) (placed : List (ExportTimeSymbol × Nat))
    (d : ExportTimeSymbol) : addedTo (placed ++ [(d, j)]) i = addedTo placed i := by
  rw [addedTo, List.filter_append, List.map_append, List.filter_cons_of_neg (by simpa using h)]
  exact List.append_nil _

/-- A new mapping: whole pages around the symbols it took in, from the earliest of their times. -/
structure NewMapping (host : ProcessHost) (placed : List (ExportTimeSymbol × Nat)) (i : Nat)
    (m : ProcessMapping) : Prop where
  starts : m.start % host.pageSize = 0
  ends : (m.stop + 1) % host.pageSize = 0
  symbols : m.symbols = addedTo placed i
  covers : ∀ d, (d, i) ∈ placed → m.start ≤ d.symbol.start ∧ d.symbol.stop ≤ m.stop
  taken : ∃ d, (d, i) ∈ placed ∧ d.time = m.time
  earliest : ∀ d, (d, i) ∈ placed → m.time ≤ d.time

/-- Where the symbols went: each to the mapping of its pair, which holds its start. The mappings
that were there take in symbols and nothing else, and the new ones are apart. -/
structure Places (host : ProcessHost) (t u : DynamicProcess)
    (placed : List (ExportTimeSymbol × Nat)) : Prop where
  symbols : (placed.map Prod.fst).Perm t.dynSymbols
  inside : ∀ p ∈ placed, ∃ m, u.mappings[p.2]? = some m ∧ m.containsIp p.1.symbol.start = true
  old : ∀ (i : Nat) (m : ProcessMapping), t.mappings[i]? = some m →
    u.mappings[i]? = some (m.takes (addedTo placed i))
  new : ∀ (i : Nat) (m : ProcessMapping), t.mappings.length ≤ i → u.mappings[i]? = some m →
    NewMapping host placed i m
  apart : (u.mappings.drop t.mappings.length).Pairwise fun m later => m.stop < later.start
  drained : u.dynSymbols = []

/-- The loop after some symbols were placed. -/
structure Placing (host : ProcessHost) (t : DynamicProcess) (mapIndex : Nat)
    (placed : List (ExportTimeSymbol × Nat)) (s : LinkState) : Prop where
  drained : s.process.dynSymbols = []
  old : s.process.mappings = t.mappings.mapIdx fun i m => ProcessMapping.takes m (addedTo placed i)
  new : ∀ j m, s.dynMappings[j]? = some m → NewMapping host placed (t.mappings.length + j) m
  apart : s.dynMappings.Pairwise fun m later => m.stop < later.start
  target : ∀ p ∈ placed, (∃ m, t.mappings[p.2]? = some m ∧
    m.containsIp p.1.symbol.start = true) ∨ ∃ j < s.dynMappings.length, p.2 = t.mappings.length + j
  index : s.mapIndex = mapIndex + s.dynMappings.length
  few : s.dynMappings.length ≤ placed.length

section Step

variable {host : ProcessHost} {k mapIndex : Nat} {t : DynamicProcess} {s : LinkState}
  {placed : List (ExportTimeSymbol × Nat)} {d : ExportTimeSymbol}

/-- A mapping that takes in no more stays as it is. -/
theorem NewMapping.other {i j : Nat} {m : ProcessMapping} (h : NewMapping host placed i m)
    (hne : j ≠ i) (d : ExportTimeSymbol) : NewMapping host (placed ++ [(d, j)]) i m := by
  have hmem : ∀ e, (e, i) ∈ placed ++ [(d, j)] → (e, i) ∈ placed := by
    intro e he
    rcases List.mem_append.mp he with he | he
    · exact he
    · exact absurd (congrArg Prod.snd (List.mem_singleton.mp he)).symm hne
  obtain ⟨e, he, htime⟩ := h.taken
  refine ⟨h.starts, h.ends, ?_, fun e he => h.covers e (hmem e he),
    ⟨e, List.mem_append_left _ he, htime⟩, fun e he => h.earliest e (hmem e he)⟩
  rw [addedTo_concat_of_ne hne, h.symbols]

/-- The last page of an address. -/
theorem pageEnd_facts (hpaged : Paged host k) (address : Nat) :
    address ≤ address - address % host.pageSize + host.pageSize - 1 ∧
      (address - address % host.pageSize + host.pageSize - 1 + 1) % host.pageSize = 0 ∧
      (address - address % host.pageSize) % host.pageSize = 0 := by
  have hpos := hpaged.pos
  have hlt := Nat.mod_lt address hpos
  have hle := Nat.mod_le address host.pageSize
  have hstart : (address - address % host.pageSize) % host.pageSize = 0 :=
    Nat.sub_mod_eq_zero_of_mod_eq (Nat.mod_mod _ _).symm
  have hend : address - address % host.pageSize + host.pageSize - 1 + 1 =
      address - address % host.pageSize + host.pageSize := by omega
  refine ⟨by omega, ?_, hstart⟩
  rw [hend, Nat.add_mod_right]
  exact hstart

/-- **A symbol is taken in** by a new mapping that holds its start. -/
theorem NewMapping.widen {i : Nat} {m : ProcessMapping} (h : NewMapping host placed i m)
    (hpaged : Paged host k) (hstop : d.symbol.stop < kernelStart)
    (hip : m.containsIp d.symbol.start = true) :
    ∃ m', m.widen host d.time d.symbol = .ok m' ∧ m'.start = m.start ∧
      NewMapping host (placed ++ [(d, i)]) i m' := by
  obtain ⟨stop, hextend, hle, hlast, hends⟩ : ∃ stop,
      (if m.time > d.time then { m with time := d.time } else m).extendTo host d.symbol.stop =
        .ok { m with time := min m.time d.time, stop } ∧
      m.stop ≤ stop ∧ d.symbol.stop ≤ stop ∧ (stop + 1) % host.pageSize = 0 := by
    have htime : (if m.time > d.time then { m with time := d.time } else m) =
        { m with time := min m.time d.time } := by
      split_ifs with hlater
      · rw [Nat.min_eq_right (Nat.le_of_lt hlater)]
      · rw [Nat.min_eq_left (Nat.le_of_not_lt hlater)]
    rw [htime, ProcessMapping.extendTo]
    obtain ⟨hpage, hpageEnds, -⟩ := pageEnd_facts hpaged d.symbol.stop
    by_cases hextends : m.stop < d.symbol.stop
    · refine ⟨_, ?_, ?_, hpage, hpageEnds⟩
      · rw [if_pos hextends, hpaged.end_eq hstop]
        rfl
      · omega
    · exact ⟨m.stop, if_neg hextends, le_refl _, Nat.le_of_not_lt hextends, h.ends⟩
  have hstart := (containsIp_iff.mp hip).1
  refine ⟨({ m with time := min m.time d.time, stop } : ProcessMapping).addSymbol d.symbol, ?_, rfl,
    ?_⟩
  · rw [ProcessMapping.widen, hextend]
    rfl
  · have hmem : ∀ e, (e, i) ∈ placed ++ [(d, i)] → (e, i) ∈ placed ∨ e = d := by
      intro e he
      rcases List.mem_append.mp he with he | he
      · exact .inl he
      · exact .inr (congrArg Prod.fst (List.mem_singleton.mp he))
    refine ⟨h.starts, hends, ?_, fun e he => ?_, ?_, fun e he => ?_⟩
    · rw [addedTo_concat_self, ← h.symbols]
      rfl
    · rcases hmem e he with he | rfl
      · exact ⟨(h.covers e he).1, (h.covers e he).2.trans hle⟩
      · exact ⟨hstart, hlast⟩
    · obtain ⟨e, he, htime⟩ := h.taken
      rcases Nat.le_total m.time d.time with hearlier | hearlier
      · exact ⟨e, List.mem_append_left _ he, htime.trans (Nat.min_eq_left hearlier).symm⟩
      · exact ⟨d, List.mem_append_right _ List.mem_cons_self, (Nat.min_eq_right hearlier).symm⟩
    · rcases hmem e he with he | rfl
      · exact (Nat.min_le_left _ _).trans (h.earliest e he)
      · exact Nat.min_le_right _ _

/-- A symbol that no mapping holds gets the pages around it. -/
theorem dynMapping_new {i : Nat} (hpaged : Paged host k) (hi : ∀ p ∈ placed, p.2 ≠ i)
    (hordered : d.symbol.start ≤ d.symbol.stop) (hstop : d.symbol.stop < kernelStart)
    (mapIndex : Nat) :
    ∃ m, dynMapping host d.time d.symbol mapIndex = .ok m ∧
      m.start = d.symbol.start - d.symbol.start % host.pageSize ∧
      NewMapping host (placed ++ [(d, i)]) i m := by
  have hkernel : kernelStart < 2 ^ 64 := by decide
  obtain ⟨hlast, hends, -⟩ := pageEnd_facts hpaged d.symbol.stop
  obtain ⟨-, -, hstarts⟩ := pageEnd_facts hpaged d.symbol.start
  have hmem : ∀ e, (e, i) ∈ placed ++ [(d, i)] → e = d := by
    intro e he
    rcases List.mem_append.mp he with he | he
    · exact absurd rfl (hi _ he)
    · exact congrArg Prod.fst (List.mem_singleton.mp he)
  have hnone : addedTo placed i = [] := by
    rw [addedTo, List.filter_eq_nil_iff.mpr fun p hp => by simpa using hi p hp]
    rfl
  unfold dynMapping
  rw [hpaged.start_eq (by omega), hpaged.end_eq hstop]
  refine ⟨_, rfl, rfl, hstarts, hends, ?_, fun e he => ?_, ?_, fun e he => ?_⟩
  · rw [addedTo_concat_self, hnone]
    rfl
  · rw [hmem e he]
    exact ⟨Nat.sub_le _ _, hlast⟩
  · exact ⟨d, List.mem_append_right _ List.mem_cons_self, rfl⟩
  · rw [hmem e he]

theorem widenFirst_none {time : Nat} {symbol : ExportSymbol} {ms : List ProcessMapping}
    (h : ∀ m ∈ ms, m.containsIp symbol.start = false) :
    widenFirst host time symbol ms = .ok none := by
  induction ms with
  | nil => rfl
  | cons m ms ih =>
    obtain ⟨hm, h⟩ := List.forall_mem_cons.mp h
    rw [widenFirst, if_neg (by rw [hm]; decide), ih h]
    rfl

theorem widenFirst_last {time : Nat} {symbol : ExportSymbol} {ms : List ProcessMapping}
    {m m' : ProcessMapping} (h : ∀ m ∈ ms, m.containsIp symbol.start = false)
    (hip : m.containsIp symbol.start = true) (hwiden : m.widen host time symbol = .ok m') :
    widenFirst host time symbol (ms ++ [m]) = .ok (some (ms ++ [m'])) := by
  induction ms with
  | nil =>
    rw [List.nil_append, widenFirst, if_pos hip, hwiden]
    rfl
  | cons first ms ih =>
    obtain ⟨hfirst, h⟩ := List.forall_mem_cons.mp h
    rw [List.cons_append, widenFirst, if_neg (by rw [hfirst]; decide), ih h]
    rfl

/-- A new mapping starts at or before the symbols to come. -/
theorem Placing.start_le (h : Placing host t mapIndex placed s)
    (hlater : ∀ p ∈ placed, p.1.symbol.start ≤ d.symbol.start) {m : ProcessMapping}
    (hm : m ∈ s.dynMappings) : m.start ≤ d.symbol.start := by
  obtain ⟨j, hj⟩ := List.mem_iff_getElem?.mp hm
  have hnew := h.new j m hj
  obtain ⟨e, he, -⟩ := hnew.taken
  exact (hnew.covers e he).1.trans (hlater _ he)

/-- The symbol goes to a mapping of the process. -/
theorem Placing.mapped (h : Placing host t mapIndex placed s) {i : Nat} {m : ProcessMapping}
    (hget : s.process.mappings[i]? = some m) (hip : m.containsIp d.symbol.start = true) :
    Placing host t mapIndex (placed ++ [(d, i)])
      { s with
        process := { s.process with mappings := s.process.mappings.set i (m.addSymbol d.symbol) } }
    := by
  have hlt : i < t.mappings.length := by
    have hlt := (List.getElem?_eq_some_iff.mp hget).1
    rwa [h.old, List.length_mapIdx] at hlt
  have hold : ∃ m₀, t.mappings[i]? = some m₀ ∧ m = m₀.takes (addedTo placed i) := by
    rw [h.old, List.getElem?_mapIdx] at hget
    obtain ⟨m₀, hm₀, hm⟩ := Option.map_eq_some_iff.mp hget
    exact ⟨m₀, hm₀, hm.symm⟩
  obtain ⟨m₀, hm₀, hm⟩ := hold
  refine ⟨h.drained, ?_, fun j m' hj => (h.new j m' hj).other (by omega) d, h.apart, ?_, h.index,
    ?_⟩
  · refine List.ext_getElem? fun j => ?_
    rw [List.getElem?_mapIdx]
    by_cases hji : i = j
    · subst hji
      rw [List.getElem?_set_self (by rwa [h.old, List.length_mapIdx]), hm₀, hm,
        Option.map_some, addedTo_concat_self]
      unfold ProcessMapping.addSymbol ProcessMapping.takes
      rw [List.append_assoc]
    · rw [List.getElem?_set_ne hji, h.old, List.getElem?_mapIdx, addedTo_concat_of_ne hji]
  · rw [List.forall_mem_append, List.forall_mem_singleton]
    refine ⟨h.target, .inl ⟨m₀, hm₀, ?_⟩⟩
    rw [hm] at hip
    exact hip
  · exact h.few.trans (by rw [List.length_append]; exact Nat.le_add_right _ _)

/-- The symbol goes to a new mapping behind `front`, which are the others. -/
theorem Placing.placed_last (h : Placing host t mapIndex placed s) {front : List ProcessMapping}
    {m : ProcessMapping} {n : Nat} (hfront : front <+: s.dynMappings)
    (hothers : s.dynMappings.length ≤ front.length + 1) (hn : n = mapIndex + (front.length + 1))
    (hapart : ∀ other ∈ front, other.stop < m.start)
    (hnew : NewMapping host (placed ++ [(d, t.mappings.length + front.length)])
      (t.mappings.length + front.length) m) :
    Placing host t mapIndex (placed ++ [(d, t.mappings.length + front.length)])
      { s with dynMappings := front ++ [m], mapIndex := n } := by
  have hlength : (front ++ [m]).length = front.length + 1 := by
    rw [List.length_append, List.length_singleton]
  refine ⟨h.drained, ?_, fun j m' hj => ?_, ?_, ?_, ?_, ?_⟩
  · rw [h.old]
    refine List.ext_getElem? fun j => ?_
    rw [List.getElem?_mapIdx, List.getElem?_mapIdx]
    by_cases hj : j < t.mappings.length
    · rw [addedTo_concat_of_ne (by omega)]
    · rw [List.getElem?_eq_none (Nat.le_of_not_lt hj)]
      rfl
  · by_cases hj' : j < front.length
    · rw [List.getElem?_append_left hj'] at hj
      refine (h.new j m' ?_).other (by omega) d
      obtain ⟨back, hback⟩ := hfront
      rw [← hback, List.getElem?_append_left hj', hj]
    · have hjlt := (List.getElem?_eq_some_iff.mp hj).1
      dsimp only at hjlt
      obtain rfl : j = front.length := by omega
      rw [List.getElem?_append_right (le_refl _), Nat.sub_self] at hj
      cases hj
      exact hnew
  · refine List.pairwise_append.mpr ⟨h.apart.sublist hfront.sublist, List.pairwise_singleton _ _,
      fun a ha b hb => ?_⟩
    rw [List.mem_singleton.mp hb]
    exact hapart a ha
  · rw [List.forall_mem_append, List.forall_mem_singleton]
    refine ⟨fun p hp => (h.target p hp).imp_right ?_, .inr ⟨front.length, ?_, rfl⟩⟩
    · rintro ⟨j, hj, heq⟩
      exact ⟨j, (hj.trans_le hothers).trans_eq hlength.symm, heq⟩
    · rw [hlength]
      exact Nat.lt_succ_self _
  · dsimp only
    rw [hn, hlength]
  · dsimp only
    rw [hlength, List.length_append, List.length_singleton]
    exact Nat.succ_le_succ (hfront.length_le.trans h.few)

/-- **One turn** of the loop places its symbol. -/
theorem Placing.link (h : Placing host t mapIndex placed s) (hpaged : Paged host k)
    (hlookup : 0 < host.minLookup) (hordered : d.symbol.start ≤ d.symbol.stop)
    (hstop : d.symbol.stop < kernelStart)
    (hlater : ∀ p ∈ placed, p.1.symbol.start ≤ d.symbol.start)
    (hindex : mapIndex + placed.length + 1 < 2 ^ 64) :
    ∃ s' i, s.link host d = .ok s' ∧ Placing host t mapIndex (placed ++ [(d, i)]) s' := by
  obtain ⟨found, hfound, hinside⟩ := findIndex_inside hlookup s.process.toExportProcess
    d.symbol.start (some d.time)
  unfold LinkState.link
  dsimp only
  rw [hfound, ok_bind]
  cases found with
  | some i =>
    obtain ⟨m, hget, hip⟩ := hinside i rfl
    refine ⟨_, i, ?_, h.mapped hget hip⟩
    dsimp only
    rw [getAt_eq_ok.mpr hget]
    rfl
  | none =>
    dsimp only
    by_cases hholds : ∃ m ∈ s.dynMappings, m.containsIp d.symbol.start = true
    · obtain ⟨m, hm, hip⟩ := hholds
      obtain ⟨hstart, hend⟩ := containsIp_iff.mp hip
      obtain ⟨front, back, hsplit⟩ := List.append_of_mem hm
      obtain ⟨-, hback, hfront⟩ := List.pairwise_append.mp (hsplit ▸ h.apart)
      have hlast : back = [] := by
        refine List.eq_nil_iff_forall_not_mem.mpr fun other hother => ?_
        have hbehind := (List.pairwise_cons.mp hback).1 other hother
        have hle : other.start ≤ d.symbol.start := h.start_le hlater (by simp [hsplit, hother])
        omega
      rw [hlast] at hsplit
      have hnot : ∀ other ∈ front, other.containsIp d.symbol.start = false := by
        intro other hother
        have hless := hfront other hother m List.mem_cons_self
        refine Bool.eq_false_iff.mpr fun hip => ?_
        have hend := (containsIp_iff.mp hip).2
        omega
      have hget : s.dynMappings[front.length]? = some m := by
        rw [hsplit, List.getElem?_append_right (le_refl _), Nat.sub_self]
        rfl
      obtain ⟨m', hwiden, hstart', hnew⟩ := (h.new front.length m hget).widen hpaged hstop hip
      have hlength : s.dynMappings.length = front.length + 1 := by
        rw [hsplit, List.length_append, List.length_singleton]
      have hindex' : s.mapIndex = mapIndex + (front.length + 1) := by
        rw [h.index, hlength]
      refine ⟨_, _, ?_, h.placed_last ⟨[m], hsplit.symm⟩ (Nat.le_of_eq hlength) hindex' ?_ hnew⟩
      · rw [hsplit, widenFirst_last hnot hip hwiden]
        rfl
      · intro other hother
        rw [hstart']
        exact hfront other hother m List.mem_cons_self
    · have hnot : ∀ other ∈ s.dynMappings, other.containsIp d.symbol.start = false :=
        fun other hother => Bool.eq_false_iff.mpr fun hip => hholds ⟨other, hother, hip⟩
      have hfree : ∀ p ∈ placed, p.2 ≠ t.mappings.length + s.dynMappings.length := by
        intro p hp
        rcases h.target p hp with ⟨m, hget, -⟩ | ⟨j, hj, heq⟩
        · have hlt := (List.getElem?_eq_some_iff.mp hget).1
          omega
        · omega
      obtain ⟨m, hmapping, hstart, hnew⟩ :=
        @dynMapping_new host k placed d _ hpaged hfree hordered hstop s.mapIndex
      have hfew := h.few
      have hnext := h.index
      have hindex' : s.mapIndex + 1 = mapIndex + (s.dynMappings.length + 1) := by omega
      refine ⟨_, _, ?_, h.placed_last (List.prefix_refl _) (Nat.le_succ _) hindex' ?_ hnew⟩
      · rw [widenFirst_none hnot, ok_bind]
        dsimp only
        rw [hmapping, ok_bind, host.checks.addU64_of_lt (by omega)]
        rfl
      · intro other hother
        obtain ⟨j, hj⟩ := List.mem_iff_getElem?.mp hother
        have hends := (h.new j other hj).ends
        have hle := h.start_le hlater hother
        have hbefore : other.stop < d.symbol.start := by
          by_contra hreaches
          have hip := containsIp_iff.mpr ⟨hle, Nat.le_of_not_lt hreaches⟩
          exact absurd ((hnot other hother).symm.trans hip) (by decide)
        rw [hstart]
        exact le_page_start hends hbefore

/-- The loop places symbols that come by ascending start. -/
theorem Placing.run {ds : List ExportTimeSymbol} (h : Placing host t mapIndex placed s)
    (hpaged : Paged host k) (hlookup : 0 < host.minLookup)
    (hds : ∀ d ∈ ds, d.symbol.start ≤ d.symbol.stop ∧ d.symbol.stop < kernelStart)
    (hsorted : ds.Pairwise fun d later => d.symbol.start ≤ later.symbol.start)
    (hlater : ∀ p ∈ placed, ∀ d ∈ ds, p.1.symbol.start ≤ d.symbol.start)
    (hindex : mapIndex + placed.length + ds.length < 2 ^ 64) :
    ∃ s' placed', ds.foldlM (LinkState.link host) s = .ok s' ∧
      placed'.map Prod.fst = placed.map Prod.fst ++ ds ∧ Placing host t mapIndex placed' s' := by
  induction ds generalizing s placed with
  | nil => exact ⟨s, placed, rfl, (List.append_nil _).symm, h⟩
  | cons d ds ih =>
    obtain ⟨⟨hordered, hstop⟩, hds⟩ := List.forall_mem_cons.mp hds
    obtain ⟨hd, hsorted⟩ := List.pairwise_cons.mp hsorted
    rw [List.length_cons] at hindex
    obtain ⟨next, i, hlink, hnext⟩ := h.link hpaged hlookup hordered hstop
      (fun p hp => hlater p hp d List.mem_cons_self) (by omega)
    have hlater' : ∀ p ∈ placed ++ [(d, i)], ∀ e ∈ ds, p.1.symbol.start ≤ e.symbol.start := by
      intro p hp e he
      rcases List.mem_append.mp hp with hp | hp
      · exact hlater p hp e (List.mem_cons_of_mem _ he)
      · rw [List.mem_singleton.mp hp]
        exact hd e he
    have hlength : (placed ++ [(d, i)]).length = placed.length + 1 := by
      rw [List.length_append, List.length_singleton]
    obtain ⟨s', placed', hrun, hmap, hplaced⟩ := ih hnext hds hsorted hlater' (by omega)
    refine ⟨s', placed', ?_, ?_, hplaced⟩
    · rw [List.foldlM_cons, hlink, ok_bind, hrun]
    · rw [hmap, List.map_append, List.append_assoc]
      rfl

end Step

theorem popOrder_sorted (t : DynamicProcess) :
    t.popOrder.Pairwise fun d later => d.symbol.start ≤ later.symbol.start := by
  rw [DynamicProcess.popOrder, List.pairwise_reverse]
  exact List.pairwise_insertionSort _ _

theorem popOrder_perm (t : DynamicProcess) : t.popOrder.Perm t.dynSymbols :=
  (List.reverse_perm _).trans (List.perm_insertionSort _ _)

/-- **Dynamic symbols** each go to one mapping, which holds their start. The new mappings are
whole pages around their symbols, and there are as many of them as `map_index` has grown by. -/
theorem addDynamicSymbolMappings_places {host : ProcessHost} {k mapIndex : Nat}
    {t : DynamicProcess} (hpaged : Paged host k) (hlookup : 0 < host.minLookup)
    (hsymbols : ∀ d ∈ t.dynSymbols,
      d.symbol.start ≤ d.symbol.stop ∧ d.symbol.stop < kernelStart)
    (hindex : mapIndex + t.dynSymbols.length < 2 ^ 64) :
    ∃ u placed, t.addDynamicSymbolMappings host mapIndex =
        .ok (u, mapIndex + (u.mappings.length - t.mappings.length)) ∧ Places host t u placed := by
  have hstart : Placing host t mapIndex [] { process := { t with dynSymbols := [] }, mapIndex } := by
    have hold : t.mappings = t.mappings.mapIdx fun i m => m.takes (addedTo [] i) := by
      refine List.ext_getElem? fun i => ?_
      rw [List.getElem?_mapIdx]
      cases t.mappings[i]? with
      | none => rfl
      | some m => exact congrArg some (takes_nil m).symm
    exact ⟨rfl, hold, fun _ _ hj => absurd hj (by simp), .nil, fun _ hp => absurd hp List.not_mem_nil,
      rfl, le_refl _⟩
  have hcount : t.popOrder.length = t.dynSymbols.length := (popOrder_perm t).length_eq
  obtain ⟨s, placed, hrun, hmap, hplacing⟩ := hstart.run hpaged hlookup
    (fun d hd => hsymbols d (mem_popOrder.mp hd)) (popOrder_sorted t)
    (fun _ hp => absurd hp List.not_mem_nil) (by rw [hcount]; exact hindex)
  have hold : s.process.mappings.length = t.mappings.length := by
    rw [hplacing.old, List.length_mapIdx]
  have hall : ∀ p ∈ placed, p.1 ∈ t.dynSymbols := by
    intro p hp
    have hmem : p.1 ∈ placed.map Prod.fst := List.mem_map_of_mem hp
    rw [hmap] at hmem
    exact mem_popOrder.mp hmem
  refine ⟨{ s.process with mappings := s.process.mappings ++ s.dynMappings }, placed, ?_, ?_⟩
  · unfold DynamicProcess.addDynamicSymbolMappings
    dsimp only
    rw [hrun, ok_bind, hplacing.index, List.length_append, hold, Nat.add_sub_cancel_left]
  · constructor
    · rw [hmap]
      exact popOrder_perm t
    · intro p hp
      dsimp only
      rcases hplacing.target p hp with ⟨m, hget, hip⟩ | ⟨j, hj, heq⟩
      · have hlt := (List.getElem?_eq_some_iff.mp hget).1
        refine ⟨m.takes (addedTo placed p.2), ?_, hip⟩
        rw [List.getElem?_append_left (by omega), hplacing.old, List.getElem?_mapIdx, hget]
        rfl
      · have hget := List.getElem?_eq_getElem hj
        have hnew := hplacing.new j _ hget
        have hmem : (p.1, t.mappings.length + j) ∈ placed := heq ▸ hp
        obtain ⟨hbegin, hend⟩ := hnew.covers p.1 hmem
        have hordered := (hsymbols p.1 (hall p hp)).1
        refine ⟨_, ?_, containsIp_iff.mpr ⟨hbegin, hordered.trans hend⟩⟩
        rw [heq, List.getElem?_append_right (by omega), hold, Nat.add_sub_cancel_left, hget]
    · intro i m hget
      have hlt := (List.getElem?_eq_some_iff.mp hget).1
      dsimp only
      rw [List.getElem?_append_left (by omega), hplacing.old, List.getElem?_mapIdx, hget]
      rfl
    · intro i m hi hget
      dsimp only at hget
      rw [List.getElem?_append_right (by omega), hold] at hget
      have hnew := hplacing.new _ m hget
      rwa [Nat.add_sub_cancel' hi] at hnew
    · dsimp only
      rw [← hold, List.drop_left]
      exact hplacing.apart
    · exact hplacing.drained

/-- A process with two symbols on neighbouring pages. -/
def jitted : DynamicProcess where
  pid := 1
  dynSymbols := [⟨7, ⟨1, 4000, 4200⟩⟩, ⟨5, ⟨2, 4096, 4099⟩⟩]

def pagedHost : ProcessHost where
  checks := .on
  hashOrder := .inOrder

theorem addDynamicSymbolMappings_places_jitted :
    ∃ u placed, jitted.addDynamicSymbolMappings pagedHost 0 =
        .ok (u, 0 + (u.mappings.length - jitted.mappings.length)) ∧
      Places pagedHost jitted u placed := by
  have hpaged : Paged pagedHost 12 := ⟨rfl, by decide⟩
  exact addDynamicSymbolMappings_places hpaged (by decide) (by decide) (by decide)

end OneCollect.Exporting
