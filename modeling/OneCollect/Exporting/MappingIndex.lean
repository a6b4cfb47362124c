import Mathlib.Data.List.Flatten
import OneCollect.Exporting.Mappings

/-! The two paths of `find_index` compared. Up to `2 ^ 32` mappings each position has a
slot of its own in the table, and the youngest candidate is missing from what the table
returns exactly when it is `Unseen`. Beyond that positions share slots, and the
condition is the one on the events themselves. -/

namespace OneCollect.Exporting
open Theory ExportMappingLookup

/-! ## The items of a mapping list -/

section Items

variable {ms : List ExportMapping}

theorem mem_lookupItems {e : AddressLookupItem} :
    e ∈ lookupItems ms ↔ ∃ i m, ms[i]? = some m ∧ (e = startItem i m ∨ e = stopItem i m) := by
  simp only [lookupItems, List.mem_flatMap, Prod.exists, List.mem_zipIdx_iff_getElem?,
    List.mem_cons, List.not_mem_nil, or_false]
  exact ⟨fun ⟨m, i, h⟩ => ⟨i, m, h⟩, fun ⟨i, m, h⟩ => ⟨m, i, h⟩⟩

theorem mem_sortItems {e : AddressLookupItem} {items : List AddressLookupItem} :
    e ∈ AddressLookup.sortItems items ↔ e ∈ items :=
  (List.perm_insertionSort _ items).mem_iff

theorem pair_sublist_sortItems {items : List AddressLookupItem} {x y : AddressLookupItem}
    (h : [x, y].Sublist items) (hle : x.address ≤ y.address) :
    [x, y].Sublist (AddressLookup.sortItems items) :=
  have : IsTrans AddressLookupItem fun a b => a.address ≤ b.address := ⟨fun _ _ _ => le_trans⟩
  have : Std.Total fun a b : AddressLookupItem => a.address ≤ b.address :=
    ⟨fun a b => le_total a.address b.address⟩
  List.pair_sublist_insertionSort hle h

/-- The start item of a mapping comes before its end item. -/
theorem start_stop_sublist {i : Nat} {m : ExportMapping} (h : ms[i]? = some m) :
    [startItem i m, stopItem i m].Sublist (lookupItems ms) := by
  have hm : (m, i) ∈ ms.zipIdx := List.mem_zipIdx_iff_getElem?.mpr h
  exact (List.singleton_sublist.mpr hm).flatMap fun entry =>
    [startItem entry.2 entry.1, stopItem entry.2 entry.1]

/-- The items of an earlier mapping come before those of a later one. -/
theorem earlier_sublist {i j : Nat} {m m' : ExportMapping} (hij : i < j) (hi : ms[i]? = some m)
    (hj : ms[j]? = some m') {x y : AddressLookupItem} (hx : x = startItem i m ∨ x = stopItem i m)
    (hy : y = startItem j m' ∨ y = stopItem j m') : [x, y].Sublist (lookupItems ms) := by
  have hpair : [(m, i), (m', j)].Sublist ms.zipIdx := by
    have hj' := (List.getElem?_eq_some_iff.mp hj).1
    have hsplit := (List.take_append_drop j ms.zipIdx).symm
    rw [hsplit]
    refine (List.singleton_sublist.mpr ?_).append (List.singleton_sublist.mpr ?_ :
      [(m', j)].Sublist (ms.zipIdx.drop j))
    · exact List.mem_of_getElem? (i := i) (by simp [hij, hi])
    · exact List.mem_of_getElem? (i := 0) (by simp [hj])
  refine List.Sublist.trans ?_ (hpair.flatMap fun entry =>
    [startItem entry.2 entry.1, stopItem entry.2 entry.1])
  rcases hx with rfl | rfl <;> rcases hy with rfl | rfl <;> simp

/-- Up to `2 ^ 32` positions keep their number through the cast. -/
theorem toU32_of_lt {i : Nat} {m : ExportMapping} (hlen : ms.length ≤ 2 ^ 32)
    (h : ms[i]? = some m) : toU32 i = i := by
  have hi := (List.getElem?_eq_some_iff.mp h).1
  unfold toU32
  omega

theorem lookupItems_nodup (hlen : ms.length ≤ 2 ^ 32) : (lookupItems ms).Nodup := by
  refine List.nodup_flatMap.mpr ⟨fun x _ => by simp [startItem, stopItem], ?_⟩
  rw [List.pairwise_iff_getElem]
  intro i j hi hj hij x hx hy
  simp only [List.length_zipIdx] at hi hj
  have hne : toU32 i ≠ toU32 j := by unfold toU32; omega
  simp only [List.getElem_zipIdx, Nat.zero_add, List.mem_cons, List.not_mem_nil, or_false] at hx hy
  have hxi : x.index = toU32 i := by rcases hx with rfl | rfl <;> rfl
  have hyj : x.index = toU32 j := by rcases hy with rfl | rfl <;> rfl
  exact hne (hxi.symm.trans hyj)

theorem sorted_nodup (hlen : ms.length ≤ 2 ^ 32) :
    (AddressLookup.sortItems (lookupItems ms)).Nodup :=
  (List.perm_insertionSort _ _).nodup_iff.mpr (lookupItems_nodup hlen)

/-- A well-formed range: it does not end before it starts. -/
def Ranged (ms : List ExportMapping) : Prop := ∀ m ∈ ms, m.start ≤ m.stop

/-- Up to `2 ^ 32` mappings each position owns its slot: one start item and one end item. -/
theorem paired_items (hlen : ms.length ≤ 2 ^ 32) (hr : Ranged ms) {i : Nat} {m : ExportMapping}
    (h : ms[i]? = some m) :
    Sweep.Paired AddressLookupItem.index AddressLookupItem.valid
      (AddressLookup.sortItems (lookupItems ms)) i (startItem i m) (stopItem i m) := by
  have hi := toU32_of_lt hlen h
  refine ⟨⟨hi, rfl⟩, ⟨hi, rfl⟩, fun e he hs => ?_, ?_⟩
  · obtain ⟨j, m', hj, he⟩ := mem_lookupItems.mp (mem_sortItems.mp he)
    have hij : j = i := by
      rw [← hs, ← toU32_of_lt hlen hj]
      rcases he with rfl | rfl <;> rfl
    subst hij
    rw [h] at hj
    cases hj
    exact he
  · exact pair_sublist_sortItems (start_stop_sublist h) (hr m (List.mem_of_getElem? h))

theorem recorded_start {i : Nat} {m : ExportMapping} (h : ms[i]? = some m) :
    Recorded (AddressLookup.sortItems (lookupItems ms)) m.start (toU32 i) := by
  have hm : startItem i m ∈ AddressLookup.sortItems (lookupItems ms) :=
    mem_sortItems.mpr (mem_lookupItems.mpr ⟨i, m, h, Or.inl rfl⟩)
  obtain ⟨pre, post, hes⟩ := List.append_of_mem hm
  exact ⟨pre, startItem i m, post, hes, rfl, (openIn_concat _ _ _).mpr (Or.inl ⟨rfl, rfl⟩)⟩

theorem recorded_slot {a k : Nat} (h : Recorded (AddressLookup.sortItems (lookupItems ms)) a k) :
    ∃ i m, ms[i]? = some m ∧ toU32 i = k := by
  obtain ⟨pre, e, post, hes, -, pre', e', post', hes', hs, -, -⟩ := h
  have he : e' ∈ AddressLookup.sortItems (lookupItems ms) := by
    have : e' ∈ pre ++ [e] := by rw [hes']; simp
    rw [hes]
    rcases List.mem_append.mp this with h | h
    · simp [h]
    · simp [List.mem_singleton.mp h]
  obtain ⟨i, m, hi, he⟩ := mem_lookupItems.mp (mem_sortItems.mp he)
  refine ⟨i, m, hi, ?_⟩
  rw [← hs]
  rcases he with rfl | rfl <;> rfl

end Items

/-! ## What the table shows -/

section Visible

variable (ms : List ExportMapping) (q : Nat)

/-- The mapping at position `b` ends at `q` and started before, nothing before it in the list
starts or ends at `q`, and another mapping holds `q`. -/
def Unseen (b : Nat) : Prop :=
  ∃ m, ms[b]? = some m ∧ m.start < q ∧ m.stop = q ∧
    (∀ j m', j < b → ms[j]? = some m' → m'.start ≠ q ∧ m'.stop ≠ q) ∧
    ∃ j m', j ≠ b ∧ ms[j]? = some m' ∧ m'.containsIp q = true

/-- Position `b` is among those the table returns at `q`. -/
def Visible (b : Nat) : Prop :=
  if ms.length ≤ 2 ^ 32 then ¬ Unseen ms q b
  else ShownAt (AddressLookup.sortItems (lookupItems ms)) q b

end Visible

theorem containsIp_iff {m : ExportMapping} {q : Nat} :
    m.containsIp q = true ↔ m.start ≤ q ∧ q ≤ m.stop := by
  simp [ExportMapping.containsIp]

/-- When no earlier mapping has an end point at `q`, the end item at `q` of position `b` is
the first item there. -/
theorem stop_first {ms : List ExportMapping} {b : Nat} {m : ExportMapping} (hb : ms[b]? = some m)
    (hstart : m.start < m.stop)
    (hnone : ∀ j m', j < b → ms[j]? = some m' → m'.start ≠ m.stop ∧ m'.stop ≠ m.stop) :
    ∀ e ∈ AddressLookup.sortItems (lookupItems ms), e.address = (stopItem b m).address →
      e = stopItem b m ∨
        [stopItem b m, e].Sublist (AddressLookup.sortItems (lookupItems ms)) := by
  intro e he ha
  obtain ⟨j, m', hj, he'⟩ := mem_lookupItems.mp (mem_sortItems.mp he)
  rcases Nat.lt_trichotomy j b with hlt | rfl | hlt
  · obtain ⟨h₁, h₂⟩ := hnone j m' hlt hj
    rcases he' with rfl | rfl
    · exact absurd ha h₁
    · exact absurd ha h₂
  · rw [hb] at hj
    cases hj
    rcases he' with rfl | rfl
    · exact absurd ha (Nat.ne_of_lt hstart)
    · exact Or.inl rfl
  · exact Or.inr (pair_sublist_sortItems (earlier_sublist hlt hb hj (Or.inr rfl) he')
      (le_of_eq ha.symm))

/-- **Closed form.** Up to `2 ^ 32` mappings a position whose range holds `q` is shown there
unless it is `Unseen`. -/
theorem shownAt_iff {ms : List ExportMapping} (hlen : ms.length ≤ 2 ^ 32) (hr : Ranged ms)
    {b q : Nat} {m : ExportMapping} (hb : ms[b]? = some m) (hq : m.containsIp q = true) :
    ShownAt (AddressLookup.sortItems (lookupItems ms)) q b ↔ ¬ Unseen ms q b := by
  have hp := paired_items hlen hr hb
  have hnd := sorted_nodup hlen
  have hord : Sweep.Ordered AddressLookupItem.address (AddressLookup.sortItems (lookupItems ms)) :=
    sortItems_sorted _
  obtain ⟨hstart, hstop⟩ := containsIp_iff.mp hq
  have hunseen : Unseen ms q b → m.start < q ∧ m.stop = q := by
    rintro ⟨m', hm', h⟩
    rw [hb] at hm'
    cases hm'
    exact ⟨h.1, h.2.1⟩
  rcases lt_or_eq_of_le hstop with hlt | rfl
  · refine ⟨fun _ hu => ?_, fun _ => hp.shown_of_lt hnd hord hstart hlt⟩
    have := (hunseen hu).2
    omega
  · rcases lt_or_eq_of_le hstart with hlt | heq
    · by_cases hearly : ∃ j m', j < b ∧ ms[j]? = some m' ∧ (m'.start = m.stop ∨ m'.stop = m.stop)
      · obtain ⟨j, m', hj, hm', hend⟩ := hearly
        have hshown : ∀ x, (x = startItem j m' ∨ x = stopItem j m') → x.address = m.stop →
            ShownAt (AddressLookup.sortItems (lookupItems ms)) m.stop b := by
          intro x hx ha
          have hsub := pair_sublist_sortItems (earlier_sublist hj hm' hb hx (Or.inr rfl))
            (le_of_eq ha)
          exact ha ▸ hp.shown_of_earlier_event hnd hord hsub (Or.inr (by rw [ha]; exact hlt))
        refine ⟨fun _ => ?_, fun _ => ?_⟩
        · rintro ⟨-, -, -, -, hnone, -⟩
          have := hnone j m' hj hm'
          tauto
        · rcases hend with h | h
          · exact hshown _ (Or.inl rfl) h
          · exact hshown _ (Or.inr rfl) h
      · have hnone : ∀ j m', j < b → ms[j]? = some m' → m'.start ≠ m.stop ∧ m'.stop ≠ m.stop :=
          fun j m' hj hm' => ⟨fun h => hearly ⟨j, m', hj, hm', Or.inl h⟩,
            fun h => hearly ⟨j, m', hj, hm', Or.inr h⟩⟩
        have hfirst := stop_first hb hlt hnone
        rw [show ShownAt (AddressLookup.sortItems (lookupItems ms)) m.stop b ↔ _ from
          hp.shown_iff_of_first_event hnd hord hlt hfirst]
        constructor
        · rintro hrec ⟨-, -, -, -, -, j, m', hj, hm', hc⟩
          exact hrec j ((hp.recordedAt_first_iff (paired_items hlen hr hm') hnd hord hfirst hj).mpr
            (containsIp_iff.mp hc))
        · intro hu k hrec
          obtain ⟨j, m', hj, rfl⟩ := recorded_slot hrec
          rw [toU32_of_lt hlen hj] at hrec
          by_cases hjb : j = b
          · subst hjb
            exact hp.not_recordedAt_of_first hnd hfirst hrec
          · refine hu ⟨m, hb, hlt, rfl, hnone, j, m', hjb, hj, containsIp_iff.mpr ?_⟩
            exact (hp.recordedAt_first_iff (paired_items hlen hr hj) hnd hord hfirst hjb).mp hrec
    · refine ⟨fun _ hu => ?_, fun _ => ?_⟩
      · have := (hunseen hu).1
        omega
      · have := hp.shown_of_earlier_event hnd hord hp.ordered (Or.inl rfl)
        exact heq ▸ this

theorem shownAt_iff_visible {ms : List ExportMapping} (hr : Ranged ms) {b q : Nat}
    {m : ExportMapping} (hb : ms[b]? = some m) (hq : m.containsIp q = true) :
    ShownAt (AddressLookup.sortItems (lookupItems ms)) q b ↔ Visible ms q b := by
  unfold Visible
  split
  · rename_i hlen
    exact shownAt_iff hlen hr hb hq
  · exact Iff.rfl

/-! ## The two paths -/

section Paths

variable {s : ExportMappingLookup}

/-- The loop of the indexed path, over mappings that are all there. -/
theorem foldlM_consider {ms : List ExportMapping} (address time : Nat) {l : List Nat}
    (hl : ∀ k ∈ l, k < ms.length) (best : Option (ExportMapping × Nat)) :
    ∃ xs, Numbered ms xs ∧ xs.map (·.2) = l ∧
      l.foldlM (fun best index => do
        let map ← getAt ms index
        pure (consider address time best map index)) best =
      (.ok (xs.foldl (fun best x => consider address time best x.1 x.2) best) : Exec _) := by
  induction l generalizing best with
  | nil => exact ⟨[], by simp [Numbered], rfl, rfl⟩
  | cons k l ih =>
    have hk : k < ms.length := hl k (by simp)
    have hget : getAt ms k = .ok ms[k] := getAt_eq_ok.mpr (List.getElem?_eq_getElem hk)
    obtain ⟨xs, hxs, hmap, hfold⟩ := ih (fun j hj => hl j (by simp [hj]))
      (consider address time best ms[k] k)
    refine ⟨(ms[k], k) :: xs, ?_, by simp [hmap], ?_⟩
    · intro x hx
      cases List.mem_cons.mp hx with
      | inl h => rw [h]; exact List.getElem?_eq_getElem hk
      | inr h => exact hxs x h
    · rw [List.foldlM_cons, hget, ok_bind, pure_eq_ok, ok_bind, hfold]
      rfl

/-- The scan answers every query. -/
theorem findIndex_scan (hlen : s.mappings.length < s.minLookup)
    (hd : s.mappings.Pairwise fun a b => a.time ≠ b.time) (order : HashOrder) (address : Nat)
    (time : Option Nat) :
    ∃ r, s.findIndex order address time = .ok (r, s) ∧
      Answers s.mappings address (time.getD u64Max) r := by
  have hxs : Numbered s.mappings s.mappings.zipIdx := fun x hx =>
    List.mem_zipIdx_iff_getElem?.mp hx
  have hans := (foldl_consider_answers hxs hd address (time.getD u64Max)).mpr fun b hb => by
    obtain ⟨m, hm, -⟩ := hb
    exact List.mem_map.mpr ⟨(m, b), List.mem_zipIdx_iff_getElem?.mpr hm.1, rfl⟩
  exact ⟨_, by simp [ExportMappingLookup.findIndex, not_le.mpr hlen], hans⟩

/-- The table the indexed path asks: the one at hand, or one built on the spot. -/
theorem indexed_lookup (h : Coherent s) (order : HashOrder) :
    ∃ order', (if s.lookup.isEmpty then s.buildLookup order else s) =
      { s with lookup := .update order' (lookupItems s.mappings) } := by
  cases h with
  | inl h => exact ⟨order, by simp [h, AddressLookup.isEmpty, buildLookup]⟩
  | inr h =>
    obtain ⟨order', h⟩ := h
    cases s.lookup.isEmpty with
    | true => exact ⟨order, rfl⟩
    | false => exact ⟨order', by simp [← h]⟩

/-- What the indexed path looks at: positions that are there, and those shown at the query
once a mapping starts at or before it. -/
theorem find_lookupItems (order : HashOrder) {ms : List ExportMapping} (hne : ms ≠ [])
    (address : Nat) :
    ∃ l, (AddressLookup.update order (lookupItems ms)).find address = .ok l ∧
      (∀ k ∈ l, k < ms.length) ∧
      ((∃ m ∈ ms, m.start ≤ address) → ∀ k,
        k ∈ l ↔ ShownAt (AddressLookup.sortItems (lookupItems ms)) address k) := by
  obtain ⟨m, ms', rfl⟩ := List.exists_cons_of_ne_nil hne
  have hrec : Recorded (AddressLookup.sortItems (lookupItems (m :: ms'))) m.start (toU32 0) :=
    recorded_start rfl
  obtain ⟨l, hl, hsub, hmem⟩ := find_update order _ address hrec
  refine ⟨l, hl, fun k hk => ?_, ?_⟩
  · obtain ⟨a, ha⟩ := hsub k hk
    obtain ⟨i, m', hi, rfl⟩ := recorded_slot ha
    have hi := (List.getElem?_eq_some_iff.mp hi).1
    have : toU32 i ≤ i := Nat.mod_le _ _
    omega
  · rintro ⟨m', hm', hle⟩
    obtain ⟨i, hi⟩ := List.mem_iff_getElem?.mp hm'
    exact hmem ⟨m'.start, toU32 i, hle, recorded_start hi⟩

/-- The indexed path over no mappings reads the first item of an empty table. -/
theorem findIndex_indexed_nil (hc : Coherent s) (hmin : s.minLookup ≤ s.mappings.length)
    (hnil : s.mappings = []) (order : HashOrder) (address : Nat) (time : Option Nat) :
    s.findIndex order address time = panicked := by
  obtain ⟨order', hself⟩ := indexed_lookup hc order
  unfold ExportMappingLookup.findIndex
  rw [if_pos hmin, hself, hnil]
  rfl

/-- The indexed path answers a query exactly when the youngest candidate, if any, is visible. -/
theorem findIndex_indexed (hc : Coherent s) (hmin : s.minLookup ≤ s.mappings.length)
    (hne : s.mappings ≠ []) (hr : Ranged s.mappings)
    (hd : s.mappings.Pairwise fun a b => a.time ≠ b.time) (order : HashOrder) (address : Nat)
    (time : Option Nat) :
    ∃ r s', s.findIndex order address time = .ok (r, s') ∧
      (Answers s.mappings address (time.getD u64Max) r ↔
        ∀ b, Latest s.mappings address (time.getD u64Max) b → Visible s.mappings address b) := by
  obtain ⟨order', hself⟩ := indexed_lookup hc order
  obtain ⟨l, hl, hlt, hshown⟩ := find_lookupItems order' hne address
  obtain ⟨xs, hxs, hmap, hfold⟩ := foldlM_consider address (time.getD u64Max) hlt none
  have hrun : s.findIndex order address time = .ok
      ((xs.foldl (fun best x => consider address (time.getD u64Max) best x.1 x.2) none).map (·.2),
        { s with lookup := .update order' (lookupItems s.mappings) }) := by
    unfold ExportMappingLookup.findIndex
    rw [if_pos hmin, hself]
    simp only [hl, ok_bind]
    rw [hfold]
    rfl
  refine ⟨_, _, hrun, ?_⟩
  rw [foldl_consider_answers hxs hd, hmap]
  refine forall₂_congr fun b hb => ?_
  obtain ⟨m, hm, -⟩ := hb
  have hq := containsIp_iff.mp hm.2.1
  rw [hshown ⟨m, List.mem_of_getElem? hm.1, hq.1⟩, shownAt_iff_visible hr hm.1 hm.2.1]

/-- Both paths answer the query, and alike. -/
def PathsAgree (order : HashOrder) (s : ExportMappingLookup) (address : Nat)
    (time : Option Nat) : Prop :=
  ∃ r, (∃ s', s.findIndex order address time = .ok (r, s')) ∧
    (∃ s', (s.setLookupMinSize (s.mappings.length + 1)).findIndex order address time =
      .ok (r, s')) ∧
    Answers s.mappings address (time.getD u64Max) r

/-- **The two paths of `find_index`.** Over distinct times and well-formed ranges, the indexed
path answers as the scan does exactly when there is a mapping at all and the youngest
candidate, if there is one, is visible in the table. -/
theorem findIndex_paths_agree_iff (hs : lookupSystem.Reachable s)
    (hmin : s.minLookup ≤ s.mappings.length) (hr : Ranged s.mappings)
    (hd : s.mappings.Pairwise fun a b => a.time ≠ b.time) (order : HashOrder) (address : Nat)
    (time : Option Nat) :
    PathsAgree order s address time ↔
      s.mappings ≠ [] ∧ ∀ b, Latest s.mappings address (time.getD u64Max) b →
        Visible s.mappings address b := by
  have hc := reachable_coherent hs
  by_cases hnil : s.mappings = []
  · have hpanic := findIndex_indexed_nil hc hmin hnil order address time
    constructor
    · rintro ⟨r, ⟨s', h⟩, -⟩
      rw [hpanic] at h
      exact absurd h (panicked_ne_ok _)
    · exact fun h => absurd hnil h.1
  · obtain ⟨r, s', hrun, hiff⟩ := findIndex_indexed hc hmin hnil hr hd order address time
    constructor
    · rintro ⟨r', ⟨s'', h⟩, -, hans⟩
      rw [hrun] at h
      cases h
      exact ⟨hnil, hiff.mp hans⟩
    · rintro ⟨-, hvis⟩
      obtain ⟨r', hscan, hans⟩ := findIndex_scan
        (s := s.setLookupMinSize (s.mappings.length + 1)) (Nat.lt_succ_self _) hd order address time
      have heq := answers_unique hd (hiff.mpr hvis) hans
      subst heq
      exact ⟨r, ⟨s', hrun⟩, ⟨_, hscan⟩, hans⟩

end Paths

/-- A set iterated as it was filled. -/
def HashOrder.inOrder : HashOrder := ⟨fun _ set => set, fun _ _ => List.Perm.refl _⟩

/-- Two mappings of which the older starts inside the younger and runs past its end, with a
lookup from two mappings on. -/
def overrun : ExportMappingLookup :=
  (({} : ExportMappingLookup).setLookupMinSize 2).mappingsMut
    fun _ => [⟨2, 0, 10⟩, ⟨1, 5, 20⟩]

theorem reachable_overrun : lookupSystem.Reachable overrun := by
  have hinit : lookupSystem.Reachable {} := System.reachable_init rfl
  have hmin := hinit.next (.setLookupMinSize 2) rfl
  exact hmin.next (.mappingsMut fun _ => [⟨2, 0, 10⟩, ⟨1, 5, 20⟩]) rfl

theorem ranged_overrun : Ranged overrun.mappings := by
  intro m hm
  simp only [overrun, mappingsMut, List.mem_cons, List.not_mem_nil, or_false] at hm
  cases hm with
  | inl h => simp [h]
  | inr h => simp [h]

/-- Inside both mappings of `overrun` the two paths agree. -/
theorem findIndex_paths_agree_overrun : PathsAgree .inOrder overrun 7 none := by
  refine (findIndex_paths_agree_iff reachable_overrun (by decide) ranged_overrun (by decide)
    .inOrder 7 none).mpr ⟨by decide, fun b _ => ?_⟩
  have hseen : ¬ Unseen overrun.mappings 7 b := by
    rintro ⟨m, hm, -, hstop, -⟩
    have hm := List.mem_of_getElem? hm
    simp only [overrun, mappingsMut, List.mem_cons, List.not_mem_nil, or_false] at hm
    cases hm with
    | inl h => simp [h] at hstop
    | inr h => simp [h] at hstop
  simpa [Visible, overrun, mappingsMut] using hseen

/-- At the last address of the younger mapping the scan returns it and the table the older one. -/
theorem findIndex_paths_differ_at_end :
    ¬ ∀ (order : HashOrder) (s : ExportMappingLookup) (address : Nat) (time : Option Nat),
      lookupSystem.Reachable s → s.minLookup ≤ s.mappings.length → Ranged s.mappings →
      (s.mappings.Pairwise fun a b => a.time ≠ b.time) → PathsAgree order s address time := by
  intro h
  obtain ⟨r, ⟨s', hindexed⟩, ⟨s'', hscan⟩, -⟩ :=
    h .inOrder overrun 10 none reachable_overrun (by decide) ranged_overrun (by decide)
  have h₁ : (overrun.findIndex .inOrder 10 none).toOption.map (·.1) = some (some 1) := by decide
  have h₂ : ((overrun.setLookupMinSize 3).findIndex .inOrder 10 none).toOption.map (·.1) =
      some (some 0) := by decide
  rw [hindexed] at h₁
  rw [show overrun.mappings.length + 1 = 3 from rfl] at hscan
  rw [hscan] at h₂
  have h₁ : r = some 1 := by simpa [Except.toOption] using h₁
  have h₂ : r = some 0 := by simpa [Except.toOption] using h₂
  rw [h₁] at h₂
  exact absurd h₂ (by decide)

end OneCollect.Exporting
