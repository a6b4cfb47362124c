import Mathlib.Data.List.Sort
import Mathlib.Data.List.Induction
import OneCollect.Theory.Checked
import OneCollect.Theory.Greatest
import OneCollect.Theory.Sweep

/-! The address lookup of `lookup.rs`: a sweep over the start and end addresses of
numbered ranges. `update` writes down, after each address, the numbers whose range is
open; `find` returns the numbers written at the last such address up to the query.

`mem_update` and `find_update` say what the table holds in the words of `Theory.Sweep`:
the numbers `find` returns are those shown at the query. -/

namespace OneCollect.Exporting
open Theory

structure AddressLookupItem where
  address : Nat
  index : Nat
  valid : Bool
  deriving DecidableEq, Repr

/-- The scratch vector `index` of the source only carries the result of `find`. -/
structure AddressLookup where
  lookup : List AddressLookupItem := []
  deriving Repr

/-- The order in which a `HashSet` is iterated: any permutation of its elements, free to
depend on everything that happened to the set before. -/
structure HashOrder where
  iter : List AddressLookupItem → List Nat → List Nat
  perm : ∀ seen set, (iter seen set).Perm set

namespace AddressLookup

def isEmpty (self : AddressLookup) : Bool := self.lookup.isEmpty

def clear (self : AddressLookup) : AddressLookup := { self with lookup := [] }

/-- The backward walk of `find` over the items at `address` before position `index`. -/
def findBack (lookup : List AddressLookupItem) (address : Nat) : Nat → Exec (List Nat)
  | 0 => .ok []
  | index + 1 => do
    let item ← getAt lookup index
    if item.address = address then
      let rest ← findBack lookup address index
      .ok (item.index :: rest)
    else .ok []

def find (self : AddressLookup) (address : Nat) : Exec (List Nat) := do
  let index := partitionPoint (fun item => item.address ≤ address) self.lookup - 1
  let item ← getAt self.lookup index
  let rest ← findBack self.lookup item.address index
  .ok (item.index :: rest)

/-- The running set after one more item. -/
def apply (indexSet : List Nat) (item : AddressLookupItem) : List Nat :=
  if item.valid then indexSet.insert item.index else indexSet.erase item.index

/-- The loop of `update`; `seen` are the items before. -/
def updateLoop (order : HashOrder) (seen : List AddressLookupItem) (indexSet : List Nat) :
    List AddressLookupItem → List AddressLookupItem
  | [] => []
  | item :: items =>
    let indexSet := apply indexSet item
    let seen := seen ++ [item]
    (order.iter seen indexSet).map (fun index => ⟨item.address, index, true⟩) ++
      updateLoop order seen indexSet items

/-- The stable sort of the items by address. -/
def sortItems (items : List AddressLookupItem) : List AddressLookupItem :=
  items.insertionSort fun a b => a.address ≤ b.address

def update (order : HashOrder) (items : List AddressLookupItem) : AddressLookup :=
  { lookup := updateLoop order [] [] (sortItems items) }

end AddressLookup

open AddressLookup
open AddressLookupItem (address index valid)

abbrev OpenIn (items : List AddressLookupItem) (k : Nat) : Prop := Sweep.OpenAfter index valid items k

abbrev Recorded (items : List AddressLookupItem) (a k : Nat) : Prop :=
  Sweep.RecordedAt address index valid items a k

abbrev ShownAt (items : List AddressLookupItem) (q k : Nat) : Prop :=
  Sweep.Shown address index valid items q k

theorem apply_nodup {set : List Nat} (h : set.Nodup) (item : AddressLookupItem) :
    (apply set item).Nodup := by
  unfold apply
  split
  · exact h.insert
  · exact h.erase _

theorem mem_apply {set : List Nat} (h : set.Nodup) (item : AddressLookupItem) (k : Nat) :
    k ∈ apply set item ↔ (item.index = k ∧ item.valid = true) ∨ (item.index ≠ k ∧ k ∈ set) := by
  unfold apply
  cases hv : item.valid
  · simp [h.mem_erase_iff, @ne_comm _ k item.index]
  · by_cases hk : item.index = k
    · simp [hk]
    · simp [hk, Ne.symm hk]

theorem openIn_concat (items : List AddressLookupItem) (item : AddressLookupItem) (k : Nat) :
    OpenIn (items ++ [item]) k ↔
      (item.index = k ∧ item.valid = true) ∨ (item.index ≠ k ∧ OpenIn items k) :=
  Sweep.openAfter_concat index valid items item k

/-- The running set holds the open slots. -/
theorem mem_foldl_apply (items : List AddressLookupItem) :
    (items.foldl apply []).Nodup ∧ ∀ k, k ∈ items.foldl apply [] ↔ OpenIn items k := by
  induction items using List.reverseRecOn with
  | nil => exact ⟨List.nodup_nil, fun k => by simp [Sweep.not_openAfter_nil]⟩
  | append_singleton items item ih =>
    rw [List.foldl_concat]
    refine ⟨apply_nodup ih.1 item, fun k => ?_⟩
    rw [openIn_concat, mem_apply ih.1, ih.2]

/-- What the loop of `update` writes. -/
theorem mem_updateLoop (order : HashOrder) (items seen : List AddressLookupItem)
    (x : AddressLookupItem) :
    x ∈ updateLoop order seen (seen.foldl apply []) items ↔
      x.valid = true ∧ ∃ pre e post, items = pre ++ e :: post ∧ e.address = x.address ∧
        OpenIn (seen ++ pre ++ [e]) x.index := by
  induction items generalizing seen with
  | nil => simp [updateLoop]
  | cons item items ih =>
    have hset : apply (seen.foldl apply []) item = (seen ++ [item]).foldl apply [] := by simp
    simp only [updateLoop, List.mem_append, List.mem_map, hset, ih,
      (order.perm _ _).mem_iff, (mem_foldl_apply _).2]
    constructor
    · rintro (⟨k, hk, rfl⟩ | ⟨hv, pre, e, post, rfl, ha, ho⟩)
      · exact ⟨rfl, [], item, items, rfl, rfl, by simpa using hk⟩
      · exact ⟨hv, item :: pre, e, post, rfl, ha, by simpa using ho⟩
    · rintro ⟨hv, pre, e, post, hes, ha, ho⟩
      cases pre with
      | nil =>
        obtain ⟨rfl, rfl⟩ : item = e ∧ items = post := by simpa using hes
        exact Or.inl ⟨x.index, by simpa using ho, by rw [ha, ← hv]⟩
      | cons y pre =>
        obtain ⟨rfl, rfl⟩ : item = y ∧ items = pre ++ e :: post := by simpa using hes
        exact Or.inr ⟨hv, pre, e, post, rfl, ha, by simpa using ho⟩

theorem updateLoop_sorted (order : HashOrder) {items : List AddressLookupItem}
    (h : items.Pairwise fun a b => a.address ≤ b.address) (seen : List AddressLookupItem)
    (set : List Nat) :
    (updateLoop order seen set items).Pairwise fun a b => a.address ≤ b.address := by
  have hmem : ∀ (items : List AddressLookupItem) (seen : List AddressLookupItem) (set : List Nat),
      ∀ x ∈ updateLoop order seen set items, ∃ e ∈ items, e.address = x.address := by
    intro items
    induction items with
    | nil => intro _ _ x hx; simp [updateLoop] at hx
    | cons item items ih =>
      intro seen set x hx
      rcases List.mem_append.mp hx with hx | hx
      · obtain ⟨k, -, rfl⟩ := List.mem_map.mp hx
        exact ⟨item, by simp, rfl⟩
      · obtain ⟨e, he, ha⟩ := ih _ _ x hx
        exact ⟨e, List.mem_cons_of_mem _ he, ha⟩
  induction items generalizing seen set with
  | nil => exact List.Pairwise.nil
  | cons item items ih =>
    obtain ⟨hle, hs⟩ := List.pairwise_cons.mp h
    refine List.pairwise_append.mpr ⟨?_, ih hs _ _, fun x hx y hy => ?_⟩
    · exact List.pairwise_map.mpr (List.pairwise_of_forall fun _ _ => le_rfl)
    · obtain ⟨k, -, rfl⟩ := List.mem_map.mp hx
      obtain ⟨e, he, ha⟩ := hmem items _ _ y hy
      exact ha ▸ hle e he

theorem sortItems_sorted (items : List AddressLookupItem) :
    (sortItems items).Pairwise fun a b => a.address ≤ b.address :=
  have : IsTrans AddressLookupItem fun a b => a.address ≤ b.address := ⟨fun _ _ _ => le_trans⟩
  have : Std.Total fun a b : AddressLookupItem => a.address ≤ b.address :=
    ⟨fun a b => le_total a.address b.address⟩
  List.pairwise_insertionSort _ items

/-- The table holds, at each address, the slots recorded there. -/
theorem mem_update (order : HashOrder) (items : List AddressLookupItem) (x : AddressLookupItem) :
    x ∈ (update order items).lookup ↔
      x.valid = true ∧ Recorded (sortItems items) x.address x.index := by
  simpa [update, Sweep.RecordedAt, OpenIn] using mem_updateLoop order (sortItems items) [] x

/-! ## The query -/

theorem findBack_eq (table : List AddressLookupItem) (a n : Nat) (hn : n ≤ table.length) :
    findBack table a n =
      .ok (((table.take n).reverse.takeWhile (fun x => x.address = a)).map index) := by
  induction n with
  | zero => simp [findBack]
  | succ n ih =>
    have hlt : n < table.length := by omega
    have htake : (table.take (n + 1)).reverse = table[n] :: (table.take n).reverse := by
      rw [List.take_succ_eq_append_getElem hlt, List.reverse_append]; rfl
    have hget : getAt table n = .ok table[n] := getAt_eq_ok.mpr (List.getElem?_eq_getElem hlt)
    rw [findBack, hget, ok_bind, htake]
    by_cases ha : table[n].address = a
    · simp [ha, ih (by omega)]
    · simp [ha]

/-- Walking down from items at most `a`, the items at `a` come first. -/
theorem mem_takeWhile_of_sorted {xs : List AddressLookupItem} {a : Nat}
    (hs : xs.Pairwise fun x y => y.address ≤ x.address) (hle : ∀ x ∈ xs, x.address ≤ a)
    (x : AddressLookupItem) :
    x ∈ xs.takeWhile (fun x => x.address = a) ↔ x ∈ xs ∧ x.address = a := by
  induction xs with
  | nil => simp
  | cons y xs ih =>
    obtain ⟨hy, hs⟩ := List.pairwise_cons.mp hs
    have hle' : ∀ x ∈ xs, x.address ≤ a := fun x hx => hle x (by simp [hx])
    by_cases ha : y.address = a
    · rw [List.takeWhile_cons_of_pos (by simpa using ha), List.mem_cons, List.mem_cons,
        ih hs hle']
      constructor
      · rintro (rfl | h)
        · exact ⟨Or.inl rfl, ha⟩
        · exact ⟨Or.inr h.1, h.2⟩
      · rintro ⟨rfl | h, h'⟩
        · exact Or.inl rfl
        · exact Or.inr ⟨h, h'⟩
    · rw [List.takeWhile_cons_of_neg (by simpa using ha)]
      refine ⟨fun h => absurd h (by simp), ?_⟩
      rintro ⟨h, h'⟩
      have hlt : y.address < a := lt_of_le_of_ne (hle y (by simp)) ha
      rcases List.mem_cons.mp h with rfl | h
      · exact absurd h' ha
      · exact absurd (hy x h) (by omega)

/-- `find` on a sorted table that is not empty: the numbers written at the last address up to
the query, when there is one. -/
theorem find_eq_ok {table : List AddressLookupItem}
    (hs : table.Pairwise fun x y => x.address ≤ y.address)
    (hne : table ≠ []) (q : Nat) :
    ∃ l, AddressLookup.find ⟨table⟩ q = .ok l ∧ (∀ k ∈ l, ∃ x ∈ table, x.index = k) ∧
      ((∃ x ∈ table, x.address ≤ q) → ∀ k, k ∈ l ↔ ∃ x ∈ table, x.index = k ∧ x.address ≤ q ∧
        ∀ y ∈ table, y.address ≤ q → y.address ≤ x.address) := by
  have hord : Sweep.Ordered address table := hs
  obtain ⟨lo, hi, rfl, hlo, hhi⟩ := hord.split_at (· ≤ q) fun a b hab hb => le_trans hab hb
  have hpp : partitionPoint (fun item => decide (item.address ≤ q)) (lo ++ hi) = lo.length :=
    partitionPoint_append (fun x hx => by simpa using hlo x hx) (fun x hx => by simpa using hhi x hx)
  rcases List.eq_nil_or_concat lo with rfl | ⟨pre, x, rfl⟩
  · -- every item lies beyond `q`: the walk stops at the first one
    cases hi with
    | nil => exact absurd rfl hne
    | cons x hi =>
      refine ⟨[x.index], ?_, by simp, ?_⟩
      · simp only [AddressLookup.find, hpp]
        simp [getAt, findBack]
      · rintro ⟨y, hy, hle⟩
        exact absurd hle (hhi y (by simpa using hy))
  · simp only [List.concat_eq_append] at *
    have hget : getAt (pre ++ [x] ++ hi) pre.length = .ok x := getAt_eq_ok.mpr (by simp)
    have hpre : ∀ y ∈ pre, y.address ≤ x.address := fun y hy =>
      (List.pairwise_append.mp (List.pairwise_append.mp hs).1).2.2 y hy x (by simp)
    have htake : (pre ++ [x] ++ hi).take pre.length = pre := by simp
    have hmax : ∀ y ∈ pre ++ [x] ++ hi, y.address ≤ q → y.address ≤ x.address := by
      intro y hy hle
      rcases List.mem_append.mp hy with hy | hy
      · rcases List.mem_append.mp hy with hy | hy
        · exact hpre y hy
        · rw [List.mem_singleton.mp hy]
      · exact absurd hle (hhi y hy)
    have hrev : pre.reverse.Pairwise fun x y => y.address ≤ x.address :=
      List.pairwise_reverse.mpr (List.pairwise_append.mp (List.pairwise_append.mp hs).1).1
    refine ⟨x.index :: (pre.reverse.takeWhile (fun y => y.address = x.address)).map index, ?_, ?_, ?_⟩
    · simp only [AddressLookup.find, hpp]
      rw [show (pre ++ [x]).length - 1 = pre.length by simp, hget, ok_bind,
        findBack_eq _ _ _ (by simp), htake]
      rfl
    · intro k hk
      rcases List.mem_cons.mp hk with rfl | hk
      · exact ⟨x, by simp, rfl⟩
      · obtain ⟨y, hy, rfl⟩ := List.mem_map.mp hk
        exact ⟨y, by simp [List.mem_reverse.mp ((List.takeWhile_sublist _).subset hy)], rfl⟩
    · intro _ k
      have hmem := mem_takeWhile_of_sorted hrev (a := x.address)
        (fun y hy => hpre y (List.mem_reverse.mp hy))
      constructor
      · intro hk
        rcases List.mem_cons.mp hk with rfl | hk
        · exact ⟨x, by simp, rfl, hlo x (by simp), hmax⟩
        · obtain ⟨y, hy, rfl⟩ := List.mem_map.mp hk
          obtain ⟨hy, ha⟩ := (hmem y).mp hy
          refine ⟨y, by simp [List.mem_reverse.mp hy], rfl, ha ▸ hlo x (by simp), ?_⟩
          exact fun z hz hle => ha ▸ hmax z hz hle
      · rintro ⟨y, hy, rfl, hle, hy'⟩
        have ha : y.address = x.address :=
          le_antisymm (hmax y hy hle) (hy' x (by simp) (hlo x (by simp)))
        rcases List.mem_append.mp hy with hm | hm
        · rcases List.mem_append.mp hm with hm | hm
          · exact List.mem_cons_of_mem _
              (List.mem_map.mpr ⟨y, (hmem y).mpr ⟨List.mem_reverse.mpr hm, ha⟩, rfl⟩)
          · rw [List.mem_singleton.mp hm]; simp
        · exact absurd hle (hhi y hm)

theorem update_ne_nil (order : HashOrder) {items : List AddressLookupItem} {a k : Nat}
    (h : Recorded (sortItems items) a k) : (update order items).lookup ≠ [] := by
  have hx : (⟨a, k, true⟩ : AddressLookupItem) ∈ (update order items).lookup :=
    (mem_update order items _).mpr ⟨rfl, h⟩
  exact List.ne_nil_of_mem hx

/-- **The query of a built table**: every number it returns is recorded somewhere, and once
anything is recorded up to the query they are the numbers shown there. -/
theorem find_update (order : HashOrder) (items : List AddressLookupItem) (q : Nat) {a k : Nat}
    (hrec : Recorded (sortItems items) a k) :
    ∃ l, (update order items).find q = .ok l ∧
      (∀ k ∈ l, ∃ a, Recorded (sortItems items) a k) ∧
      ((∃ a k, a ≤ q ∧ Recorded (sortItems items) a k) →
        ∀ k, k ∈ l ↔ ShownAt (sortItems items) q k) := by
  obtain ⟨l, hl, hsub, hmem⟩ := find_eq_ok
    (updateLoop_sorted order (sortItems_sorted items) [] []) (update_ne_nil order hrec) q
  refine ⟨l, hl, fun k hk => ?_, ?_⟩
  · obtain ⟨x, hx, rfl⟩ := hsub k hk
    exact ⟨x.address, ((mem_update order items x).mp hx).2⟩
  · rintro ⟨a', k', ha', hrec'⟩ k
    have hx : (⟨a', k', true⟩ : AddressLookupItem) ∈ (update order items).lookup :=
      (mem_update order items _).mpr ⟨rfl, hrec'⟩
    rw [hmem ⟨_, hx, ha'⟩ k]
    constructor
    · rintro ⟨x, hx, rfl, hle, hmax⟩
      refine ⟨x.address, hle, ((mem_update order items x).mp hx).2, fun b j hb hq hj => ?_⟩
      exact absurd (hmax ⟨b, j, true⟩ ((mem_update order items _).mpr ⟨rfl, hj⟩) hq) (not_le.mpr hb)
    · rintro ⟨b, hb, hk, hmax⟩
      refine ⟨⟨b, k, true⟩, (mem_update order items _).mpr ⟨rfl, hk⟩, rfl, hb, fun y hy hq => ?_⟩
      by_contra hlt
      exact hmax y.address y.index (not_le.mp hlt) hq ((mem_update order items y).mp hy).2

end OneCollect.Exporting
