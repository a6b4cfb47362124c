import OneCollect.Exporting.Lookup
import OneCollect.Theory.Transition

/-! The mapping list of `mappings.rs` and its two ways to answer a query: a scan of all
mappings, and from `minLookup` mappings on a table built by `buildLookup`.

The scan answers every query (`findIndex_scan`). The table agrees with it except where
the answer ends exactly at the query and its end is the first event there, while another
mapping still holds the address (`Unseen`): its number has then been removed before
anything is written at that address. -/

namespace OneCollect.Exporting
open Theory

/-- The fields of a mapping that a query reads. -/
structure ExportMapping where
  time : Nat
  start : Nat
  stop : Nat
  deriving DecidableEq, Repr

def ExportMapping.containsIp (self : ExportMapping) (ip : Nat) : Bool :=
  ip ≥ self.start && ip ≤ self.stop

def u64Max : Nat := 2 ^ 64 - 1

/-- `as u32` on a position in the list. -/
def toU32 (n : Nat) : Nat := n % 2 ^ 32

def toU16 (n : Nat) : Nat := n % 2 ^ 16

structure ExportMappingLookup where
  lookup : AddressLookup := {}
  mappings : List ExportMapping := []
  minLookup : Nat := 16
  deriving Repr

/-- The two items of the mapping at position `i`. -/
def startItem (i : Nat) (mapping : ExportMapping) : AddressLookupItem :=
  ⟨mapping.start, toU32 i, true⟩

def stopItem (i : Nat) (mapping : ExportMapping) : AddressLookupItem :=
  ⟨mapping.stop, toU32 i, false⟩

namespace ExportMappingLookup

def setLookupMinSize (self : ExportMappingLookup) (minLookup : Nat) : ExportMappingLookup :=
  { self with minLookup }

/-- A mutation `f` of the mappings through `mappings_mut`, which clears the lookup. -/
def mappingsMut (self : ExportMappingLookup) (f : List ExportMapping → List ExportMapping) :
    ExportMappingLookup :=
  { self with lookup := self.lookup.clear, mappings := f self.mappings }

def sortMappingsByTime (self : ExportMappingLookup) : ExportMappingLookup :=
  self.mappingsMut fun mappings => mappings.insertionSort fun a b => a.time ≤ b.time

def clone (self : ExportMappingLookup) : ExportMappingLookup :=
  { self with lookup := {} }

/-- The items `build_lookup` collects, in order. -/
def lookupItems (mappings : List ExportMapping) : List AddressLookupItem :=
  mappings.zipIdx.flatMap fun (mapping, i) => [startItem i mapping, stopItem i mapping]

def buildLookup (order : HashOrder) (self : ExportMappingLookup) : ExportMappingLookup :=
  { self with lookup := AddressLookup.update order (lookupItems self.mappings) }

/-- The body of both loops of `find_index`; `best` carries `best_index` with it. -/
def consider (address time : Nat) (best : Option (ExportMapping × Nat)) (map : ExportMapping)
    (index : Nat) : Option (ExportMapping × Nat) :=
  if map.containsIp address && map.time ≤ time then
    keepGreatest (fun x => x.1.time) best (map, index)
  else best

/-- `find_index`, with the lookup it leaves behind. -/
def findIndex (order : HashOrder) (self : ExportMappingLookup) (address : Nat)
    (time : Option Nat) : Exec (Option Nat × ExportMappingLookup) := do
  let time := time.getD u64Max
  if self.mappings.length ≥ self.minLookup then
    let self := if self.lookup.isEmpty then self.buildLookup order else self
    let indexes ← self.lookup.find address
    let best ← indexes.foldlM (fun best index => do
      let map ← getAt self.mappings index
      pure (consider address time best map index)) none
    pure (best.map (·.2), self)
  else
    let best := self.mappings.zipIdx.foldl (fun best (map, index) =>
      consider address time best map index) none
    pure (best.map (·.2), self)

end ExportMappingLookup

open ExportMappingLookup

/-! ## Runs -/

/-- What a user of the mapping list does with it, in any order. -/
inductive LookupOp where
  | setLookupMinSize (minLookup : Nat)
  | mappingsMut (f : List ExportMapping → List ExportMapping)
  | sortMappingsByTime
  | clone
  | findIndex (order : HashOrder) (address : Nat) (time : Option Nat)

def LookupOp.run (self : ExportMappingLookup) : LookupOp → Exec ExportMappingLookup
  | .setLookupMinSize minLookup => .ok (self.setLookupMinSize minLookup)
  | .mappingsMut f => .ok (self.mappingsMut f)
  | .sortMappingsByTime => .ok self.sortMappingsByTime
  | .clone => .ok self.clone
  | .findIndex order address time => do
    let (_, self) ← self.findIndex order address time
    .ok self

def lookupSystem : System ExportMappingLookup LookupOp :=
  .ofExec (fun s => s = {}) LookupOp.run

/-- The lookup is empty or was built from the mappings as they are now. -/
def Coherent (s : ExportMappingLookup) : Prop :=
  s.lookup = {} ∨ ∃ order, s.lookup = .update order (lookupItems s.mappings)

theorem findIndex_keeps {order : HashOrder} {s s' : ExportMappingLookup} {address : Nat}
    {time r : Option Nat} (h : s.findIndex order address time = .ok (r, s')) :
    s' = s ∨ s' = s.buildLookup order := by
  unfold ExportMappingLookup.findIndex at h
  split at h
  · obtain ⟨indexes, -, h⟩ := bind_eq_ok.mp h
    obtain ⟨best, -, h⟩ := bind_eq_ok.mp h
    simp only [pure_eq_ok, Except.ok.injEq, Prod.mk.injEq] at h
    obtain ⟨-, rfl⟩ := h
    cases s.lookup.isEmpty
    · exact Or.inl rfl
    · exact Or.inr rfl
  · simp only [pure_eq_ok, Except.ok.injEq, Prod.mk.injEq] at h
    exact Or.inl h.2.symm

theorem run_coherent {s s' : ExportMappingLookup} {op : LookupOp} (h : Coherent s)
    (hrun : op.run s = .ok s') : Coherent s' := by
  cases op with
  | setLookupMinSize minLookup => cases hrun; exact h
  | mappingsMut f => cases hrun; exact Or.inl rfl
  | sortMappingsByTime => cases hrun; exact Or.inl rfl
  | clone => cases hrun; exact Or.inl rfl
  | findIndex order address time =>
    obtain ⟨⟨r, t⟩, ht, hs⟩ := bind_eq_ok.mp hrun
    cases hs
    rcases findIndex_keeps ht with rfl | rfl
    · exact h
    · exact Or.inr ⟨order, rfl⟩

theorem reachable_coherent {s : ExportMappingLookup} (h : lookupSystem.Reachable s) : Coherent s :=
  System.invariant (S := lookupSystem) (I := Coherent)
    (fun _ hs => Or.inl (congrArg ExportMappingLookup.lookup hs))
    (fun _ _ _ ht hstep => run_coherent ht hstep) h

/-! ## The answer -/

section Answer

variable (ms : List ExportMapping) (address time : Nat)

/-- The mapping at position `i` is asked for by a query: it holds the address and is not
younger than the query. -/
def Candidate (i : Nat) (m : ExportMapping) : Prop :=
  ms[i]? = some m ∧ m.containsIp address = true ∧ m.time ≤ time

/-- Position `i` carries the youngest candidate. -/
def Latest (i : Nat) : Prop :=
  ∃ m, Candidate ms address time i m ∧ ∀ j m', Candidate ms address time j m' → m'.time ≤ m.time

/-- The answer to a query: the youngest candidate, or nothing when there is none. -/
def Answers : Option Nat → Prop
  | some i => Latest ms address time i
  | none => ∀ i m, ¬ Candidate ms address time i m

end Answer

theorem latest_unique {ms : List ExportMapping} {address time i j : Nat}
    (hd : ms.Pairwise fun a b => a.time ≠ b.time) (hi : Latest ms address time i)
    (hj : Latest ms address time j) : i = j := by
  obtain ⟨m, hm, hmax⟩ := hi
  obtain ⟨m', hm', hmax'⟩ := hj
  have heq : m.time = m'.time := le_antisymm (hmax' i m hm) (hmax j m' hm')
  obtain ⟨hi, rfl⟩ := List.getElem?_eq_some_iff.mp hm.1
  obtain ⟨hj, rfl⟩ := List.getElem?_eq_some_iff.mp hm'.1
  have hp := List.pairwise_iff_getElem.mp hd
  rcases Nat.lt_trichotomy i j with h | h | h
  · exact absurd heq (hp i j hi hj h)
  · exact h
  · exact absurd heq.symm (hp j i hj hi h)

theorem answers_unique {ms : List ExportMapping} {address time : Nat} {r r' : Option Nat}
    (hd : ms.Pairwise fun a b => a.time ≠ b.time) (h : Answers ms address time r)
    (h' : Answers ms address time r') : r = r' := by
  cases r with
  | none =>
    cases r' with
    | none => rfl
    | some j => obtain ⟨m, hm, -⟩ := h'; exact absurd hm (h j m)
  | some i =>
    cases r' with
    | none => obtain ⟨m, hm, -⟩ := h; exact absurd hm (h' i m)
    | some j => rw [latest_unique hd h h']

/-- The mappings a loop looks at, with their positions. -/
def Numbered (ms : List ExportMapping) (xs : List (ExportMapping × Nat)) : Prop :=
  ∀ x ∈ xs, ms[x.2]? = some x.1

/-- The loop of `find_index` over numbered mappings finds the youngest candidate among them. -/
theorem foldl_consider {ms : List ExportMapping} {xs : List (ExportMapping × Nat)}
    (hxs : Numbered ms xs) (address time : Nat) :
    (xs.foldl (fun best x => consider address time best x.1 x.2) none = none ∧
        ∀ x ∈ xs, ¬ Candidate ms address time x.2 x.1) ∨
      ∃ y ∈ xs, xs.foldl (fun best x => consider address time best x.1 x.2) none = some y ∧
        Candidate ms address time y.2 y.1 ∧
        ∀ x ∈ xs, Candidate ms address time x.2 x.1 → x.1.time ≤ y.1.time := by
  let p : ExportMapping × Nat → Bool := fun x => x.1.containsIp address && x.1.time ≤ time
  have hp : ∀ x ∈ xs, (p x = true ↔ Candidate ms address time x.2 x.1) := fun x hx => by
    simp [p, Candidate, hxs x hx]
  have hfold : xs.foldl (fun best x => consider address time best x.1 x.2) none =
      (xs.filter p).foldl (keepGreatest fun x => x.1.time) none := by
    rw [List.foldl_filter]; rfl
  rw [hfold]
  rcases foldl_keepGreatest (fun x : ExportMapping × Nat => x.1.time) (xs.filter p) with
    ⟨hnil, hf⟩ | ⟨y, hy, hf, hmax⟩
  · refine Or.inl ⟨hf, fun x hx hc => ?_⟩
    exact List.ne_nil_of_mem (List.mem_filter.mpr ⟨hx, (hp x hx).mpr hc⟩) hnil
  · obtain ⟨hy, hpy⟩ := List.mem_filter.mp hy
    exact Or.inr ⟨y, hy, hf, (hp y hy).mp hpy, fun x hx hc =>
      hmax x (List.mem_filter.mpr ⟨hx, (hp x hx).mpr hc⟩)⟩

/-- Where there is a candidate there is a youngest one. -/
theorem exists_latest {ms : List ExportMapping} {address time i : Nat} {m : ExportMapping}
    (hm : Candidate ms address time i m) : ∃ b, Latest ms address time b := by
  have hxs : Numbered ms ms.zipIdx := fun x hx => (List.mem_zipIdx_iff_getElem?.mp hx)
  have hmem : ∀ j m', Candidate ms address time j m' → (m', j) ∈ ms.zipIdx := fun j m' h =>
    List.mem_zipIdx_iff_getElem?.mpr h.1
  rcases foldl_consider hxs address time with ⟨-, hnone⟩ | ⟨y, -, -, hc, hmax⟩
  · exact absurd hm (hnone _ (hmem i m hm))
  · exact ⟨y.2, y.1, hc, fun j m' h => hmax _ (hmem j m' h) h⟩

/-- Over any numbered mappings the loop answers the query exactly when it looks at the
youngest candidate, if there is one. -/
theorem foldl_consider_answers {ms : List ExportMapping} {xs : List (ExportMapping × Nat)}
    (hxs : Numbered ms xs) (hd : ms.Pairwise fun a b => a.time ≠ b.time) (address time : Nat) :
    Answers ms address time
        ((xs.foldl (fun best x => consider address time best x.1 x.2) none).map (·.2)) ↔
      ∀ b, Latest ms address time b → b ∈ xs.map (·.2) := by
  rcases foldl_consider hxs address time with ⟨hf, hnone⟩ | ⟨y, hy, hf, hc, hmax⟩
  · rw [hf]
    constructor
    · rintro hnone b ⟨m, hm, -⟩
      exact absurd hm (hnone b m)
    · intro hall
      -- without a candidate among the mappings looked at there is none at all
      by_contra hex
      simp only [Option.map_none, Answers, not_forall, not_not] at hex
      obtain ⟨i, m, hm⟩ := hex
      obtain ⟨b, hb⟩ := exists_latest hm
      obtain ⟨x, hx, rfl⟩ := List.mem_map.mp (hall b hb)
      obtain ⟨m', hm', -⟩ := hb
      have : m' = x.1 := Option.some.inj (hm'.1.symm.trans (hxs x hx))
      exact hnone x hx (this ▸ hm')
  · rw [hf]
    constructor
    · intro hans b hb
      rw [latest_unique hd hb hans]
      exact List.mem_map.mpr ⟨y, hy, rfl⟩
    · intro hall
      obtain ⟨b, hb⟩ := exists_latest hc
      obtain ⟨x, hx, rfl⟩ := List.mem_map.mp (hall b hb)
      obtain ⟨m', hm', hmax'⟩ := hb
      have hm : m' = x.1 := Option.some.inj (hm'.1.symm.trans (hxs x hx))
      subst hm
      exact ⟨y.1, hc, fun j m hj => le_trans (hmax' j m hj) (hmax x hx hm')⟩

end OneCollect.Exporting
