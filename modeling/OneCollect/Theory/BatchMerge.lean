import Mathlib.Data.List.Basic
import Mathlib.Order.Lattice
import Mathlib.Algebra.GroupWithZero.Nat

/-! Merging queues in batches. Each item has a key, or none: such an item can only be
skipped. A cycle looks at the heads of all queues, takes the queue with the least key and
hands out items from it while they stay at most the second least head key, at most `cap` of
them. An item without a key ends the batch and is skipped with it.

* Every item with a key is handed out at most once and in the order of its queue, and those
  not handed out are still in the queue (`run_split`).
* Cycles end (`exists_finished`).
* Without items to skip and with sorted queues, what is handed out is sorted (`run_sorted`).
* Everything is handed out exactly when no cycle starts with a queue that is `Stuck`
  (`all_handed_out_iff`). -/

namespace OneCollect.Theory.BatchMerge

/-! ## The two least heads -/

/-- The queue with the least head key so far, and the second least head key. -/
structure Lead where
  oldest : Option (Nat × Nat) := none
  next : Option Nat := none
  deriving DecidableEq, Repr

/-- One more head, of key `time`, on queue `i`. -/
def Lead.add (lead : Lead) (time i : Nat) : Lead :=
  match lead.oldest with
  | none => { lead with oldest := some (time, i) }
  | some (prev, _) =>
    if time < prev then ⟨some (time, i), some prev⟩
    else match lead.next with
      | none => { lead with next := some time }
      | some next => if time < next then { lead with next := some time } else lead

def leadFrom : Nat → Lead → List (Option Nat) → Lead
  | _, lead, [] => lead
  | i, lead, none :: heads => leadFrom (i + 1) lead heads
  | i, lead, some time :: heads => leadFrom (i + 1) (lead.add time i) heads

/-- What a lead says about the heads: there is none, or it names the least one and the second
least key. -/
inductive Lead.Of (heads : List (Option Nat)) : Lead → Prop
  | idle (hnone : ∀ head ∈ heads, head = none) : Of heads ⟨none, none⟩
  | found {t c : Nat} {next : Option Nat} (hhead : heads[c]? = some (some t))
      (hnext : ∀ n, next = some n → t ≤ n)
      (hothers : ∀ j u, j ≠ c → heads[j]? = some (some u) → ∃ n, next = some n ∧ n ≤ u) :
      Of heads ⟨some (t, c), next⟩

theorem getElem?_concat {heads : List (Option Nat)} {x : Option Nat} {j u : Nat}
    (h : (heads ++ [x])[j]? = some (some u)) :
    heads[j]? = some (some u) ∨ (j = heads.length ∧ x = some u) := by
  rcases Nat.lt_trichotomy j heads.length with hlt | heq | hgt
  · rw [List.getElem?_append_left hlt] at h
    exact Or.inl h
  · subst heq
    exact Or.inr ⟨rfl, by simpa using h⟩
  · rw [List.getElem?_eq_none (by simp; omega)] at h
    cases h

theorem Lead.Of.skip {heads : List (Option Nat)} {lead : Lead} (h : lead.Of heads) :
    lead.Of (heads ++ [none]) := by
  cases h with
  | idle hnone =>
    refine .idle fun head hhead => ?_
    cases List.mem_append.mp hhead with
    | inl h => exact hnone head h
    | inr h => exact List.mem_singleton.mp h
  | found hhead hnext hothers =>
    refine .found ?_ hnext fun j u hj hu => ?_
    · have hlt := (List.getElem?_eq_some_iff.mp hhead).1
      rw [List.getElem?_append_left hlt]
      exact hhead
    · cases getElem?_concat hu with
      | inl h => exact hothers j u hj h
      | inr h => cases h.2

theorem Lead.Of.add {heads : List (Option Nat)} {lead : Lead} (h : lead.Of heads) (time : Nat) :
    (lead.add time heads.length).Of (heads ++ [some time]) := by
  have hlast : (heads ++ [some time])[heads.length]? = some (some time) := by simp
  cases h with
  | idle hnone =>
    refine .found hlast (by simp) fun j u hj hu => ?_
    cases getElem?_concat hu with
    | inl h => cases hnone _ (List.mem_of_getElem? h)
    | inr h => exact absurd h.1 hj
  | @found t c next hhead hnext hothers =>
    have hlt := (List.getElem?_eq_some_iff.mp hhead).1
    have hold : (heads ++ [some time])[c]? = some (some t) := by
      rw [List.getElem?_append_left hlt]
      exact hhead
    -- the old keys and the new one, seen from the old queue
    have hall : ∀ j u, j ≠ c → (heads ++ [some time])[j]? = some (some u) →
        (∃ n, next = some n ∧ n ≤ u) ∨ u = time := by
      intro j u hj hu
      cases getElem?_concat hu with
      | inl h => exact Or.inl (hothers j u hj h)
      | inr h => exact Or.inr (Option.some.inj h.2).symm
    unfold Lead.add
    by_cases htime : time < t
    · simp only [if_pos htime]
      refine .found hlast (by intro n hn; cases hn; omega) fun j u hj hu => ⟨t, rfl, ?_⟩
      by_cases hjc : j = c
      · subst hjc
        rw [hold] at hu
        cases hu
        exact Nat.le_refl _
      · cases getElem?_concat hu with
        | inl h =>
          obtain ⟨n, hn, hle⟩ := hothers j u hjc h
          have := hnext n hn
          omega
        | inr h => exact absurd h.1 hj
    · simp only [if_neg htime]
      cases next with
      | none =>
        refine .found hold (by intro n hn; cases hn; omega) fun j u hj hu => ⟨time, rfl, ?_⟩
        cases hall j u hj hu with
        | inl h => obtain ⟨n, hn, -⟩ := h; cases hn
        | inr h => omega
      | some n =>
        simp only
        by_cases hn : time < n
        · rw [if_pos hn]
          refine .found hold (by intro m hm; cases hm; omega) fun j u hj hu => ⟨time, rfl, ?_⟩
          cases hall j u hj hu with
          | inl h => obtain ⟨m, hm, hle⟩ := h; cases hm; omega
          | inr h => omega
        · rw [if_neg hn]
          refine .found hold hnext fun j u hj hu => ⟨n, rfl, ?_⟩
          cases hall j u hj hu with
          | inl h => obtain ⟨m, hm, hle⟩ := h; cases hm; omega
          | inr h => omega

theorem leadFrom_of (rest seen : List (Option Nat)) (lead : Lead) (h : lead.Of seen) :
    (leadFrom seen.length lead rest).Of (seen ++ rest) := by
  induction rest generalizing seen lead with
  | nil => simpa [leadFrom] using h
  | cons head rest ih =>
    cases head with
    | none =>
      have := ih (seen ++ [none]) lead h.skip
      simpa [leadFrom] using this
    | some time =>
      have := ih (seen ++ [some time]) (lead.add time seen.length) (h.add time)
      simpa [leadFrom] using this

def leadOf (heads : List (Option Nat)) : Lead := leadFrom 0 {} heads

theorem leadOf_of (heads : List (Option Nat)) : (leadOf heads).Of heads :=
  leadFrom_of heads [] {} (.idle (by simp))

/-! ## One cycle -/

section Cycle

variable {α : Type} (key : α → Option Nat) (cap : Nat)

def headKey (q : List α) : Option Nat := q.head?.bind key

/-- The items of a queue that have a key. -/
def keyed (q : List α) : List α := q.filter fun x => (key x).isSome

/-- What is handed out from a queue, and what is left of it. -/
def batch (next : Option Nat) : Nat → List α → List α × List α
  | 0, q => ([], q)
  | _ + 1, [] => ([], [])
  | n + 1, x :: q =>
    match key x with
    | none => ([], q)
    | some t =>
      if next.any (· < t) then ([], x :: q)
      else (x :: (batch next n q).1, (batch next n q).2)

/-- One cycle: the items handed out, each with its queue, and the queues after it. -/
def cycle (qs : List (List α)) : List (Nat × α) × List (List α) :=
  match (leadOf (qs.map (headKey key))).oldest with
  | none => ([], qs)
  | some (_, c) =>
    let b := batch key (leadOf (qs.map (headKey key))).next cap (qs.getD c [])
    (b.1.map (c, ·), qs.set c b.2)

/-- The first `n` cycles. -/
def run : Nat → List (List α) → List (Nat × α) × List (List α)
  | 0, qs => ([], qs)
  | n + 1, qs =>
    ((run n qs).1 ++ (cycle key cap (run n qs).2).1, (cycle key cap (run n qs).2).2)

/-- No queue has a head with a key. -/
def Finished (qs : List (List α)) : Prop := ∀ q ∈ qs, headKey key q = none

/-- Items with a key behind a head without one. -/
def Stuck (q : List α) : Prop := headKey key q = none ∧ keyed key q ≠ []

end Cycle

section Batch

variable {α : Type} {key : α → Option Nat} {cap : Nat}

theorem batch_split (key : α → Option Nat) (next : Option Nat) (n : Nat) (q : List α) :
    keyed key q = (batch key next n q).1 ++ keyed key (batch key next n q).2 := by
  induction n generalizing q with
  | zero => rfl
  | succ n ih =>
    cases q with
    | nil => rfl
    | cons x q =>
      unfold batch
      cases hx : key x with
      | none => simp [keyed, hx]
      | some t =>
        by_cases hlt : next.any (· < t) = true
        · simp [hlt]
        · simp only [hlt, keyed, List.filter_cons, hx]
          simpa [keyed] using ih q

/-- Without items to skip a batch is a prefix of its queue. -/
theorem batch_append {q : List α} (hq : ∀ x ∈ q, key x ≠ none) (next : Option Nat) (n : Nat) :
    q = (batch key next n q).1 ++ (batch key next n q).2 := by
  induction n generalizing q with
  | zero => rfl
  | succ n ih =>
    cases q with
    | nil => rfl
    | cons x q =>
      unfold batch
      cases hx : key x with
      | none => exact absurd hx (hq x (by simp))
      | some t =>
        by_cases hlt : next.any (· < t) = true
        · simp [hlt]
        · simpa [hlt] using ih fun y hy => hq y (by simp [hy])

/-- Items handed out have keys up to the second least head. -/
theorem batch_le {next : Option Nat} {n m : Nat} {q : List α} {x : α}
    (hx : x ∈ (batch key next n q).1) (hm : next = some m) : ∃ t, key x = some t ∧ t ≤ m := by
  induction n generalizing q with
  | zero => simp [batch] at hx
  | succ n ih =>
    cases q with
    | nil => simp [batch] at hx
    | cons y q =>
      unfold batch at hx
      cases hy : key y with
      | none => simp [hy] at hx
      | some t =>
        by_cases hlt : next.any (· < t) = true
        · simp [hy, hlt] at hx
        · simp only [hy, hlt] at hx
          cases List.mem_cons.mp hx with
          | inl h =>
            subst h
            subst hm
            exact ⟨t, hy, by simpa using hlt⟩
          | inr h => exact ih h

/-- A batch whose first item is within the bound is not empty. -/
theorem batch_ne_nil {next : Option Nat} {t : Nat} {q : List α} (hcap : 0 < cap)
    (hhead : headKey key q = some t) (hnext : ∀ n, next = some n → t ≤ n) :
    (batch key next cap q).1 ≠ [] := by
  cases cap with
  | zero => omega
  | succ cap =>
    cases q with
    | nil => simp [headKey] at hhead
    | cons x q =>
      have hx : key x = some t := by simpa [headKey] using hhead
      have hlt : ¬ next.any (· < t) = true := by
        cases next with
        | none => simp
        | some n =>
          have := hnext n rfl
          simp
          omega
      simp [batch, hx, hlt]

/-- The two ways a cycle goes. -/
theorem cycle_cases (key : α → Option Nat) (cap : Nat) (qs : List (List α)) :
    (Finished key qs ∧ cycle key cap qs = ([], qs)) ∨
      ∃ t c next q, qs[c]? = some q ∧ headKey key q = some t ∧
        (∀ n, next = some n → t ≤ n) ∧
        (∀ j p u, j ≠ c → qs[j]? = some p → headKey key p = some u → ∃ n, next = some n ∧ n ≤ u) ∧
        cycle key cap qs =
          ((batch key next cap q).1.map (c, ·), qs.set c (batch key next cap q).2) := by
  have hof := leadOf_of (qs.map (headKey key))
  unfold cycle
  generalize leadOf (qs.map (headKey key)) = lead at hof
  cases hof with
  | idle hnone =>
    refine Or.inl ⟨fun q hq => hnone _ (List.mem_map.mpr ⟨q, hq, rfl⟩), rfl⟩
  | @found t c next hhead hnext hothers =>
    rw [List.getElem?_map, Option.map_eq_some_iff] at hhead
    obtain ⟨q, hq, hkey⟩ := hhead
    refine Or.inr ⟨t, c, next, q, hq, hkey, hnext, fun j p u hj hp hu => ?_, ?_⟩
    · exact hothers j u hj (by rw [List.getElem?_map, hp, Option.map_some, hu])
    · have hgetD : qs.getD c [] = q := by rw [List.getD_eq_getElem?_getD, hq, Option.getD_some]
      simp only [hgetD]

end Batch

/-! ## What is handed out -/

section Split

variable {α : Type} {key : α → Option Nat} {cap : Nat}

/-- The items handed out from queue `c`, in order. -/
def itemsOf (c : Nat) (log : List (Nat × α)) : List α := (log.filter (·.1 = c)).map (·.2)

theorem itemsOf_append (c : Nat) (xs ys : List (Nat × α)) :
    itemsOf c (xs ++ ys) = itemsOf c xs ++ itemsOf c ys := by
  simp [itemsOf]

theorem itemsOf_tagged (c d : Nat) (xs : List α) :
    itemsOf c (xs.map (d, ·)) = if d = c then xs else [] := by
  by_cases h : d = c
  · simp [itemsOf, List.filter_map, Function.comp_def, h]
  · simp [itemsOf, List.filter_map, Function.comp_def, h]

theorem cycle_split (key : α → Option Nat) (cap : Nat) {qs : List (List α)} {c : Nat} {q : List α}
    (hq : qs[c]? = some q) :
    ∃ r, (cycle key cap qs).2[c]? = some r ∧
      keyed key q = itemsOf c (cycle key cap qs).1 ++ keyed key r := by
  rcases cycle_cases key cap qs with
    ⟨-, hcycle⟩ | ⟨t, d, next, p, hp, -, -, -, hcycle⟩
  · rw [hcycle]
    exact ⟨q, hq, rfl⟩
  · rw [hcycle]
    simp only [itemsOf_tagged]
    by_cases hdc : d = c
    · subst hdc
      rw [hq] at hp
      cases hp
      have hlt := (List.getElem?_eq_some_iff.mp hq).1
      refine ⟨_, List.getElem?_set_self hlt, ?_⟩
      rw [if_pos rfl]
      exact batch_split key next cap q
    · refine ⟨q, ?_, by rw [if_neg hdc, List.nil_append]⟩
      rw [List.getElem?_set_ne hdc]
      exact hq

/-- **Nothing is lost and nothing doubled**: the items of a queue that have a key are those
handed out from it, in order, and then those still in it. -/
theorem run_split (key : α → Option Nat) (cap : Nat) {qs : List (List α)} {c : Nat} {q : List α}
    (hq : qs[c]? = some q) (n : Nat) :
    ∃ r, (run key cap n qs).2[c]? = some r ∧
      keyed key q = itemsOf c (run key cap n qs).1 ++ keyed key r := by
  induction n with
  | zero => exact ⟨q, hq, rfl⟩
  | succ n ih =>
    obtain ⟨r, hr, hsplit⟩ := ih
    obtain ⟨r', hr', hsplit'⟩ := cycle_split key cap hr
    refine ⟨r', hr', ?_⟩
    rw [run, itemsOf_append, List.append_assoc, ← hsplit', ← hsplit]

end Split

/-! ## Cycles end -/

section Finish

variable {α : Type} {key : α → Option Nat} {cap : Nat} {qs : List (List α)}

theorem cycle_finished (h : Finished key qs) : cycle key cap qs = ([], qs) := by
  rcases cycle_cases key cap qs with
    ⟨-, hcycle⟩ | ⟨t, c, next, q, hq, hkey, -, -, -⟩
  · exact hcycle
  · rw [h q (List.mem_of_getElem? hq)] at hkey
    cases hkey

theorem run_finished {n m : Nat} (h : Finished key (run key cap n qs).2) (hm : n ≤ m) :
    (run key cap m qs).2 = (run key cap n qs).2 := by
  induction hm with
  | refl => rfl
  | step _ ih =>
    rw [run, cycle_finished (by rw [ih]; exact h)]
    exact ih

/-- The number of items with a key. -/
def total (key : α → Option Nat) (qs : List (List α)) : Nat :=
  (qs.map fun q => (keyed key q).length).sum

theorem total_set (key : α → Option Nat) {c : Nat} {q r : List α} (hq : qs[c]? = some q) :
    total key (qs.set c r) + (keyed key q).length = total key qs + (keyed key r).length := by
  induction qs generalizing c with
  | nil => simp at hq
  | cons p qs ih =>
    cases c with
    | zero =>
      simp only [List.getElem?_cons_zero, Option.some.injEq] at hq
      subst hq
      simp only [total, List.set_cons_zero, List.map_cons, List.sum_cons]
      omega
    | succ c =>
      have := ih (by simpa using hq)
      simp only [total, List.set_cons_succ, List.map_cons, List.sum_cons] at this ⊢
      omega

theorem cycle_total (key : α → Option Nat) (cap : Nat) (qs : List (List α)) :
    (cycle key cap qs).1.length + total key (cycle key cap qs).2 = total key qs := by
  rcases cycle_cases key cap qs with
    ⟨-, hcycle⟩ | ⟨t, c, next, q, hq, -, -, -, hcycle⟩
  · rw [hcycle]
    simp
  · rw [hcycle]
    have hset := total_set key (r := (batch key next cap q).2) hq
    have hsplit := congrArg List.length (batch_split key next cap q)
    rw [List.length_append] at hsplit
    simp only [List.length_map]
    omega

theorem cycle_progress (hcap : 0 < cap) (h : ¬ Finished key qs) :
    0 < (cycle key cap qs).1.length := by
  rcases cycle_cases key cap qs with
    ⟨hfin, -⟩ | ⟨t, c, next, q, -, hkey, hnext, -, hcycle⟩
  · exact absurd hfin h
  · rw [hcycle, List.length_map]
    exact List.length_pos_iff.mpr (batch_ne_nil hcap hkey hnext)

theorem run_total (key : α → Option Nat) (cap n : Nat) (qs : List (List α)) :
    (run key cap n qs).1.length + total key (run key cap n qs).2 = total key qs := by
  induction n with
  | zero => simp [run]
  | succ n ih =>
    have := cycle_total key cap (run key cap n qs).2
    simp only [run, List.length_append]
    omega

theorem run_progress (hcap : 0 < cap) {n : Nat}
    (h : ∀ m, m < n → ¬ Finished key (run key cap m qs).2) : n ≤ (run key cap n qs).1.length := by
  induction n with
  | zero => exact Nat.zero_le _
  | succ n ih =>
    have hn := ih fun m hm => h m (by omega)
    have hpos := cycle_progress hcap (h n (Nat.lt_succ_self n))
    rw [run, List.length_append]
    omega

/-- **Cycles end.** -/
theorem exists_finished (key : α → Option Nat) (hcap : 0 < cap) (qs : List (List α)) :
    ∃ n, Finished key (run key cap n qs).2 := by
  by_contra hnone
  rw [not_exists] at hnone
  have hle : total key qs + 1 ≤ (run key cap (total key qs + 1) qs).1.length :=
    run_progress hcap fun m _ => hnone m
  have := run_total key cap (total key qs + 1) qs
  omega

theorem run_stuck {n m c : Nat} {q : List α} (hq : (run key cap n qs).2[c]? = some q)
    (hstuck : Stuck key q) (hm : n ≤ m) : (run key cap m qs).2[c]? = some q := by
  induction hm with
  | refl => exact hq
  | @step m _ ih =>
    rw [run]
    rcases cycle_cases key cap (run key cap m qs).2 with
      ⟨-, hcycle⟩ | ⟨t, d, next, p, hp, hkey, -, -, hcycle⟩
    · rw [hcycle]
      exact ih
    · rw [hcycle]
      -- a stuck queue has no head key, so the cycle took another one
      have hdc : d ≠ c := by
        rintro rfl
        rw [ih] at hp
        cases hp
        rw [hstuck.1] at hkey
        cases hkey
      simp only
      rw [List.getElem?_set_ne hdc]
      exact ih

/-- **When everything is handed out.** At the end every item with a key has been handed out
exactly when no cycle started with a stuck queue. -/
theorem all_handed_out_iff {n : Nat} (hfin : Finished key (run key cap n qs).2) :
    (∀ c q, qs[c]? = some q → itemsOf c (run key cap n qs).1 = keyed key q) ↔
      ∀ m, ∀ q ∈ (run key cap m qs).2, ¬ Stuck key q := by
  have hlength : ∀ m, (run key cap m qs).2.length = qs.length := by
    intro m
    induction m with
    | zero => rfl
    | succ m ih =>
      rw [run]
      rcases cycle_cases key cap (run key cap m qs).2 with
        ⟨-, hcycle⟩ | ⟨t, d, next, p, -, -, -, -, hcycle⟩
      · rw [hcycle]
        exact ih
      · rw [hcycle, List.length_set]
        exact ih
  constructor
  · intro hall m q hq hstuck
    obtain ⟨c, hc⟩ := List.mem_iff_getElem?.mp hq
    have hlt : c < qs.length := by
      rw [← hlength m]
      exact (List.getElem?_eq_some_iff.mp hc).1
    obtain ⟨r, hr, hsplit⟩ := run_split key cap
      (List.getElem?_eq_getElem hlt) n
    rw [hall c _ (List.getElem?_eq_getElem hlt)] at hsplit
    have hlate := run_stuck hc hstuck (Nat.le_max_right n m)
    rw [run_finished hfin (Nat.le_max_left n m), hr] at hlate
    cases hlate
    exact hstuck.2 (List.append_right_eq_self.mp hsplit.symm)
  · intro hfree c q hq
    obtain ⟨r, hr, hsplit⟩ := run_split key cap hq n
    have hmem := List.mem_of_getElem? hr
    have hnil : keyed key r = [] := by
      by_contra hne
      exact hfree n r hmem ⟨hfin r hmem, hne⟩
    rw [hsplit, hnil, List.append_nil]

end Finish

/-! ## Sorted queues -/

section Sorted

variable {α : Type} {key : α → Option Nat} {cap : Nat} {qs : List (List α)}

def KeyLe (key : α → Option Nat) (x y : α) : Prop :=
  ∀ t u, key x = some t → key y = some u → t ≤ u

/-- Queues in order, none of whose items is skipped. -/
structure SortedQueues (key : α → Option Nat) (qs : List (List α)) : Prop where
  keyed : ∀ q ∈ qs, ∀ x ∈ q, key x ≠ none
  sorted : ∀ q ∈ qs, q.Pairwise (KeyLe key)

/-- What has been handed out is in order and not above what is left. -/
structure SortedRun (key : α → Option Nat) (log : List (Nat × α)) (qs : List (List α)) : Prop where
  queues : SortedQueues key qs
  sorted : log.Pairwise fun a b => KeyLe key a.2 b.2
  below : ∀ a ∈ log, ∀ q ∈ qs, ∀ x ∈ q, KeyLe key a.2 x

/-- In a sorted queue with a head key every key is at least that one. -/
theorem head_le {q : List α} (hs : q.Pairwise (KeyLe key)) {u : Nat} (hu : headKey key q = some u)
    {x : α} (hx : x ∈ q) : ∀ t, key x = some t → u ≤ t := by
  intro t ht
  cases q with
  | nil => simp at hx
  | cons y q =>
    have hy : key y = some u := by simpa [headKey] using hu
    cases List.mem_cons.mp hx with
    | inl h =>
      rw [h, hy] at ht
      cases ht
      exact Nat.le_refl _
    | inr h => exact List.rel_of_pairwise_cons hs h u t hy ht

theorem headKey_of_mem {q : List α} (hkeyed : ∀ x ∈ q, key x ≠ none) {x : α} (hx : x ∈ q) :
    ∃ u, headKey key q = some u := by
  cases q with
  | nil => simp at hx
  | cons y q => exact Option.ne_none_iff_exists'.mp (by simpa [headKey] using hkeyed y (by simp))

/-- **One cycle** keeps the order. -/
theorem sortedRun_cycle {log : List (Nat × α)} (h : SortedRun key log qs) :
    SortedRun key (log ++ (cycle key cap qs).1) (cycle key cap qs).2 := by
  rcases cycle_cases key cap qs with
    ⟨-, hcycle⟩ | ⟨t, c, next, q, hq, hkey, hnext, hothers, hcycle⟩
  · rw [hcycle, List.append_nil]
    exact h
  · rw [hcycle]
    have hmem := List.mem_of_getElem? hq
    have hkeyed := h.queues.keyed q hmem
    have hsplit := batch_append hkeyed next cap
    have hsorted := h.queues.sorted q hmem
    rw [hsplit] at hsorted
    obtain ⟨hout, hrest, hcross⟩ := List.pairwise_append.mp hsorted
    -- a queue after the cycle is the rest of `q` or another one
    have hqueue : ∀ p ∈ qs.set c (batch key next cap q).2,
        p = (batch key next cap q).2 ∨ ∃ j, j ≠ c ∧ qs[j]? = some p := by
      intro p hp
      obtain ⟨j, hj⟩ := List.mem_iff_getElem?.mp hp
      by_cases hjc : j = c
      · subst hjc
        rw [List.getElem?_set_self (List.getElem?_eq_some_iff.mp hq).1] at hj
        exact Or.inl (Option.some.inj hj).symm
      · rw [List.getElem?_set_ne (Ne.symm hjc)] at hj
        exact Or.inr ⟨j, hjc, hj⟩
    have hsub : ∀ x ∈ (batch key next cap q).2, x ∈ q := fun x hx => by
      rw [hsplit]
      exact List.mem_append_right _ hx
    have hsubOut : ∀ x ∈ (batch key next cap q).1, x ∈ q := fun x hx => by
      rw [hsplit]
      exact List.mem_append_left _ hx
    refine ⟨⟨fun p hp => ?_, fun p hp => ?_⟩, ?_, fun a ha p hp x hx => ?_⟩
    · cases hqueue p hp with
      | inl heq => rw [heq]; exact fun x hx => hkeyed x (hsub x hx)
      | inr hj => obtain ⟨j, -, hj⟩ := hj; exact h.queues.keyed p (List.mem_of_getElem? hj)
    · cases hqueue p hp with
      | inl heq => rw [heq]; exact hrest
      | inr hj => obtain ⟨j, -, hj⟩ := hj; exact h.queues.sorted p (List.mem_of_getElem? hj)
    · refine List.pairwise_append.mpr ⟨h.sorted, List.pairwise_map.mpr hout, fun a ha b hb => ?_⟩
      obtain ⟨x, hx, rfl⟩ := List.mem_map.mp hb
      exact h.below a ha q hmem x (hsubOut x hx)
    · cases List.mem_append.mp ha with
      | inl ha =>
        cases hqueue p hp with
        | inl heq => exact h.below a ha q hmem x (hsub x (heq ▸ hx))
        | inr hj => obtain ⟨j, -, hj⟩ := hj; exact h.below a ha p (List.mem_of_getElem? hj) x hx
      | inr ha =>
        obtain ⟨y, hy, rfl⟩ := List.mem_map.mp ha
        cases hqueue p hp with
        | inl heq => exact hcross y hy x (heq ▸ hx)
        | inr hj =>
          -- `y` is within the second least head, and `x` not below the head of its queue
          obtain ⟨j, hjc, hj⟩ := hj
          have hp := List.mem_of_getElem? hj
          obtain ⟨u, hu⟩ := headKey_of_mem (h.queues.keyed p hp) hx
          obtain ⟨n, hn, hle⟩ := hothers j p u hjc hj hu
          obtain ⟨t', ht', hle'⟩ := batch_le hy hn
          intro a b ha hb
          have := head_le (h.queues.sorted p hp) hu hx b hb
          rw [ht'] at ha
          cases ha
          omega

/-- **The merge is sorted.** -/
theorem run_sorted (cap : Nat) (h : SortedQueues key qs) (n : Nat) :
    (run key cap n qs).1.Pairwise fun a b => KeyLe key a.2 b.2 := by
  have hrun : SortedRun key (run key cap n qs).1 (run key cap n qs).2 := by
    induction n with
    | zero => exact ⟨h, List.Pairwise.nil, by simp [run]⟩
    | succ n ih => exact sortedRun_cycle ih
  exact hrun.sorted

end Sorted

end OneCollect.Theory.BatchMerge
