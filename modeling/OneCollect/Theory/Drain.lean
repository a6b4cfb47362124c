import Mathlib.Data.List.AList

/-! Draining a map. The entries come out in any order, each key at most once; so what a drained
map has under one key does not depend on the order (`filter_drain`). -/

namespace OneCollect.Theory

variable {κ : Type} [DecidableEq κ] {ν : Type}

/-- A map, as a list of entries with distinct keys. -/
abbrev Entries (κ ν : Type) := AList fun _ : κ => ν

theorem lookup_insert_eq (m : Entries κ ν) (k k' : κ) (v : ν) :
    (m.insert k v).lookup k' = if k' = k then some v else m.lookup k' := by
  split
  · rename_i h
    rw [h]
    exact AList.lookup_insert m
  · rename_i h
    exact AList.lookup_insert_ne h

/-- The order in which maps are drained: any order. -/
structure MapOrder (κ : Type) where
  iter : (ν : Type) → List (Σ _ : κ, ν) → List (Σ _ : κ, ν)
  perm : ∀ ν entries, (iter ν entries).Perm entries

/-- The entries come out as they were put in. -/
def MapOrder.inserted (κ : Type) : MapOrder κ := ⟨fun _ entries => entries, fun _ _ => .refl _⟩

/-- `drain`, for an order. -/
def drain (order : MapOrder κ) (m : Entries κ ν) : List (Σ _ : κ, ν) := order.iter ν m.entries

variable {order : MapOrder κ} {m : Entries κ ν} {k : κ} {v : ν}

theorem mem_drain : ⟨k, v⟩ ∈ drain order m ↔ m.lookup k = some v :=
  (order.perm ν m.entries).mem_iff.trans AList.mem_lookup_iff.symm

theorem filter_keys {entries : List (Σ _ : κ, ν)} (h : entries.NodupKeys) :
    entries.filter (fun entry => entry.1 = k) = (entries.dlookup k).toList.map (⟨k, ·⟩) := by
  induction entries with
  | nil => rfl
  | cons entry entries ih =>
    obtain ⟨key, value⟩ := entry
    rw [List.nodupKeys_cons] at h
    by_cases hk : key = k
    · subst hk
      have hnone : entries.dlookup key = none := List.dlookup_eq_none.mpr h.1
      rw [List.filter_cons_of_pos (by simp), ih h.2, hnone, List.dlookup_cons_eq]
      rfl
    · rw [List.filter_cons_of_neg (by simpa using hk), ih h.2,
        List.dlookup_cons_ne _ _ (Ne.symm hk)]

theorem filter_drain :
    (drain order m).filter (fun entry => entry.1 = k) = (m.lookup k).toList.map (⟨k, ·⟩) := by
  have hperm := (order.perm ν m.entries).filter fun entry => decide (entry.1 = k)
  rw [filter_keys m.nodupKeys] at hperm
  unfold drain AList.lookup
  cases hlookup : m.entries.dlookup k with
  | none =>
    rw [hlookup] at hperm
    exact hperm.eq_nil
  | some v =>
    rw [hlookup] at hperm
    exact List.perm_singleton.mp hperm

/-- A map is one of its entries and the rest. -/
theorem entries_erase (h : m.lookup k = some v) :
    m.entries.Perm (⟨k, v⟩ :: (m.erase k).entries) := by
  have hmem : k ∈ m.entries.keys := AList.mem_keys.mp (AList.lookup_isSome.mp (by rw [h]; rfl))
  obtain ⟨value, before, after, hbefore, hentries, herase⟩ := List.exists_of_kerase hmem
  have hvalue : value = v := by
    have hlookup := AList.mem_lookup_iff.mpr
      (show ⟨k, value⟩ ∈ m.entries by rw [hentries]; simp)
    rw [h] at hlookup
    exact (Option.mem_some_iff.mp hlookup).symm
  subst hvalue
  show m.entries.Perm (_ :: m.entries.kerase k)
  rw [herase, hentries]
  exact List.perm_middle

theorem erase_of_lookup_none (h : m.lookup k = none) : m.erase k = m :=
  AList.ext (List.kerase_of_notMem_keys (AList.lookup_eq_none.mp h))

/-- What is made of the entries of a drained map, where only one key makes something. -/
theorem flatMap_drain {τ : Type} {f : (Σ _ : κ, ν) → List τ}
    (h : ∀ key value, m.lookup key = some value → key ≠ k → f ⟨key, value⟩ = []) :
    (drain order m).flatMap f = (m.lookup k).toList.flatMap fun value => f ⟨k, value⟩ := by
  have hkey : (drain order m).flatMap f =
      ((drain order m).filter fun entry => entry.1 = k).flatMap f := by
    have hothers : ∀ entries : List (Σ _ : κ, ν),
        (∀ entry ∈ entries, entry.1 ≠ k → f entry = []) →
        entries.flatMap f = (entries.filter fun entry => entry.1 = k).flatMap f := by
      intro entries hentries
      induction entries with
      | nil => rfl
      | cons entry entries ih =>
        have htail := ih fun e he => hentries e (List.mem_cons_of_mem _ he)
        by_cases hk : entry.1 = k
        · rw [List.filter_cons_of_pos (by simpa using hk), List.flatMap_cons, List.flatMap_cons,
            htail]
        · rw [List.filter_cons_of_neg (by simpa using hk), List.flatMap_cons, htail,
            hentries entry List.mem_cons_self hk, List.nil_append]
    exact hothers _ fun entry hentry hk => h entry.1 entry.2 (mem_drain.mp hentry) hk
  rw [hkey, filter_drain, List.flatMap_map]

end OneCollect.Theory
