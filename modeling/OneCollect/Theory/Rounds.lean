import Mathlib.Order.Lattice
import Mathlib.Algebra.BigOperators.Group.List.Basic
import Mathlib.Algebra.Order.BigOperators.Group.List
import Mathlib.Algebra.Order.Ring.Nat

/-! Several timed sources merged in rounds: each round steps every source that stands at the
earliest time. A source is over once its time is `limit`.

The calls of one source are its `trace` (`rounds_filter`), the calls of all of them are in
order of time (`rounds_ascending`), and there are enough rounds (`rounds_total`). -/

namespace OneCollect.Theory

/-- A source, stepped by `next` and never back in time. `left` bounds the number of steps. -/
structure Timeline (ρ τ : Type) [LinearOrder τ] where
  time : ρ → τ
  limit : τ
  next : ρ → ρ
  left : ρ → Nat
  Valid : ρ → Prop
  time_le_limit : ∀ r, Valid r → time r ≤ limit
  valid_next : ∀ r, Valid r → time r ≠ limit → Valid (next r)
  left_lt : ∀ r, Valid r → time r ≠ limit → left (next r) < left r
  time_le_next : ∀ r, Valid r → time r ≠ limit → time r ≤ time (next r)

namespace Timeline

variable {ρ τ : Type} [LinearOrder τ]

/-! ## One source -/

section Trace

variable (S : Timeline ρ τ)

def visited : Nat → ρ → List ρ
  | 0, _ => []
  | n + 1, r => if S.time r = S.limit then [] else r :: visited n (S.next r)

/-- The states of a source, up to its end. -/
def trace (r : ρ) : List ρ := S.visited (S.left r) r

end Trace

variable {S : Timeline ρ τ} {r : ρ}

theorem visited_done (h : S.time r = S.limit) (n : Nat) : S.visited n r = [] := by
  cases n with
  | zero => rfl
  | succ n => rw [visited, if_pos h]

theorem trace_done (h : S.time r = S.limit) : S.trace r = [] := visited_done h _

/-- Once there is fuel for what is left, its amount does not matter. -/
theorem visited_congr {n m : Nat} (hv : S.Valid r) (hn : S.left r ≤ n) (hm : S.left r ≤ m) :
    S.visited n r = S.visited m r := by
  by_cases hdone : S.time r = S.limit
  · rw [visited_done hdone, visited_done hdone]
  · have hlt := S.left_lt r hv hdone
    induction n generalizing r m with
    | zero => omega
    | succ n ih =>
      cases m with
      | zero => omega
      | succ m =>
        rw [visited, if_neg hdone, visited, if_neg hdone]
        by_cases hnext : S.time (S.next r) = S.limit
        · rw [visited_done hnext, visited_done hnext]
        · have hvalid := S.valid_next r hv hdone
          have heq := @ih (S.next r) m hvalid (by omega) (by omega) hnext
            (S.left_lt _ hvalid hnext)
          rw [heq]

theorem trace_step (hv : S.Valid r) (h : S.time r ≠ S.limit) :
    S.trace r = r :: S.trace (S.next r) := by
  have hlt := S.left_lt r hv h
  rw [trace, visited_congr hv (Nat.le_refl _) (Nat.le_succ _), visited,
    if_neg h, trace, visited_congr (S.valid_next r hv h) (Nat.le_of_lt hlt) (Nat.le_refl _)]

/-- Induction along the steps of a source, from its end. -/
@[elab_as_elim]
theorem trace_induction {motive : ρ → Prop}
    (done : ∀ r, S.Valid r → S.time r = S.limit → motive r)
    (step : ∀ r, S.Valid r → S.time r ≠ S.limit → motive (S.next r) → motive r)
    (hv : S.Valid r) : motive r := by
  induction hn : S.left r using Nat.strong_induction_on generalizing r with
  | _ n ih =>
    by_cases hdone : S.time r = S.limit
    · exact done r hv hdone
    · have hvalid := S.valid_next r hv hdone
      have hlt := S.left_lt r hv hdone
      exact step r hv hdone (ih _ (hn ▸ hlt) hvalid rfl)

/-! ## Rounds -/

section Rounds

variable (S)

def earliest (rs : List ρ) : τ := rs.foldr (fun r e => min (S.time r) e) S.limit

def due (t : τ) (rs : List ρ) : List ρ := rs.filter fun r => S.time r = t

def stepDue (t : τ) (rs : List ρ) : List ρ := rs.map fun r => if S.time r = t then S.next r else r

/-- The calls of all rounds, if the fuel is enough for them. -/
def rounds : Nat → List ρ → Option (List ρ)
  | 0, _ => none
  | n + 1, rs =>
    if S.earliest rs = S.limit then some []
    else (rounds n (S.stepDue (S.earliest rs) rs)).map (S.due (S.earliest rs) rs ++ ·)

variable {S} {rs calls : List ρ} {n : Nat} {t : τ}

theorem due_cons (t : τ) (r : ρ) (rs : List ρ) :
    S.due t (r :: rs) = if S.time r = t then r :: S.due t rs else S.due t rs := by
  rw [due, List.filter_cons]
  by_cases h : S.time r = t
  · rw [if_pos h, if_pos (decide_eq_true h)]
    rfl
  · rw [if_neg h, if_neg fun heq => h (of_decide_eq_true heq)]
    rfl

theorem stepDue_cons (t : τ) (r : ρ) (rs : List ρ) :
    S.stepDue t (r :: rs) = (if S.time r = t then S.next r else r) :: S.stepDue t rs := rfl

theorem earliest_le (h : r ∈ rs) : S.earliest rs ≤ S.time r := by
  induction rs with
  | nil => exact absurd h List.not_mem_nil
  | cons r' rs ih =>
    rw [earliest, List.foldr_cons, ← earliest]
    rcases List.mem_cons.mp h with rfl | h
    · exact min_le_left _ _
    · exact (min_le_right _ _).trans (ih h)

theorem le_earliest (hlimit : t ≤ S.limit) (h : ∀ r ∈ rs, t ≤ S.time r) : t ≤ S.earliest rs := by
  induction rs with
  | nil => exact hlimit
  | cons r rs ih =>
    rw [earliest, List.foldr_cons, ← earliest]
    exact le_min (h r List.mem_cons_self) (ih fun r' hr' => h r' (List.mem_cons_of_mem r hr'))

theorem earliest_le_limit : S.earliest rs ≤ S.limit := by
  induction rs with
  | nil => exact le_refl _
  | cons r rs ih =>
    rw [earliest, List.foldr_cons, ← earliest]
    exact (min_le_right _ _).trans ih

/-- The earliest time is that of a source. -/
theorem exists_due (h : S.earliest rs ≠ S.limit) : ∃ r ∈ rs, S.time r = S.earliest rs := by
  induction rs with
  | nil => exact absurd rfl h
  | cons r rs ih =>
    rw [earliest, List.foldr_cons, ← earliest] at h ⊢
    rcases min_choice (S.time r) (S.earliest rs) with hmin | hmin
    · exact ⟨r, List.mem_cons_self, hmin.symm⟩
    · rw [hmin] at h ⊢
      obtain ⟨r', hr', htime⟩ := ih h
      exact ⟨r', List.mem_cons_of_mem r hr', htime⟩

theorem valid_stepDue (hv : ∀ r ∈ rs, S.Valid r) (ht : t ≠ S.limit) :
    ∀ r ∈ S.stepDue t rs, S.Valid r := by
  intro r hr
  obtain ⟨r', hr', rfl⟩ := List.mem_map.mp hr
  by_cases h : S.time r' = t
  · rw [if_pos h]
    exact S.valid_next r' (hv r' hr') (h ▸ ht)
  · rw [if_neg h]
    exact hv r' hr'

theorem left_stepDue (hv : ∀ r ∈ rs, S.Valid r) (ht : t ≠ S.limit) (h : ∃ r ∈ rs, S.time r = t) :
    ((S.stepDue t rs).map S.left).sum < (rs.map S.left).sum := by
  obtain ⟨r, hr, htime⟩ := h
  rw [stepDue, List.map_map]
  refine List.sum_lt_sum _ _ (fun r' hr' => ?_) ⟨r, hr, ?_⟩
  · by_cases hdue : S.time r' = t
    · simp only [Function.comp_apply, if_pos hdue]
      exact Nat.le_of_lt (S.left_lt r' (hv r' hr') (hdue ▸ ht))
    · simp only [Function.comp_apply, if_neg hdue, le_refl]
  · simp only [Function.comp_apply, if_pos htime]
    exact S.left_lt r (hv r hr) (htime ▸ ht)

/-- **Termination.** There are never more rounds than steps left. -/
theorem rounds_total (hv : ∀ r ∈ rs, S.Valid r) (hn : (rs.map S.left).sum < n) :
    ∃ calls, S.rounds n rs = some calls := by
  induction n generalizing rs with
  | zero => exact absurd hn (Nat.not_lt_zero _)
  | succ n ih =>
    by_cases hend : S.earliest rs = S.limit
    · exact ⟨[], by rw [rounds, if_pos hend]⟩
    · have hlt := left_stepDue hv hend (exists_due hend)
      obtain ⟨calls, hcalls⟩ := ih (valid_stepDue hv hend) (by omega)
      exact ⟨_, by rw [rounds, if_neg hend, hcalls]; rfl⟩

/-- What a successful run of rounds is. -/
theorem rounds_cases (h : S.rounds (n + 1) rs = some calls) :
    (S.earliest rs = S.limit ∧ calls = []) ∨
    (S.earliest rs ≠ S.limit ∧ ∃ later, S.rounds n (S.stepDue (S.earliest rs) rs) = some later ∧
      calls = S.due (S.earliest rs) rs ++ later) := by
  rw [rounds] at h
  by_cases hend : S.earliest rs = S.limit
  · rw [if_pos hend] at h
    exact .inl ⟨hend, (Option.some.inj h).symm⟩
  · rw [if_neg hend] at h
    obtain ⟨later, hlater, rfl⟩ := Option.map_eq_some_iff.mp h
    exact .inr ⟨hend, later, hlater, rfl⟩

theorem rounds_mono (h : S.rounds n rs = some calls) {m : Nat} (hm : n ≤ m) :
    S.rounds m rs = some calls := by
  induction n generalizing rs calls m with
  | zero => cases h
  | succ n ih =>
    obtain ⟨m, rfl⟩ := Nat.exists_eq_add_of_le' (Nat.le_trans (Nat.le_add_left 1 n) hm)
    rcases rounds_cases h with ⟨hend, rfl⟩ | ⟨hend, later, hlater, rfl⟩
    · rw [rounds, if_pos hend]
    · rw [rounds, if_neg hend, ih hlater (by omega)]
      rfl

theorem le_earliest_stepDue (hv : ∀ r ∈ rs, S.Valid r) (hend : S.earliest rs ≠ S.limit) :
    S.earliest rs ≤ S.earliest (S.stepDue (S.earliest rs) rs) := by
  refine le_earliest earliest_le_limit fun r hr => ?_
  obtain ⟨r', hr', rfl⟩ := List.mem_map.mp hr
  by_cases h : S.time r' = S.earliest rs
  · rw [if_pos h]
    exact (earliest_le hr').trans (S.time_le_next r' (hv r' hr') (h ▸ hend))
  · rw [if_neg h]
    exact earliest_le hr'

/-- **Order.** The calls are in order of time, none before the earliest one. -/
theorem rounds_ascending (hv : ∀ r ∈ rs, S.Valid r) (h : S.rounds n rs = some calls) :
    calls.Pairwise (fun a b => S.time a ≤ S.time b) ∧ ∀ c ∈ calls, S.earliest rs ≤ S.time c := by
  induction n generalizing rs calls with
  | zero => cases h
  | succ n ih =>
    rcases rounds_cases h with ⟨-, rfl⟩ | ⟨hend, later, hlater, rfl⟩
    · exact ⟨.nil, fun c hc => absurd hc List.not_mem_nil⟩
    · obtain ⟨hpairwise, hle⟩ := ih (valid_stepDue hv hend) hlater
      have hstep := le_earliest_stepDue hv hend
      have hdue : ∀ c ∈ S.due (S.earliest rs) rs, S.time c = S.earliest rs := by
        intro c hc
        exact of_decide_eq_true (List.mem_filter.mp hc).2
      refine ⟨List.pairwise_append.mpr ⟨?_, hpairwise, ?_⟩, fun c hc => ?_⟩
      · exact List.pairwise_of_forall_mem_list fun a ha b hb => by rw [hdue a ha, hdue b hb]
      · intro a ha b hb
        rw [hdue a ha]
        exact hstep.trans (hle b hb)
      · rcases List.mem_append.mp hc with hc | hc
        · rw [hdue c hc]
        · exact hstep.trans (hle c hc)

/-! ### The calls of one source -/

variable {κ : Type} [DecidableEq κ] {key : ρ → κ}

omit [DecidableEq κ] in
theorem map_key_stepDue (hkey : ∀ r, key (S.next r) = key r) (t : τ) (rs : List ρ) :
    (S.stepDue t rs).map key = rs.map key := by
  rw [stepDue, List.map_map]
  refine List.map_congr_left fun r _ => ?_
  by_cases h : S.time r = t
  · simp only [Function.comp_apply, if_pos h, hkey]
  · simp only [Function.comp_apply, if_neg h]

omit [DecidableEq κ] in
/-- A key of no source has no call. -/
theorem rounds_absent (hkey : ∀ r, key (S.next r) = key r) {k : κ} (hk : k ∉ rs.map key)
    (h : S.rounds n rs = some calls) : ∀ c ∈ calls, key c ≠ k := by
  induction n generalizing rs calls with
  | zero => cases h
  | succ n ih =>
    rcases rounds_cases h with ⟨-, rfl⟩ | ⟨hend, later, hlater, rfl⟩
    · exact fun c hc => absurd hc List.not_mem_nil
    · intro c hc hck
      rcases List.mem_append.mp hc with hc | hc
      · exact hk (hck ▸ List.mem_map_of_mem (List.mem_filter.mp hc).1)
      · exact ih (by rwa [map_key_stepDue hkey]) hlater c hc hck

theorem filter_key_eq (hnodup : (rs.map key).Nodup) (hr : r ∈ rs) :
    rs.filter (fun c => key c = key r) = [r] := by
  induction rs with
  | nil => exact absurd hr List.not_mem_nil
  | cons r' rs ih =>
    obtain ⟨hnot, hnodup⟩ := List.nodup_cons.mp hnodup
    rcases List.mem_cons.mp hr with rfl | hr
    · rw [List.filter_cons_of_pos (by simp)]
      congr 1
      refine List.filter_eq_nil_iff.mpr fun c hc heq => hnot ?_
      exact of_decide_eq_true heq ▸ List.mem_map_of_mem hc
    · rw [List.filter_cons_of_neg, ih hnodup hr]
      intro heq
      exact hnot (of_decide_eq_true heq ▸ List.mem_map_of_mem hr)

/-- **One source.** Its calls are the states it goes through, each one once. -/
theorem rounds_filter (hkey : ∀ r, key (S.next r) = key r) (hnodup : (rs.map key).Nodup)
    (hv : ∀ r ∈ rs, S.Valid r) (hr : r ∈ rs) (h : S.rounds n rs = some calls) :
    calls.filter (fun c => key c = key r) = S.trace r := by
  induction n generalizing rs r calls with
  | zero => cases h
  | succ n ih =>
    rcases rounds_cases h with ⟨hend, rfl⟩ | ⟨hend, later, hlater, rfl⟩
    · have hdone : S.time r = S.limit :=
        (S.time_le_limit r (hv r hr)).antisymm (hend ▸ earliest_le hr)
      rw [trace_done hdone, List.filter_nil]
    · have hnodup' : ((S.stepDue (S.earliest rs) rs).map key).Nodup := by
        rwa [map_key_stepDue hkey]
      have hmem := List.mem_map_of_mem
        (f := fun r => if S.time r = S.earliest rs then S.next r else r) hr
      have htrace := ih hnodup' (valid_stepDue hv hend) hmem hlater
      rw [List.filter_append, due, List.filter_comm, filter_key_eq hnodup hr]
      by_cases hdue : S.time r = S.earliest rs
      · rw [if_pos hdue, hkey] at htrace
        rw [List.filter_cons_of_pos (by simpa using hdue), List.filter_nil, htrace,
          trace_step (hv r hr) (hdue ▸ hend)]
        rfl
      · rw [if_neg hdue] at htrace
        rw [List.filter_cons_of_neg (by simpa using hdue), List.filter_nil, htrace]
        rfl

end Rounds

end Timeline

end OneCollect.Theory
