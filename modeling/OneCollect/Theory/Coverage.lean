import OneCollect.Theory.Checked
import Mathlib.Data.List.Infix
import Mathlib.Data.List.ReduceOption

/-! A search that goes through a list of calls and takes what they find, until it has every kind it
wants. Kinds are bits of a word. What is taken is what the shortest front of the calls finds that has
all the kinds, or what all of them find (`gather_eq_ok`); only a panic in that front is one of the
search (`gather_eq_panicked`). -/

namespace OneCollect.Theory

variable {F : Type}

structure Gathered (F : Type) where
  files : List F := []
  kinds : Nat := 0
  deriving DecidableEq, Repr

namespace Gathered

def add (self : Gathered F) (file : F) (kinds : Nat) : Gathered F where
  files := self.files ++ [file]
  kinds := self.kinds ||| kinds

/-- The kinds with those of some findings. -/
def kindsWith (kinds : Nat) (found : List (Option (F × Nat))) : Nat :=
  found.reduceOption.foldl (fun kinds hit => kinds ||| hit.2) kinds

theorem kindsWith_cons (kinds : Nat) (hit : Option (F × Nat)) (found : List (Option (F × Nat))) :
    kindsWith kinds (hit :: found) = kindsWith (kindsWith kinds [hit]) found := by
  cases hit with
  | none => rfl
  | some hit => rfl

theorem kindsWith_append (kinds : Nat) (found later : List (Option (F × Nat))) :
    kindsWith kinds (found ++ later) = kindsWith (kindsWith kinds found) later := by
  unfold kindsWith
  rw [List.reduceOption_append, List.foldl_append]

theorem testBit_kindsWith (kinds : Nat) (found : List (Option (F × Nat))) (i : Nat) :
    (kindsWith kinds found).testBit i = true ↔
      kinds.testBit i = true ∨ ∃ hit, some hit ∈ found ∧ hit.2.testBit i = true := by
  induction found generalizing kinds with
  | nil => simp [kindsWith]
  | cons hit found ih =>
    rw [kindsWith_cons, ih]
    cases hit with
    | none => simp [kindsWith]
    | some hit => simp [kindsWith, or_assoc]

theorem kindsWith_lt {bits kinds : Nat} {found : List (Option (F × Nat))} (h : kinds < 2 ^ bits)
    (hfound : ∀ hit, some hit ∈ found → hit.2 < 2 ^ bits) : kindsWith kinds found < 2 ^ bits := by
  induction found generalizing kinds with
  | nil => exact h
  | cons hit found ih =>
    have hrest : ∀ hit, some hit ∈ found → hit.2 < 2 ^ bits :=
      fun hit hmem => hfound hit (List.mem_cons_of_mem _ hmem)
    rw [kindsWith_cons]
    cases hit with
    | none => exact ih h hrest
    | some hit => exact ih (Nat.or_lt_two_pow h (hfound hit List.mem_cons_self)) hrest

/-- All kinds stay all kinds. -/
theorem kindsWith_of_take {wanted kinds n : Nat} {found : List (Option (F × Nat))}
    (hkinds : ∀ hit, some hit ∈ found → wanted ||| hit.2 = wanted)
    (h : kindsWith kinds (found.take n) = wanted) : kindsWith kinds found = wanted := by
  rw [← List.take_append_drop n found, kindsWith_append, h]
  have hlater : ∀ hit, some hit ∈ found.drop n → wanted ||| hit.2 = wanted :=
    fun hit hmem => hkinds hit (List.mem_of_mem_drop hmem)
  generalize found.drop n = later at hlater
  induction later with
  | nil => rfl
  | cons hit later ih =>
    rw [kindsWith_cons]
    have hrest := ih fun hit hmem => hlater hit (List.mem_cons_of_mem _ hmem)
    cases hit with
    | none => exact hrest
    | some hit =>
      have hsame : kindsWith wanted [some hit] = wanted := hlater hit List.mem_cons_self
      rw [hsame, hrest]

/-- The findings are the first to have all the kinds: no shorter front has them. -/
def Shortest (wanted kinds : Nat) (found : List (Option (F × Nat))) : Prop :=
  ∀ n < found.length, kindsWith kinds (found.take n) ≠ wanted

theorem shortest_cons {wanted kinds : Nat} {hit : Option (F × Nat)}
    {found : List (Option (F × Nat))} : Shortest wanted kinds (hit :: found) ↔
      kinds ≠ wanted ∧ Shortest wanted (kindsWith kinds [hit]) found := by
  unfold Shortest
  rw [List.length_cons, Nat.forall_lt_succ_left]
  refine and_congr Iff.rfl (forall₂_congr fun n _ => ?_)
  rw [List.take_succ_cons, kindsWith_cons]

end Gathered

open Gathered

/-- The loop over the calls, each with what it finds, if anything, and its kinds. -/
def gather (wanted : Nat) : List (Exec (Option (F × Nat))) → Gathered F → Exec (List F)
  | [], self => .ok self.files
  | call :: calls, self => do
    match ← call with
    | none => gather wanted calls self
    | some (file, kinds) =>
      let self := self.add file kinds
      if self.kinds = wanted then .ok self.files else gather wanted calls self

/-- A front of no calls, or of the first and some behind it. -/
theorem prefix_cons_ok {α : Type} {call : Exec α} {calls : List (Exec α)} {found : List α} :
    found.map .ok <+: call :: calls ↔
      found = [] ∨ ∃ a rest, found = a :: rest ∧ call = .ok a ∧ rest.map .ok <+: calls := by
  cases found with
  | nil => simp
  | cons a rest =>
    rw [List.map_cons, List.cons_prefix_cons]
    constructor
    · rintro ⟨rfl, hrest⟩
      exact .inr ⟨a, rest, rfl, rfl, hrest⟩
    · rintro (hnil | ⟨a', rest', heq, rfl, hrest⟩)
      · cases hnil
      · cases heq
        exact ⟨rfl, hrest⟩

/-- The first panic behind values. -/
theorem panicked_prefix_iff {α : Type} {found hits : List α} {call : Exec α} :
    found.map .ok ++ [panicked] <+: hits.map .ok ++ [call] ↔ found = hits ∧ call = panicked := by
  induction hits generalizing found with
  | nil =>
    cases found with
    | nil => simp [eq_comm]
    | cons a found => simp [List.cons_prefix_cons]
  | cons hit hits ih =>
    cases found with
    | nil =>
      rw [List.map_nil, List.nil_append, List.map_cons, List.cons_append, List.cons_prefix_cons]
      exact iff_of_false (fun h => panicked_ne_ok hit h.1) fun h => nomatch h.1
    | cons a found =>
      rw [List.map_cons, List.cons_append, List.map_cons, List.cons_append, List.cons_prefix_cons,
        ih, Except.ok.injEq, List.cons.injEq, and_assoc]

/-- **What a search takes.** -/
theorem gather_eq_ok {wanted : Nat} {calls : List (Exec (Option (F × Nat)))} {self : Gathered F}
    {files : List F} (hopen : self.kinds ≠ wanted) : gather wanted calls self = .ok files ↔
      ∃ found, found.map .ok <+: calls ∧ files = self.files ++ found.reduceOption.map Prod.fst ∧
        Shortest wanted self.kinds found ∧
        (kindsWith self.kinds found = wanted ∨ found.length = calls.length) := by
  induction calls generalizing self with
  | nil =>
    rw [gather]
    constructor
    · rintro h
      cases h
      exact ⟨[], List.prefix_rfl, by simp, fun n hn => absurd hn (Nat.not_lt_zero n), .inr rfl⟩
    · rintro ⟨found, hfound, rfl, -⟩
      obtain rfl : found = [] := by simpa using hfound
      simp
  | cons call calls ih =>
    rw [gather]
    simp only [prefix_cons_ok]
    cases call with
    | error fault =>
      refine iff_of_false (fun h => nomatch h) ?_
      rintro ⟨found, rfl | ⟨a, rest, -, hcall, -⟩, -, -, hend⟩
      · exact hend.elim hopen fun h => nomatch h
      · cases hcall
    | ok hit =>
      rw [ok_bind]
      cases hit with
      | none =>
        dsimp only
        rw [ih hopen]
        constructor
        · rintro ⟨found, hfound, hfiles, hshort, hend⟩
          exact ⟨none :: found, .inr ⟨none, found, rfl, rfl, hfound⟩, hfiles,
            shortest_cons.mpr ⟨hopen, hshort⟩, hend.imp id (congrArg (· + 1))⟩
        · rintro ⟨found, rfl | ⟨a, rest, rfl, hcall, hrest⟩, hfiles, hshort, hend⟩
          · exact absurd hend (by simpa [kindsWith] using hopen)
          · cases hcall
            exact ⟨rest, hrest, hfiles, (shortest_cons.mp hshort).2,
              hend.imp id (Nat.succ.inj ·)⟩
      | some hit =>
        obtain ⟨file, kinds⟩ := hit
        dsimp only
        by_cases hdone : (self.add file kinds).kinds = wanted
        · rw [if_pos hdone]
          constructor
          · intro h
            cases h
            refine ⟨[some (file, kinds)], .inr ⟨_, [], rfl, rfl, List.nil_prefix⟩, rfl,
              shortest_cons.mpr ⟨hopen, fun n hn => absurd hn (Nat.not_lt_zero n)⟩, .inl hdone⟩
          · rintro ⟨found, rfl | ⟨a, rest, rfl, hcall, hrest⟩, rfl, hshort, hend⟩
            · exact absurd hend (by simpa [kindsWith] using hopen)
            · cases hcall
              -- a longer front has a shorter one with all the kinds
              have hnil : rest = [] := by
                by_contra hne
                exact (shortest_cons.mp hshort).2 0 (List.length_pos_of_ne_nil hne) hdone
              subst hnil
              rfl
        · rw [if_neg hdone, ih hdone]
          constructor
          · rintro ⟨found, hfound, rfl, hshort, hend⟩
            refine ⟨some (file, kinds) :: found, .inr ⟨_, found, rfl, rfl, hfound⟩, ?_,
              shortest_cons.mpr ⟨hopen, hshort⟩, hend.imp id (congrArg (· + 1))⟩
            rw [List.reduceOption_cons_of_some, List.map_cons, add, List.append_assoc]
            rfl
          · rintro ⟨found, rfl | ⟨a, rest, rfl, hcall, hrest⟩, rfl, hshort, hend⟩
            · exact absurd hend (by simpa [kindsWith] using hopen)
            · cases hcall
              refine ⟨rest, hrest, ?_, (shortest_cons.mp hshort).2, hend.imp id (Nat.succ.inj ·)⟩
              rw [List.reduceOption_cons_of_some, List.map_cons, add, List.append_assoc]
              rfl

/-- **When a search panics**: at a call that does, unless those before it found all the kinds. -/
theorem gather_eq_panicked {wanted : Nat} {calls : List (Exec (Option (F × Nat)))}
    {self : Gathered F} (hopen : self.kinds ≠ wanted) : gather wanted calls self = panicked ↔
      ∃ found : List (Option (F × Nat)), found.map .ok ++ [panicked] <+: calls ∧
        Shortest wanted self.kinds found ∧ kindsWith self.kinds found ≠ wanted := by
  induction calls generalizing self with
  | nil =>
    refine iff_of_false (fun h => nomatch h) ?_
    rintro ⟨found, hfound, -⟩
    simp at hfound
  | cons call calls ih =>
    have hfirst : ∀ found : List (Option (F × Nat)), found.map .ok ++ [panicked] <+: call :: calls ↔
        found = [] ∧ call = panicked ∨ ∃ hit rest, found = hit :: rest ∧ call = .ok hit ∧
          rest.map .ok ++ [panicked] <+: calls := by
      intro found
      cases found with
      | nil => simp [List.cons_prefix_cons, eq_comm]
      | cons hit rest =>
        rw [List.map_cons, List.cons_append, List.cons_prefix_cons]
        simp [eq_comm]
    simp only [hfirst]
    rw [gather]
    cases call with
    | error fault =>
      constructor
      · intro h
        obtain rfl : fault = .panic := by
          cases h
          rfl
        exact ⟨[], .inl ⟨rfl, rfl⟩, fun n hn => absurd hn (Nat.not_lt_zero n), hopen⟩
      · rintro ⟨found, ⟨-, hcall⟩ | ⟨hit, rest, -, hcall, -⟩, -⟩
        · cases hcall
          rfl
        · cases hcall
    | ok hit =>
      have hstep : ∀ self' : Gathered F, self'.kinds = kindsWith self.kinds [hit] →
          self'.kinds ≠ wanted → ((∃ found, (found = [] ∧ (Except.ok hit : Exec _) = panicked ∨
            ∃ hit' rest, found = hit' :: rest ∧ Except.ok hit = (Except.ok hit' : Exec _) ∧
              rest.map .ok ++ [panicked] <+: calls) ∧
            Shortest wanted self.kinds found ∧ kindsWith self.kinds found ≠ wanted) ↔
            gather wanted calls self' = panicked) := by
        intro self' hkinds hopen'
        rw [ih hopen']
        constructor
        · rintro ⟨found, ⟨-, hcall⟩ | ⟨hit', rest, rfl, hcall, hrest⟩, hshort, hend⟩
          · cases hcall
          · cases hcall
            refine ⟨rest, hrest, hkinds ▸ (shortest_cons.mp hshort).2, ?_⟩
            rw [hkinds]
            exact fun h => hend ((kindsWith_cons self.kinds hit rest).trans h)
        · rintro ⟨rest, hrest, hshort, hend⟩
          rw [hkinds] at hshort hend
          exact ⟨hit :: rest, .inr ⟨hit, rest, rfl, rfl, hrest⟩, shortest_cons.mpr ⟨hopen, hshort⟩,
            fun h => hend ((kindsWith_cons self.kinds hit rest).symm.trans h)⟩
      rw [ok_bind]
      cases hit with
      | none => exact (hstep self rfl hopen).symm
      | some hit =>
        obtain ⟨file, kinds⟩ := hit
        dsimp only
        by_cases hdone : (self.add file kinds).kinds = wanted
        · rw [if_pos hdone]
          refine iff_of_false (panicked_ne_ok _).symm ?_
          rintro ⟨found, ⟨-, hcall⟩ | ⟨hit', rest, rfl, hcall, hrest⟩, hshort, hend⟩
          · cases hcall
          · cases hcall
            cases rest with
            | nil => exact hend hdone
            | cons hit rest => exact (shortest_cons.mp hshort).2 0 (Nat.succ_pos _) hdone
        · rw [if_neg hdone]
          exact (hstep (self.add file kinds) rfl hdone).symm

end OneCollect.Theory
