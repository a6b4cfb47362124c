import Mathlib.Data.List.GetD
import Mathlib.Data.List.Sort
import Mathlib.Data.List.TakeWhile

/-! Binary search as its documentation has it: where the key occurs several times, any of its
positions may be answered; where it does not occur, the position that keeps the order.

`hit_iff` reads a search that looks at the element it missed, and `floor_eq_some` one that steps
back from it. -/

namespace OneCollect.Theory

structure BinarySearch where
  search : List Nat → Nat → Except Nat Nat
  found : ∀ xs key i, xs.Pairwise (· ≤ ·) → search xs key = .ok i → xs[i]? = some key
  missed : ∀ xs key i, xs.Pairwise (· ≤ ·) → search xs key = .error i →
    i ≤ xs.length ∧ (∀ x ∈ xs.take i, x < key) ∧ ∀ x ∈ xs.drop i, key < x

namespace BinarySearch

/-- The search that answers the first position. -/
def first : BinarySearch where
  search xs key :=
    let i := (xs.takeWhile (· < key)).length
    if xs[i]? = some key then .ok i else .error i
  found xs key i _ h := by
    dsimp only at h
    split at h
    next hget =>
      cases h
      exact hget
    next => cases h
  missed xs key i hs h := by
    have hsplit := @List.takeWhile_append_dropWhile _ (fun x => decide (x < key)) xs
    have hdrop : xs.drop (xs.takeWhile (· < key)).length = xs.dropWhile (· < key) :=
      calc xs.drop (xs.takeWhile (· < key)).length
          = (xs.takeWhile (· < key) ++ xs.dropWhile (· < key)).drop
            (xs.takeWhile (· < key)).length := by rw [hsplit]
        _ = xs.dropWhile (· < key) := List.drop_left
    have htake : xs.take (xs.takeWhile (· < key)).length = xs.takeWhile (· < key) :=
      (List.prefix_iff_eq_take.mp (List.takeWhile_prefix _)).symm
    dsimp only at h
    split at h
    next => cases h
    next hget =>
      cases h
      refine ⟨(List.takeWhile_prefix _).length_le, fun x hx => ?_, fun x hx => ?_⟩
      · rw [htake] at hx
        have hlt := List.mem_takeWhile_imp hx
        exact of_decide_eq_true hlt
      · have hne : xs.dropWhile (· < key) ≠ [] := fun hnil => by
          rw [hdrop, hnil] at hx
          exact absurd hx List.not_mem_nil
        have hhead := List.head_dropWhile_not (fun x => decide (x < key)) hne
        have hsorted := hs.sublist (List.drop_sublist (xs.takeWhile (· < key)).length xs)
        rw [← List.head?_drop, hdrop, List.head?_eq_some_head hne] at hget
        rw [hdrop, ← List.cons_head_tail hne] at hx hsorted
        have hlt : key < (xs.dropWhile (· < key)).head hne :=
          lt_of_le_of_ne (not_lt.mp (of_decide_eq_false hhead)) fun heq => hget (congrArg _ heq.symm)
        rcases List.mem_cons.mp hx with rfl | hx
        · exact hlt
        · exact hlt.trans_le ((List.pairwise_cons.mp hsorted).1 x hx)

variable (B : BinarySearch) {xs : List Nat} {key i : Nat}

/-- The key is there, or the next element passes the test. -/
def hit (xs : List Nat) (key : Nat) (test : Nat → Bool) : Bool :=
  match B.search xs key with
  | .ok _ => true
  | .error i => i < xs.length && test (xs.getD i 0)

/-- A test that smaller elements pass as well is passed by some element from the key on. -/
theorem hit_iff (hs : xs.Pairwise (· ≤ ·)) {test : Nat → Bool}
    (htest : ∀ a b, a ≤ b → test b = true → test a = true) :
    B.hit xs key test = true ↔ ∃ a ∈ xs, a = key ∨ (key < a ∧ test a = true) := by
  unfold hit
  cases h : B.search xs key with
  | ok i =>
    have hget := B.found xs key i hs h
    exact iff_of_true rfl ⟨key, List.mem_of_getElem? hget, .inl rfl⟩
  | error i =>
    obtain ⟨-, hlo, hhi⟩ := B.missed xs key i hs h
    simp only [Bool.and_eq_true, decide_eq_true_eq]
    constructor
    · rintro ⟨hi, hpass⟩
      have hmem : xs[i] ∈ xs.drop i := by
        rw [List.drop_eq_getElem_cons hi]
        exact List.mem_cons_self
      rw [List.getD_eq_getElem _ _ hi] at hpass
      exact ⟨xs[i], List.getElem_mem hi, .inr ⟨hhi _ hmem, hpass⟩⟩
    · rintro ⟨a, ha, hpass⟩
      rw [← List.take_append_drop i xs, List.mem_append] at ha
      rcases ha with ha | ha
      · have hlt := hlo a ha
        rcases hpass with rfl | ⟨hgt, -⟩
        · exact absurd hlt (lt_irrefl a)
        · exact absurd hgt (not_lt.mpr (le_of_lt hlt))
      · have hgt := hhi a ha
        have hi : i < xs.length := by
          by_contra hge
          rw [List.drop_eq_nil_of_le (not_lt.mp hge)] at ha
          exact absurd ha List.not_mem_nil
        have hle : xs[i] ≤ a := by
          have hsorted := hs.sublist (List.drop_sublist i xs)
          rw [List.drop_eq_getElem_cons hi] at ha hsorted
          rcases List.mem_cons.mp ha with rfl | ha
          · exact le_refl _
          · exact (List.pairwise_cons.mp hsorted).1 a ha
        rcases hpass with rfl | ⟨-, hpass⟩
        · exact absurd hgt (lt_irrefl a)
        · rw [List.getD_eq_getElem _ _ hi]
          exact ⟨hi, htest _ a hle hpass⟩

/-- The key itself, or the position in front of where it would be. -/
def floor (xs : List Nat) (key : Nat) : Option Nat :=
  match B.search xs key with
  | .ok i => some i
  | .error 0 => none
  | .error (i + 1) => some i

/-- The element at the floor is the one found, or the last one below the key. -/
theorem floor_eq_some (hs : xs.Pairwise (· ≤ ·)) :
    B.floor xs key = some i ↔ ∃ x, xs[i]? = some x ∧
      ((x = key ∧ B.search xs key = .ok i) ∨
        (x < key ∧ ∀ j y, i < j → xs[j]? = some y → key < y)) := by
  unfold floor
  cases h : B.search xs key with
  | ok k =>
    have hget := B.found xs key k hs h
    constructor
    · rintro ⟨⟩
      exact ⟨key, hget, .inl ⟨rfl, rfl⟩⟩
    · rintro ⟨x, hx, ⟨-, heq⟩ | ⟨hlt, hlater⟩⟩
      · cases heq
        rfl
      · -- the key stands behind a smaller element, and is not greater than itself
        exfalso
        rcases Nat.lt_or_ge i k with hik | hki
        · exact absurd (hlater k key hik hget) (lt_irrefl key)
        · have hle := List.pairwise_iff_getElem.mp hs
          obtain ⟨hk, rfl⟩ := List.getElem?_eq_some_iff.mp hget
          obtain ⟨hi, rfl⟩ := List.getElem?_eq_some_iff.mp hx
          rcases Nat.eq_or_lt_of_le hki with rfl | hki
          · exact absurd hlt (lt_irrefl _)
          · exact absurd (hle k i hk hi hki) (not_le.mpr hlt)
  | error k =>
    obtain ⟨hk, hlo, hhi⟩ := B.missed xs key k hs h
    have hbelow : ∀ j x, xs[j]? = some x → (j < k → x < key) ∧ (k ≤ j → key < x) := by
      intro j x hx
      obtain ⟨hj, rfl⟩ := List.getElem?_eq_some_iff.mp hx
      refine ⟨fun hjk => hlo _ ?_, fun hkj => hhi _ ?_⟩
      · exact List.mem_take_iff_getElem.mpr ⟨j, by omega, rfl⟩
      · exact List.mem_drop_iff_getElem.mpr ⟨j - k, by omega, by simp [Nat.add_sub_cancel' hkj]⟩
    cases k with
    | zero =>
      constructor
      · exact fun h => absurd h (by simp)
      · rintro ⟨x, hx, ⟨-, heq⟩ | ⟨hlt, -⟩⟩
        · cases heq
        · exact absurd ((hbelow i x hx).2 (Nat.zero_le i)) (not_lt.mpr (le_of_lt hlt))
    | succ k =>
      constructor
      · intro heq
        obtain rfl : k = i := Option.some.inj heq
        have hget := List.getElem?_eq_getElem (l := xs) (show k < xs.length by omega)
        refine ⟨xs[k], hget, .inr ⟨(hbelow k _ hget).1 (Nat.lt_succ_self k), ?_⟩⟩
        exact fun j y hj hy => (hbelow j y hy).2 hj
      · rintro ⟨x, hx, ⟨-, heq⟩ | ⟨hlt, hlater⟩⟩
        · cases heq
        · have hik : i < k + 1 := by
            by_contra hge
            exact absurd ((hbelow i x hx).2 (not_lt.mp hge)) (not_lt.mpr (le_of_lt hlt))
          by_contra hne
          have hget := List.getElem?_eq_getElem (l := xs) (show k < xs.length by omega)
          have hgt := hlater k _ (by
            rcases Nat.lt_or_ge i k with hlt | hge
            · exact hlt
            · exact absurd (congrArg some (show k = i by omega)) hne) hget
          exact absurd ((hbelow k _ hget).1 (Nat.lt_succ_self k)) (not_lt.mpr (le_of_lt hgt))

end BinarySearch

end OneCollect.Theory
