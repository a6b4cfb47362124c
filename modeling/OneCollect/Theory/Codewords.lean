import Mathlib.Data.List.Basic

/-! Words one after another. Where no codeword starts another, the codewords that a text starts
with are determined, and there is a longest row of them (`exists_longestRow`). A reader that takes
one codeword at a time and stops where there is none reads that row. -/

namespace OneCollect.Theory

/-- No codeword is empty, and none is the start of another. -/
structure Codewords {α β : Type} (encode : α → List β) : Prop where
  nonempty : ∀ a, encode a ≠ []
  determined : ∀ {a b : α} {xs ys : List β}, encode a ++ xs = encode b ++ ys → a = b

/-- The text starts with the codewords of the row, and with no others than those. -/
structure LongestRow {α β : Type} (encode : α → List β) (text : List β) (row : List α) : Prop where
  front : row.flatMap encode <+: text
  longest : ∀ other : List α, other.flatMap encode <+: text → other <+: row

namespace Codewords

variable {α β : Type} {encode : α → List β} {text : List β} {row : List α}

/-- No codeword at the front. -/
theorem longestRow_nil (h : ∀ a rest, text ≠ encode a ++ rest) : LongestRow encode text [] where
  front := List.nil_prefix
  longest other hother := by
    cases other with
    | nil => exact List.nil_prefix
    | cons a other =>
      obtain ⟨rest, hrest⟩ := hother
      rw [List.flatMap_cons, List.append_assoc] at hrest
      exact absurd hrest.symm (h a _)

/-- One more codeword in front. -/
theorem longestRow_cons (hcode : Codewords encode) (a : α) (h : LongestRow encode text row) :
    LongestRow encode (encode a ++ text) (a :: row) where
  front := by
    rw [List.flatMap_cons]
    exact (List.prefix_append_right_inj _).mpr h.front
  longest other hother := by
    cases other with
    | nil => exact List.nil_prefix
    | cons b other =>
      obtain ⟨rest, hrest⟩ := hother
      rw [List.flatMap_cons, List.append_assoc] at hrest
      obtain rfl := hcode.determined hrest
      have hother := h.longest other ⟨rest, List.append_cancel_left hrest⟩
      exact List.cons_prefix_cons.mpr ⟨rfl, hother⟩

/-- **The longest row.** Whatever holds of a text without a codeword at its front, and of a
codeword and a text of which it holds, holds of every text with its longest row. -/
theorem exists_longestRow (hcode : Codewords encode) {motive : List β → List α → Prop}
    (hnil : ∀ text, (∀ a rest, text ≠ encode a ++ rest) → motive text [])
    (hcons : ∀ a text row, motive text row → motive (encode a ++ text) (a :: row))
    (text : List β) : ∃ row, LongestRow encode text row ∧ motive text row := by
  induction hlen : text.length using Nat.strongRecOn generalizing text with
  | ind length ih =>
    by_cases hfront : ∃ a rest, text = encode a ++ rest
    · obtain ⟨a, rest, rfl⟩ := hfront
      have hpos := List.length_pos_iff.mpr (hcode.nonempty a)
      rw [List.length_append] at hlen
      obtain ⟨row, hrow, hmotive⟩ := ih rest.length (by omega) rest rfl
      exact ⟨a :: row, hcode.longestRow_cons a hrow, hcons a rest row hmotive⟩
    · have hnone : ∀ a rest, text ≠ encode a ++ rest := fun a rest h => hfront ⟨a, rest, h⟩
      exact ⟨[], longestRow_nil hnone, hnil text hnone⟩

end Codewords

end OneCollect.Theory
