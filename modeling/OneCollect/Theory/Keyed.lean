import Mathlib.Logic.Function.Basic
import Mathlib.Data.List.Basic

/-! Machines kept by key. Every input steps the machine of its key alone, so what the machines of
a key put out is what one machine puts out on the inputs with that key (`outputs_filter`). -/

namespace OneCollect.Theory.Keyed

variable {σ τ ο κ : Type}

/-- What one machine puts out, each output with its input. -/
def outputs (advance : σ → τ → σ × Option ο) : σ → List τ → List (τ × ο)
  | _, [] => []
  | s, t :: ts =>
    let next := advance s t
    (next.2.map (t, ·)).toList ++ outputs advance next.1 ts

variable [DecidableEq κ]

/-- What the machines of all keys put out. -/
def allOutputs (key : τ → κ) (advance : σ → τ → σ × Option ο) : (κ → σ) → List τ → List (τ × ο)
  | _, [] => []
  | states, t :: ts =>
    let next := advance (states (key t)) t
    (next.2.map (t, ·)).toList ++
      allOutputs key advance (Function.update states (key t) next.1) ts

theorem fst_of_mem_output {t : τ} {output : Option ο} {p : τ × ο}
    (h : p ∈ (output.map (t, ·)).toList) : p.1 = t := by
  cases output with
  | none => exact (List.not_mem_nil h).elim
  | some o => rw [List.mem_singleton.mp h]

/-- Every output stands with an input. -/
theorem fst_mem_of_mem_allOutputs {key : τ → κ} {advance : σ → τ → σ × Option ο}
    {states : κ → σ} {ts : List τ} {p : τ × ο} (h : p ∈ allOutputs key advance states ts) :
    p.1 ∈ ts := by
  induction ts generalizing states with
  | nil => exact (List.not_mem_nil h).elim
  | cons t ts ih =>
    rcases List.mem_append.mp h with h | h
    · exact fst_of_mem_output h ▸ List.mem_cons_self
    · exact List.mem_cons_of_mem _ (ih h)

/-- **Keys do not interfere.** The outputs at a key are those of one machine on its inputs. -/
theorem outputs_filter (key : τ → κ) (advance : σ → τ → σ × Option ο) (states : κ → σ)
    (ts : List τ) (k : κ) :
    (allOutputs key advance states ts).filter (fun p => key p.1 = k) =
      outputs advance (states k) (ts.filter fun t => key t = k) := by
  induction ts generalizing states with
  | nil => rfl
  | cons t ts ih =>
    rw [allOutputs, List.filter_append, ih]
    by_cases hk : key t = k
    · subst hk
      rw [List.filter_cons_of_pos (by simp), outputs, Function.update_self]
      congr 1
      refine List.filter_eq_self.mpr fun p hp => ?_
      simp [fst_of_mem_output hp]
    · rw [List.filter_cons_of_neg (by simpa using hk), Function.update_of_ne (Ne.symm hk)]
      have hnone : ((advance (states (key t)) t).2.map (t, ·)).toList.filter
          (fun p => key p.1 = k) = [] := by
        refine List.filter_eq_nil_iff.mpr fun p hp => ?_
        simpa [fst_of_mem_output hp] using hk
      rw [hnone, List.nil_append]

end OneCollect.Theory.Keyed
