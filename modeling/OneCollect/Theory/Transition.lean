import Mathlib.Data.List.Induction
import OneCollect.Theory.Checked

/-! Transition systems: an initial condition and a step relation labelled by actions.
What one step preserves holds of every reachable state (`System.invariant`); what one
step preserves under a condition holds along every run whose steps meet it
(`System.restrict`). -/

namespace OneCollect.Theory

structure System (σ α : Type) where
  init : σ → Prop
  step : σ → α → σ → Prop

namespace System

variable {σ α : Type}

/-- A deterministic system whose step may fail; a failed step leads nowhere. -/
def ofExec (init : σ → Prop) (run : σ → α → Exec σ) : System σ α :=
  ⟨init, fun s a t => run s a = .ok t⟩

/-- From `s` the actions of the list, in order, lead to the last state. -/
inductive Runs (S : System σ α) (s : σ) : List α → σ → Prop
  | refl : Runs S s [] s
  | snoc {as : List α} {t u : σ} {a : α} : Runs S s as t → S.step t a u → Runs S s (as ++ [a]) u

def Reachable (S : System σ α) (t : σ) : Prop := ∃ s as, S.init s ∧ S.Runs s as t

/-- Only the steps that meet `C` in the state before them. -/
def restrict (S : System σ α) (C : σ → α → Prop) : System σ α :=
  ⟨S.init, fun s a t => C s a ∧ S.step s a t⟩

theorem Runs.preserves {S : System σ α} {I : σ → Prop} {s t : σ} {as : List α}
    (h : S.Runs s as t) (hs : I s) (hstep : ∀ t a u, I t → S.step t a u → I u) : I t := by
  induction h with
  | refl => exact hs
  | snoc _ hu ih => exact hstep _ _ _ ih hu

/-- **Invariant rule.** -/
theorem invariant {S : System σ α} {I : σ → Prop} (hinit : ∀ s, S.init s → I s)
    (hstep : ∀ t a u, I t → S.step t a u → I u) {t : σ} (h : S.Reachable t) : I t := by
  obtain ⟨s, as, hs, hr⟩ := h
  exact hr.preserves (hinit s hs) hstep

theorem reachable_init {S : System σ α} {s : σ} (h : S.init s) : S.Reachable s :=
  ⟨s, [], h, .refl⟩

theorem Reachable.next {S : System σ α} {t u : σ} (h : S.Reachable t) (a : α)
    (hstep : S.step t a u) : S.Reachable u := by
  obtain ⟨s, as, hs, hr⟩ := h
  exact ⟨s, as ++ [a], hs, hr.snoc hstep⟩

/-- The invariant rule for the runs whose steps meet `C`. -/
theorem restrict_invariant {S : System σ α} {C : σ → α → Prop} {I : σ → Prop}
    (hinit : ∀ s, S.init s → I s) (hstep : ∀ t a u, I t → C t a → S.step t a u → I u) {t : σ}
    (h : (S.restrict C).Reachable t) : I t :=
  invariant (S := S.restrict C) hinit (fun t a u ht hs => hstep t a u ht hs.1 hs.2) h

/-- A run without its last action. -/
theorem runs_snoc {S : System σ α} {s u : σ} {as : List α} {a : α} :
    S.Runs s (as ++ [a]) u ↔ ∃ t, S.Runs s as t ∧ S.step t a u := by
  constructor
  · intro h
    generalize hl : as ++ [a] = l at h
    cases h with
    | refl => exact absurd hl (by simp)
    | snoc hr hstep =>
      obtain ⟨rfl, hlast⟩ := List.append_inj' hl rfl
      obtain rfl := List.singleton_inj.mp hlast
      exact ⟨_, hr, hstep⟩
  · rintro ⟨t, hr, hstep⟩
    exact hr.snoc hstep

theorem Runs.append {S : System σ α} {s t u : σ} {as bs : List α} (h : S.Runs s as t)
    (h' : S.Runs t bs u) : S.Runs s (as ++ bs) u := by
  induction h' with
  | refl => exact (List.append_nil as).symm ▸ h
  | snoc _ hstep ih => exact List.append_assoc as _ _ ▸ ih.snoc hstep

/-- A run in two parts. -/
theorem runs_append {S : System σ α} {s u : σ} {as bs : List α} :
    S.Runs s (as ++ bs) u ↔ ∃ t, S.Runs s as t ∧ S.Runs t bs u := by
  constructor
  · intro h
    induction bs using List.reverseRecOn generalizing u with
    | nil => exact ⟨u, (List.append_nil as) ▸ h, .refl⟩
    | append_singleton bs b ih =>
      rw [← List.append_assoc] at h
      obtain ⟨v, hr, hstep⟩ := runs_snoc.mp h
      obtain ⟨t, ht, hv⟩ := ih hr
      exact ⟨t, ht, hv.snoc hstep⟩
  · rintro ⟨t, ht, hu⟩
    exact ht.append hu

/-- Two conditions that every state and action meet alike restrict alike. -/
theorem restrict_congr {S : System σ α} {C D : σ → α → Prop} (h : ∀ s a, C s a ↔ D s a) :
    S.restrict C = S.restrict D := by
  have hCD : C = D := funext fun s => funext fun a => propext (h s a)
  rw [hCD]

/-- The run of a program that may fail has one end. -/
theorem runs_ofExec_unique {init : σ → Prop} {run : σ → α → Exec σ} {s t t' : σ} {as : List α}
    (h : (ofExec init run).Runs s as t) (h' : (ofExec init run).Runs s as t') : t = t' := by
  induction h generalizing t' with
  | refl =>
    generalize hl : ([] : List α) = l at h'
    cases h' with
    | refl => rfl
    | snoc => exact absurd hl (by simp)
  | snoc _ hstep ih =>
    obtain ⟨u, hr, hstep'⟩ := runs_snoc.mp h'
    have hu := ih hr
    subst hu
    exact Except.ok.inj (hstep.symm.trans hstep')

/-- A restricted run is a run. -/
theorem Runs.of_restrict {S : System σ α} {C : σ → α → Prop} {s t : σ} {as : List α}
    (h : (S.restrict C).Runs s as t) : S.Runs s as t := by
  induction h with
  | refl => exact .refl
  | snoc _ hstep ih => exact ih.snoc hstep.2

/-- **Run rule for a condition on every step.** Where `good` holds after a step exactly when it
held before and the step meets `C`, it holds after a run exactly when every step does. -/
theorem runs_good_iff {init : σ → Prop} {run : σ → α → Exec σ} {C : σ → α → Prop}
    (I good : σ → Prop) {s t : σ} {as : List α} (hI : I s) (hs : good s)
    (hkeep : ∀ t a u, I t → run t a = .ok u → I u)
    (hstep : ∀ t a u, I t → run t a = .ok u → (good u ↔ good t ∧ C t a))
    (h : (ofExec init run).Runs s as t) :
    good t ↔ ((ofExec init run).restrict C).Runs s as t := by
  induction h with
  | refl => exact ⟨fun _ => .refl, fun _ => hs⟩
  | snoc hr hu ih =>
    rw [hstep _ _ _ (hr.preserves hI hkeep) hu, ih, runs_snoc]
    constructor
    · rintro ⟨hrun, hc⟩
      exact ⟨_, hrun, hc, hu⟩
    · rintro ⟨t', hrun, hc, -⟩
      obtain rfl := runs_ofExec_unique hrun.of_restrict hr
      exact ⟨hrun, hc⟩

/-- **Run rule for every state.** Where `good` is kept by a step exactly when the step meets `C`,
it holds in every state of a run exactly when every step does. -/
theorem runs_always_iff {init : σ → Prop} {run : σ → α → Exec σ} {C : σ → α → Prop}
    (good : σ → Prop) {s t : σ} {as : List α} (hs : good s)
    (hstep : ∀ t a u, good t → run t a = .ok u → (good u ↔ C t a))
    (h : (ofExec init run).Runs s as t) :
    (∀ bs u, bs <+: as → (ofExec init run).Runs s bs u → good u) ↔
      ((ofExec init run).restrict C).Runs s as t := by
  constructor
  · intro hall
    induction h with
    | refl => exact .refl
    | snoc hr hu ih =>
      have hbefore := ih fun bs u hbs hrun => hall bs u (hbs.trans (List.prefix_append _ _)) hrun
      have ht := hall _ _ (List.prefix_append _ _) hr
      have hafter := hall _ _ List.prefix_rfl (hr.snoc hu)
      exact hbefore.snoc ⟨(hstep _ _ _ ht hu).mp hafter, hu⟩
  · intro hrestricted
    induction hrestricted with
    | refl =>
      intro bs u hbs hrun
      obtain rfl := List.prefix_nil.mp hbs
      exact runs_ofExec_unique .refl hrun ▸ hs
    | snoc hr hu ih =>
      intro bs u hbs hrun
      have hall := ih hr.of_restrict
      rcases List.prefix_concat_iff.mp hbs with rfl | hbs
      · have heq := runs_ofExec_unique (hr.of_restrict.snoc hu.2) hrun
        have ht := hall _ _ List.prefix_rfl hr.of_restrict
        exact heq ▸ (hstep _ _ _ ht hu.2).mpr hu.1
      · exact hall bs u hbs hrun

end System

end OneCollect.Theory
