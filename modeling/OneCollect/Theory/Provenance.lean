import Mathlib.Logic.Basic

/-! Where the entries of a map come from.

A step changes entries of a map for a source, and `putBy` notes it. If a step changes nothing but
the entry under the key of its source, every entry is under the key of its own source (`Keyed`); and
where no two sources share a key, the entry under the key of a source is its own (`Keyed.own`). -/

namespace OneCollect.Theory.Provenance

section Origins

variable {κ ι ν : Type} {key : ι → κ} {sources more : ι → Prop} {origin : κ → Option ι}
  {before after : κ → ν} {source : Option ι} {empty : ν}

/-- The sources after a step: the entries that it changed are from its source. -/
def putBy [DecidableEq ν] (before after : κ → ν) (source : Option ι) (origin : κ → Option ι) :
    κ → Option ι :=
  fun k => if after k = before k then origin k else source

/-- A step changes nothing but the entry under the key of its source. -/
def ChangesAt (key : ι → κ) (before after : κ → ν) (source : Option ι) : Prop :=
  ∀ k, after k ≠ before k → ∃ i, source = some i ∧ key i = k

/-- The entries are from sources under whose key they are. -/
def Keyed (key : ι → κ) (sources : ι → Prop) (origin : κ → Option ι) : Prop :=
  ∀ k i, origin k = some i → key i = k ∧ sources i

/-- The entries that are there have a source. -/
def Noted (empty : ν) (entries : κ → ν) (origin : κ → Option ι) : Prop :=
  ∀ k, entries k ≠ empty → (origin k).isSome = true

/-- No two sources share a key. -/
def KeysApart (key : ι → κ) (sources : ι → Prop) : Prop :=
  ∀ i j, sources i → sources j → key i = key j → i = j

theorem keyed_none : Keyed key sources fun _ => none := fun _ _ h => by cases h

theorem Keyed.mono (h : Keyed key sources origin) (hmore : ∀ i, sources i → more i) :
    Keyed key more origin := fun k i hi => ⟨(h k i hi).1, hmore i (h k i hi).2⟩

theorem Keyed.putBy [DecidableEq ν] (h : Keyed key sources origin)
    (hstep : ChangesAt key before after source) (hsource : ∀ i, source = some i → sources i) :
    Keyed key sources (putBy before after source origin) := by
  intro k i hi
  unfold Provenance.putBy at hi
  split at hi
  · exact h k i hi
  · rename_i hchanged
    obtain ⟨j, hj, hkey⟩ := hstep k hchanged
    obtain rfl := Option.some.inj (hj.symm.trans hi)
    exact ⟨hkey, hsource j hj⟩

theorem Noted.putBy [DecidableEq ν] (h : Noted empty before origin)
    (hstep : ChangesAt key before after source) :
    Noted empty after (putBy before after source origin) := by
  intro k hk
  unfold Provenance.putBy
  split
  · rename_i hsame
    exact h k (hsame ▸ hk)
  · rename_i hchanged
    obtain ⟨j, hj, -⟩ := hstep k hchanged
    rw [hj]
    rfl

/-- Under the key of a source is its own entry. -/
theorem Keyed.own (h : Keyed key sources origin) (hapart : KeysApart key sources) {i j : ι}
    (hi : sources i) (hj : origin (key i) = some j) : j = i := by
  obtain ⟨hkey, hsource⟩ := h _ _ hj
  exact hapart j i hsource hi hkey

theorem Keyed.own_of_noted {entries : κ → ν} (h : Keyed key sources origin)
    (hnoted : Noted empty entries origin) (hapart : KeysApart key sources) {i : ι}
    (hi : sources i) (hthere : entries (key i) ≠ empty) : origin (key i) = some i := by
  obtain ⟨j, hj⟩ := Option.isSome_iff_exists.mp (hnoted _ hthere)
  rw [hj, h.own hapart hi hj]

end Origins

end OneCollect.Theory.Provenance
