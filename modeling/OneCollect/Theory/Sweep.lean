import Mathlib.Data.List.Nodup
import Mathlib.Order.Lattice

/-! Sweeps over ordered events. Each event stands at a place and opens or closes a
slot. After any prefix of the events a slot is open when the last event about it
opened it. `Shown es q k` is what a reader at place `q` sees who looks at the last
place up to `q` after some event of which any slot was open.

For a slot with one opening event `o` and one closing event `c` the reader's view
is settled by places alone, except when `c` stands at `q` itself: then it depends
on whether another event at `q` comes first (`shown_of_earlier_event`,
`shown_iff_of_first_event`). -/

namespace OneCollect.Theory.Sweep

variable {ε α β : Type} (place : ε → α) (slot : ε → β) (opens : ε → Bool)

/-- The last event of `es` about slot `k` opens it. -/
def OpenAfter (es : List ε) (k : β) : Prop :=
  ∃ pre e post, es = pre ++ e :: post ∧ slot e = k ∧ opens e = true ∧ ∀ e' ∈ post, slot e' ≠ k

/-- Slot `k` is open after some event at place `a`. -/
def RecordedAt (es : List ε) (a : α) (k : β) : Prop :=
  ∃ pre e post, es = pre ++ e :: post ∧ place e = a ∧ OpenAfter slot opens (pre ++ [e]) k

/-- Slot `k` is recorded at the last place up to `q` where any slot is recorded. -/
def Shown [LinearOrder α] (es : List ε) (q : α) (k : β) : Prop :=
  ∃ a, a ≤ q ∧ RecordedAt place slot opens es a k ∧
    ∀ a' k', a < a' → a' ≤ q → ¬ RecordedAt place slot opens es a' k'

theorem not_openAfter_nil (k : β) : ¬ OpenAfter slot opens [] k := by
  rintro ⟨pre, e, post, h, -⟩
  exact absurd h (by simp)

/-- One more event decides its own slot and leaves the others. -/
theorem openAfter_concat (es : List ε) (e : ε) (k : β) :
    OpenAfter slot opens (es ++ [e]) k ↔
      (slot e = k ∧ opens e = true) ∨ (slot e ≠ k ∧ OpenAfter slot opens es k) := by
  constructor
  · rintro ⟨pre, x, post, h, hs, ho, hp⟩
    rcases List.eq_nil_or_concat post with rfl | ⟨post', y, rfl⟩
    · obtain ⟨-, h⟩ := List.append_inj' h rfl
      obtain rfl : e = x := by simpa using h
      exact Or.inl ⟨hs, ho⟩
    · have h' : es ++ [e] = (pre ++ x :: post') ++ [y] := by simpa using h
      obtain ⟨rfl, h⟩ := List.append_inj' h' rfl
      obtain rfl : e = y := by simpa using h
      exact Or.inr ⟨hp e (by simp), pre, x, post', rfl, hs, ho, fun z hz => hp z (by simp [hz])⟩
  · rintro (⟨hs, ho⟩ | ⟨hs, pre, x, post, rfl, hx, ho, hp⟩)
    · exact ⟨es, e, [], rfl, hs, ho, by simp⟩
    · refine ⟨pre, x, post ++ [e], by simp, hx, ho, fun z hz => ?_⟩
      rcases List.mem_append.mp hz with h | h
      · exact hp z h
      · rw [List.mem_singleton.mp h]; exact hs

/-! ## Order of two events -/

/-- In a list without repetition the events before `x` are those that come before it. -/
theorem pair_sublist_left {es pre post : List ε} {x y : ε} (hnd : es.Nodup)
    (h : es = pre ++ x :: post) : [y, x].Sublist es ↔ y ∈ pre := by
  subst h
  have hx : x ∉ pre := fun hm => List.disjoint_of_nodup_append hnd hm (by simp)
  constructor
  · intro hs
    obtain ⟨l₁, l₂, hl, h₁, h₂⟩ := List.sublist_append_iff.mp hs
    cases l₁ with
    | nil =>
      -- the pair would start at `x`, and `x` would come again after it
      simp only [List.nil_append] at hl
      subst hl
      have hxp : x ∉ post := (List.nodup_cons.mp (List.nodup_append.mp hnd).2.1).1
      rcases List.sublist_cons_iff.mp h₂ with h | ⟨r, hr, hrs⟩
      · exact absurd (h.subset (by simp)) hxp
      · obtain ⟨-, rfl⟩ : y = x ∧ [x] = r := by simpa using hr
        exact absurd (hrs.subset (by simp)) hxp
    | cons z l₁ =>
      obtain ⟨rfl, -⟩ : y = z ∧ [x] = l₁ ++ l₂ := by simpa using hl
      exact h₁.subset (by simp)
  · intro hy
    exact (List.singleton_sublist.mpr hy).append (List.singleton_sublist.mpr (by simp) :
      [x].Sublist (x :: post))

theorem pair_sublist_right {es pre post : List ε} {x y : ε} (hnd : es.Nodup)
    (h : es = pre ++ x :: post) : [x, y].Sublist es ↔ y ∈ post := by
  subst h
  have hx : x ∉ pre := fun hm => List.disjoint_of_nodup_append hnd hm (by simp)
  constructor
  · intro hs
    obtain ⟨l₁, l₂, hl, h₁, h₂⟩ := List.sublist_append_iff.mp hs
    cases l₁ with
    | nil =>
      simp only [List.nil_append] at hl
      subst hl
      rcases List.sublist_cons_iff.mp h₂ with h | ⟨r, hr, hrs⟩
      · have hxp : x ∉ post := (List.nodup_cons.mp (List.nodup_append.mp hnd).2.1).1
        exact absurd (h.subset (by simp)) hxp
      · obtain ⟨-, rfl⟩ : x = x ∧ [y] = r := by simpa using hr
        exact hrs.subset (by simp)
    | cons z l₁ =>
      obtain ⟨rfl, -⟩ : x = z ∧ [y] = l₁ ++ l₂ := by simpa using hl
      exact absurd (h₁.subset (by simp)) hx
  · intro hy
    exact ((List.singleton_sublist.mpr hy).cons_cons x).trans (List.sublist_append_right _ _)

/-! ## A slot with one opening and one closing event -/

/-- The events about slot `k` are its opening event `o` and, later, its closing event `c`. -/
structure Paired (es : List ε) (k : β) (o c : ε) : Prop where
  opening : slot o = k ∧ opens o = true
  closing : slot c = k ∧ opens c = false
  only : ∀ e ∈ es, slot e = k → e = o ∨ e = c
  ordered : [o, c].Sublist es

section Paired

variable {place slot opens} {es : List ε} {k : β} {o c : ε}

theorem Paired.mem_open (h : Paired slot opens es k o c) : o ∈ es :=
  h.ordered.subset (by simp)

theorem Paired.mem_close (h : Paired slot opens es k o c) : c ∈ es :=
  h.ordered.subset (by simp)

/-- A paired slot is open between its two events. -/
theorem Paired.openAfter_iff (h : Paired slot opens es k o c) (hnd : es.Nodup)
    {pre post : List ε} (hes : es = pre ++ post) :
    OpenAfter slot opens pre k ↔ o ∈ pre ∧ c ∉ pre := by
  constructor
  · rintro ⟨p₁, e, p₂, rfl, hs, ho, hp⟩
    have he : e = o := by
      rcases h.only e (by simp [hes]) hs with he | he
      · exact he
      · rw [he, h.closing.2] at ho; cases ho
    subst he
    refine ⟨by simp, fun hc => ?_⟩
    have hsplit : es = p₁ ++ e :: (p₂ ++ post) := by simp [hes]
    have hcp : c ∈ p₂ ++ post := (pair_sublist_right hnd hsplit).mp h.ordered
    have hnd' : (p₁ ++ e :: p₂ ++ post).Nodup := hes ▸ hnd
    rcases List.mem_append.mp hcp with hc' | hc'
    · exact hp c hc' h.closing.1
    · exact List.disjoint_of_nodup_append hnd' hc hc'
  · rintro ⟨ho, hc⟩
    obtain ⟨p₁, p₂, rfl⟩ := List.append_of_mem ho
    refine ⟨p₁, o, p₂, rfl, h.opening.1, h.opening.2, fun e he hs => ?_⟩
    rcases h.only e (by simp [hes, he]) hs with rfl | rfl
    · have hnd' : (e :: p₂).Nodup :=
        (List.nodup_append.mp (List.nodup_append.mp (hes ▸ hnd)).1).2.1
      exact (List.nodup_cons.mp hnd').1 he
    · exact hc (by simp [he])

/-- When its closing event is the first event at `q`, the slot is not recorded there. -/
theorem Paired.not_recordedAt_of_first (h : Paired slot opens es k o c) (hnd : es.Nodup)
    (hfirst : ∀ e ∈ es, place e = place c → e = c ∨ [c, e].Sublist es) :
    ¬ RecordedAt place slot opens es (place c) k := by
  rintro ⟨pre, e, post, hes, hp, hopen⟩
  have hes' : es = (pre ++ [e]) ++ post := by simp [hes]
  have hc := ((h.openAfter_iff hnd hes').mp hopen).2
  rcases hfirst e (by simp [hes]) hp with rfl | hs
  · exact hc (by simp)
  · exact hc (List.mem_append_left _ ((pair_sublist_left hnd hes).mp hs))

variable [LinearOrder α]

/-- Events come in the order of their places. -/
def Ordered (place : ε → α) (es : List ε) : Prop := es.Pairwise fun e e' => place e ≤ place e'

theorem Ordered.left (h : Ordered place es) {pre post : List ε} {x : ε}
    (hes : es = pre ++ x :: post) : ∀ e ∈ pre, place e ≤ place x := by
  subst hes
  exact fun e he => (List.pairwise_append.mp h).2.2 e he x (by simp)

theorem Ordered.right (h : Ordered place es) {pre post : List ε} {x : ε}
    (hes : es = pre ++ x :: post) : ∀ e ∈ post, place x ≤ place e := by
  subst hes
  exact (List.pairwise_cons.mp (List.pairwise_append.mp h).2.1).1

/-- An event at a smaller place comes before `x`. -/
theorem Ordered.mem_left (h : Ordered place es) {pre post : List ε} {x e : ε}
    (hes : es = pre ++ x :: post) (he : e ∈ es) (hlt : place e < place x) : e ∈ pre := by
  rw [hes] at he
  rcases List.mem_append.mp he with he | he
  · exact he
  · rcases List.mem_cons.mp he with rfl | he
    · exact absurd hlt (lt_irrefl _)
    · exact absurd (h.right hes e he) (not_le.mpr hlt)

theorem Ordered.not_mem_left (h : Ordered place es) {pre post : List ε} {x e : ε}
    (hes : es = pre ++ x :: post) (hlt : place x < place e) : e ∉ pre ++ [x] := by
  intro he
  rcases List.mem_append.mp he with he | he
  · exact absurd (h.left hes e he) (not_le.mpr hlt)
  · rw [List.mem_singleton.mp he] at hlt
    exact absurd hlt (lt_irrefl _)

/-- Ordered events split at `q` into those up to it and those beyond. -/
theorem Ordered.split_at (h : Ordered place es) (p : α → Prop) [DecidablePred p]
    (hp : ∀ a b, a ≤ b → p b → p a) :
    ∃ lo hi, es = lo ++ hi ∧ (∀ e ∈ lo, p (place e)) ∧ ∀ e ∈ hi, ¬ p (place e) := by
  induction es with
  | nil => exact ⟨[], [], rfl, by simp, by simp⟩
  | cons e es ih =>
    obtain ⟨hle, hes⟩ := List.pairwise_cons.mp h
    by_cases he : p (place e)
    · obtain ⟨lo, hi, rfl, hlo, hhi⟩ := ih hes
      exact ⟨e :: lo, hi, rfl, by simpa [he] using hlo, hhi⟩
    · refine ⟨[], e :: es, rfl, by simp, fun x hx => ?_⟩
      rcases List.mem_cons.mp hx with rfl | hx
      · exact he
      · exact fun hx' => he (hp _ _ (hle x hx) hx')

/-- A slot left open by all events below a bound is recorded at the last place below it. -/
theorem Ordered.recordedAt_last (h : Ordered place es) {lo hi : List ε} (hes : es = lo ++ hi)
    (hopen : OpenAfter slot opens lo k) :
    ∃ a, (∃ e ∈ lo, place e = a) ∧ RecordedAt place slot opens es a k ∧
      ∀ e ∈ lo, place e ≤ a := by
  rcases List.eq_nil_or_concat lo with rfl | ⟨pre, e, rfl⟩
  · exact absurd hopen (not_openAfter_nil slot opens k)
  · have hes' : es = pre ++ e :: hi := by simpa using hes
    refine ⟨place e, ⟨e, by simp, rfl⟩, ⟨pre, e, hi, hes', rfl, by simpa using hopen⟩, ?_⟩
    intro e' he'
    rcases List.mem_append.mp (by simpa using he' : e' ∈ pre ++ [e]) with hm | hm
    · exact h.left hes' e' hm
    · rw [List.mem_singleton.mp hm]

/-- A slot that no event up to `q` closes for good is shown at `q`. -/
theorem Ordered.shown_of_open (h : Ordered place es) {lo hi : List ε} {q : α} (hes : es = lo ++ hi)
    (hlo : ∀ e ∈ lo, place e ≤ q) (hhi : ∀ e ∈ hi, q < place e)
    (hopen : OpenAfter slot opens lo k) : Shown place slot opens es q k := by
  obtain ⟨a, ⟨e, he, rfl⟩, hrec, hmax⟩ := h.recordedAt_last hes hopen
  refine ⟨place e, hlo e he, hrec, ?_⟩
  rintro a' k' ha hq ⟨pre, x, post, hx, rfl, -⟩
  have hxm : x ∈ lo ++ hi := by rw [← hes, hx]; simp
  rcases List.mem_append.mp hxm with hm | hm
  · exact absurd (hmax x hm) (not_le.mpr ha)
  · exact absurd (hhi x hm) (not_lt.mpr hq)

/-- An open slot that closes beyond `q` is shown at `q`. -/
theorem Paired.shown_of_lt (h : Paired slot opens es k o c) (hnd : es.Nodup)
    (hord : Ordered place es) {q : α} (ho : place o ≤ q) (hc : q < place c) :
    Shown place slot opens es q k := by
  obtain ⟨lo, hi, hes, hlo, hhi⟩ := hord.split_at (· ≤ q) fun a b hab hb => le_trans hab hb
  refine hord.shown_of_open hes hlo (fun e he => not_le.mp (hhi e he)) ?_
  refine (h.openAfter_iff hnd hes).mpr ⟨?_, fun hm => absurd (hlo c hm) (not_le.mpr hc)⟩
  rcases List.mem_append.mp (hes ▸ h.mem_open) with hm | hm
  · exact hm
  · exact absurd ho (hhi o hm)

/-- A slot that closes at `q` is shown there when an event at `q` comes before its closing
one and not before its opening one. -/
theorem Paired.shown_of_earlier_event (h : Paired slot opens es k o c) (hnd : es.Nodup)
    (hord : Ordered place es) {x : ε} (hx : [x, c].Sublist es)
    (hox : o = x ∨ place o < place x) : Shown place slot opens es (place x) k := by
  obtain ⟨pre, post, hes⟩ := List.append_of_mem (hx.subset (by simp : x ∈ [x, c]))
  refine ⟨place x, le_rfl, ⟨pre, x, post, hes, rfl, ?_⟩, fun a' k' ha hq => absurd ha (not_lt.mpr hq)⟩
  have hes' : es = (pre ++ [x]) ++ post := by simp [hes]
  refine (h.openAfter_iff hnd hes').mpr ⟨?_, fun hm => ?_⟩
  · rcases hox with rfl | hlt
    · simp
    · exact List.mem_append_left _ (hord.mem_left hes h.mem_open hlt)
  · have hc : c ∈ post := (pair_sublist_right hnd hes).mp hx
    exact List.disjoint_of_nodup_append (hes' ▸ hnd) hm hc

/-- When its closing event is the first event at `q`, the slot is shown at `q` exactly when no
slot is recorded there. -/
theorem Paired.shown_iff_of_first_event (h : Paired slot opens es k o c) (hnd : es.Nodup)
    (hord : Ordered place es) (ho : place o < place c)
    (hfirst : ∀ e ∈ es, place e = place c → e = c ∨ [c, e].Sublist es) :
    Shown place slot opens es (place c) k ↔ ∀ k', ¬ RecordedAt place slot opens es (place c) k' := by
  have hnot : ¬ RecordedAt place slot opens es (place c) k := h.not_recordedAt_of_first hnd hfirst
  constructor
  · rintro ⟨a, ha, hrec, hmax⟩ k'
    rcases lt_or_eq_of_le ha with hlt | rfl
    · exact hmax _ k' hlt le_rfl
    · exact absurd hrec hnot
  · intro hnone
    obtain ⟨lo, hi, hes, hlo, hhi⟩ :=
      hord.split_at (· < place c) fun a b hab hb => lt_of_le_of_lt hab hb
    have hopen : OpenAfter slot opens lo k := by
      refine (h.openAfter_iff hnd hes).mpr ⟨?_, fun hm => absurd (hlo c hm) (lt_irrefl _)⟩
      rcases List.mem_append.mp (hes ▸ h.mem_open) with hm | hm
      · exact hm
      · exact absurd ho (hhi o hm)
    obtain ⟨a, ⟨e, he, rfl⟩, hrec, hmax⟩ := hord.recordedAt_last hes hopen
    refine ⟨place e, le_of_lt (hlo e he), hrec, fun a' k' ha hq hrec' => ?_⟩
    rcases lt_or_eq_of_le hq with hlt | rfl
    · obtain ⟨pre, x, post, hx, rfl, -⟩ := hrec'
      have hxm : x ∈ lo ++ hi := by rw [← hes, hx]; simp
      rcases List.mem_append.mp hxm with hm | hm
      · exact absurd (hmax x hm) (not_le.mpr ha)
      · exact hhi x hm hlt
    · exact hnone k' hrec'

/-- A slot other than `k` is recorded at the place of `k`'s closing event, the first one
there, exactly when it opens no later and closes no earlier. -/
theorem Paired.recordedAt_first_iff {k' : β} {o' c' : ε} (h : Paired slot opens es k o c)
    (h' : Paired slot opens es k' o' c') (hnd : es.Nodup) (hord : Ordered place es)
    (hfirst : ∀ e ∈ es, place e = place c → e = c ∨ [c, e].Sublist es) (hne : k' ≠ k) :
    RecordedAt place slot opens es (place c) k' ↔ place o' ≤ place c ∧ place c ≤ place c' := by
  have hcc : c' ≠ c := fun hc => hne (by rw [← h'.closing.1, hc, h.closing.1])
  constructor
  · rintro ⟨pre, e, post, hes, hp, hopen⟩
    have hes' : es = (pre ++ [e]) ++ post := by simp [hes]
    obtain ⟨ho', hc'⟩ := (h'.openAfter_iff hnd hes').mp hopen
    constructor
    · rw [← hp]
      by_contra hlt
      exact hord.not_mem_left hes (not_le.mp hlt) ho'
    · rw [← hp]
      by_contra hlt
      exact hc' (List.mem_append_left _ (hord.mem_left hes h'.mem_close (not_le.mp hlt)))
  · rintro ⟨ho', hc'⟩
    rcases lt_or_eq_of_le ho' with hlt | heq
    · -- already open when `c` comes, and not closed before it
      obtain ⟨pre, post, hes⟩ := List.append_of_mem h.mem_close
      have hes' : es = (pre ++ [c]) ++ post := by simp [hes]
      refine ⟨pre, c, post, hes, rfl, (h'.openAfter_iff hnd hes').mpr ⟨?_, fun hm => ?_⟩⟩
      · exact List.mem_append_left _ (hord.mem_left hes h'.mem_open hlt)
      · rcases List.mem_append.mp hm with hm | hm
        · have hle := le_antisymm (hord.left hes c' hm) hc'
          rcases hfirst c' h'.mem_close hle with hc | hs
          · exact hcc hc
          · have := (pair_sublist_right hnd hes).mp hs
            exact List.disjoint_of_nodup_append (hes ▸ hnd) hm (List.mem_cons_of_mem _ this)
        · exact hcc (List.mem_singleton.mp hm)
    · obtain ⟨pre, post, hes⟩ := List.append_of_mem h'.mem_open
      have hes' : es = (pre ++ [o']) ++ post := by simp [hes]
      refine ⟨pre, o', post, hes, heq, (h'.openAfter_iff hnd hes').mpr ⟨by simp, fun hm => ?_⟩⟩
      have hpost : c' ∈ post := (pair_sublist_right hnd hes).mp h'.ordered
      exact List.disjoint_of_nodup_append (hes' ▸ hnd) hm hpost

end Paired

end OneCollect.Theory.Sweep
