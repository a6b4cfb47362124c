import Mathlib.Data.List.Nodup
import Mathlib.Data.List.Perm.Subperm
import OneCollect.Theory.Checked

/-! Numbered nodes that form a tree below node 0, and a loop over them with a stack.

A parent has a smaller number than its children. `visits` is the order in which a loop takes the
nodes that puts the children of each node it takes on its stack; `visits_perm` says that it takes
every node once. `lineage` are the nodes from one up to the root. -/

namespace OneCollect.Theory

/-- The nodes below `n` are a tree with the root 0. -/
structure Rooted (n : Nat) (parent : Nat → Nat) (children : Nat → List Nat) : Prop where
  pos : 0 < n
  parent_lt : ∀ c, 0 < c → c < n → parent c < c
  nodup : ∀ p, p < n → (children p).Nodup
  mem_children : ∀ p c, p < n → (c ∈ children p ↔ 0 < c ∧ c < n ∧ parent c = p)

/-- The nodes that a loop takes; each time the children of the node go on the stack, the last of
them on top. -/
def visits (children : Nat → List Nat) : (fuel : Nat) → (stack : List Nat) → Option (List Nat)
  | _, [] => some []
  | 0, _ :: _ => none
  | fuel + 1, id :: stack => (visits children fuel ((children id).reverse ++ stack)).map (id :: ·)

/-- The nodes from one up to the root, the root left out. -/
def ancestry (parent : Nat → Nat) : (fuel : Nat) → (id : Nat) → List Nat
  | 0, _ => []
  | fuel + 1, id => if id = 0 then [] else id :: ancestry parent fuel (parent id)

/-- A node has no more ancestors than its number. -/
def lineage (parent : Nat → Nat) (id : Nat) : List Nat := ancestry parent id id

namespace Rooted

variable {n : Nat} {parent : Nat → Nat} {children : Nat → List Nat}

/-- Between two turns: what was taken and what is on the stack is all that hangs below what was
taken, each node once. -/
structure Swept (n : Nat) (parent : Nat → Nat) (taken stack : List Nat) : Prop where
  nodup : (taken ++ stack).Nodup
  lt : ∀ x ∈ taken ++ stack, x < n
  root : 0 ∈ taken ++ stack
  mem : ∀ x, 0 < x → x < n → (x ∈ taken ++ stack ↔ parent x ∈ taken)

theorem swept_init (h : Rooted n parent children) : Swept n parent [] [0] where
  nodup := List.nodup_singleton 0
  lt := fun x hx => by
    rw [List.nil_append, List.mem_singleton] at hx
    exact hx ▸ h.pos
  root := List.mem_singleton_self 0
  mem := fun x hx _ => by
    rw [List.nil_append, List.mem_singleton]
    exact iff_of_false (Nat.ne_of_gt hx) List.not_mem_nil

theorem perm_turn (taken stack cs : List Nat) (id : Nat) :
    (taken ++ [id] ++ (cs.reverse ++ stack)).Perm (taken ++ id :: stack ++ cs) := by
  rw [List.append_assoc, List.append_assoc]
  refine List.Perm.append_left taken ?_
  rw [List.singleton_append, List.cons_append]
  exact (List.perm_append_comm.trans ((List.reverse_perm cs).append_left stack)).cons id

theorem Swept.turn (h : Rooted n parent children) {taken stack : List Nat} {id : Nat}
    (hs : Swept n parent taken (id :: stack)) :
    Swept n parent (taken ++ [id]) ((children id).reverse ++ stack) := by
  have hperm := perm_turn taken stack (children id) id
  have hid : id < n := hs.lt id (List.mem_append_right _ List.mem_cons_self)
  have hfresh : id ∉ taken := fun hmem =>
    (List.nodup_append.mp hs.nodup).2.2 id hmem id List.mem_cons_self rfl
  have hnew : ∀ c, c ∈ children id → c ∉ taken ++ id :: stack := by
    intro c hc hold
    obtain ⟨hpos, hlt, hparent⟩ := (h.mem_children id c hid).mp hc
    exact hfresh (hparent ▸ (hs.mem c hpos hlt).mp hold)
  refine ⟨?_, fun x hx => ?_, ?_, fun x hpos hlt => ?_⟩
  · rw [hperm.nodup_iff]
    exact List.nodup_append.mpr ⟨hs.nodup, h.nodup id hid, fun a ha b hb hab =>
      hnew b hb (hab ▸ ha)⟩
  · rcases List.mem_append.mp (hperm.mem_iff.mp hx) with hx | hx
    · exact hs.lt x hx
    · exact ((h.mem_children id x hid).mp hx).2.1
  · exact hperm.mem_iff.mpr (List.mem_append_left _ hs.root)
  · rw [hperm.mem_iff, List.mem_append, hs.mem x hpos hlt, h.mem_children id x hid,
      List.mem_append, List.mem_singleton]
    simp only [hpos, hlt, true_and]

theorem Swept.length_le {taken stack : List Nat} (hs : Swept n parent taken stack) :
    taken.length + stack.length ≤ n := by
  have hsub : taken ++ stack ⊆ List.range n := fun x hx => List.mem_range.mpr (hs.lt x hx)
  have hle := (List.subperm_of_subset hs.nodup hsub).length_le
  rwa [List.length_append, List.length_range] at hle

/-- With an empty stack everything was taken: a node after its parent. -/
theorem Swept.mem_taken (h : Rooted n parent children) {taken : List Nat}
    (hs : Swept n parent taken []) {x : Nat} (hx : x < n) : x ∈ taken := by
  induction x using Nat.strongRecOn with
  | ind x ih =>
    have hroot := hs.root
    have hmem := hs.mem x
    rw [List.append_nil] at hroot hmem
    by_cases hpos : 0 < x
    · have hlt := h.parent_lt x hpos hx
      exact (hmem hpos hx).mpr (ih _ hlt (hlt.trans hx))
    · obtain rfl : x = 0 := Nat.eq_zero_of_not_pos hpos
      exact hroot

theorem Swept.perm_range (h : Rooted n parent children) {taken : List Nat}
    (hs : Swept n parent taken []) : (taken ++ []).Perm (List.range n) := by
  refine (List.perm_ext_iff_of_nodup hs.nodup List.nodup_range).mpr fun x => ?_
  rw [List.mem_range]
  exact ⟨hs.lt x, fun hx => List.mem_append_left [] (hs.mem_taken h hx)⟩

theorem Swept.visits (h : Rooted n parent children) {fuel : Nat} {taken stack : List Nat}
    (hs : Swept n parent taken stack) (hfuel : n ≤ taken.length + fuel) :
    ∃ order, visits children fuel stack = some order ∧
      (taken ++ order).Perm (List.range n) := by
  induction fuel generalizing taken stack with
  | zero =>
    cases stack with
    | nil => exact ⟨[], rfl, hs.perm_range h⟩
    | cons id stack =>
      have hle := hs.length_le
      rw [List.length_cons] at hle
      omega
  | succ fuel ih =>
    cases stack with
    | nil => exact ⟨[], rfl, hs.perm_range h⟩
    | cons id stack =>
      have hlen : n ≤ (taken ++ [id]).length + fuel := by
        rw [List.length_append, List.length_singleton]
        omega
      obtain ⟨order, hvisits, hperm⟩ := ih (hs.turn h) hlen
      refine ⟨id :: order, ?_, ?_⟩
      · rw [OneCollect.Theory.visits, hvisits, Option.map_some]
      · rwa [List.append_assoc, List.singleton_append] at hperm

/-- **Traversal.** The loop takes every node once, in as many turns as there are nodes. -/
theorem visits_perm (h : Rooted n parent children) :
    ∃ order, visits children n [0] = some order ∧ order.Perm (List.range n) := by
  obtain ⟨order, hvisits, hperm⟩ := h.swept_init.visits h (Nat.le_add_left n _)
  exact ⟨order, hvisits, by rwa [List.nil_append] at hperm⟩

/-- One more leaf. -/
theorem grow (h : Rooted n parent children) {p : Nat} (hp : p < n) {parent' : Nat → Nat}
    {children' : Nat → List Nat} (hparent : ∀ i < n, parent' i = parent i) (hnew : parent' n = p)
    (hchildren : ∀ i < n, children' i = if i = p then children i ++ [n] else children i)
    (hleaf : children' n = []) : Rooted (n + 1) parent' children' where
  pos := Nat.succ_pos n
  parent_lt := fun c hpos hlt => by
    rcases Nat.lt_succ_iff_lt_or_eq.mp hlt with hlt | rfl
    · rw [hparent c hlt]
      exact h.parent_lt c hpos hlt
    · rw [hnew]
      exact hp
  nodup := fun i hi => by
    rcases Nat.lt_succ_iff_lt_or_eq.mp hi with hi | rfl
    · have hold : n ∉ children i := fun hmem =>
        Nat.lt_irrefl n ((h.mem_children i n hi).mp hmem).2.1
      rw [hchildren i hi]
      split
      · exact List.nodup_append.mpr ⟨h.nodup i hi, List.nodup_singleton n, fun a ha b hb hab =>
          hold (List.mem_singleton.mp hb ▸ hab ▸ ha)⟩
      · exact h.nodup i hi
    · rw [hleaf]
      exact List.nodup_nil
  mem_children := fun i c hi => by
    rcases Nat.lt_succ_iff_lt_or_eq.mp hi with hi | rfl
    · have hold := h.mem_children i c hi
      have hmem : c ∈ children' i ↔ c ∈ children i ∨ i = p ∧ c = n := by
        rw [hchildren i hi]
        split
        · rename_i heq
          simp [heq]
        · rename_i hne
          simp [hne]
      rw [hmem, hold]
      constructor
      · rintro (⟨hpos, hlt, hc⟩ | ⟨rfl, rfl⟩)
        · exact ⟨hpos, Nat.lt_succ_of_lt hlt, (hparent c hlt).trans hc⟩
        · exact ⟨h.pos, Nat.lt_succ_self c, hnew⟩
      · rintro ⟨hpos, hlt, hc⟩
        rcases Nat.lt_succ_iff_lt_or_eq.mp hlt with hlt | rfl
        · exact Or.inl ⟨hpos, hlt, (hparent c hlt).symm.trans hc⟩
        · exact Or.inr ⟨hc.symm.trans hnew, rfl⟩
    · rw [hleaf]
      refine iff_of_false List.not_mem_nil ?_
      rintro ⟨hpos, hlt, hc⟩
      rcases Nat.lt_succ_iff_lt_or_eq.mp hlt with hlt | rfl
      · have hparent_lt := h.parent_lt c hpos hlt
        rw [← hparent c hlt, hc] at hparent_lt
        omega
      · omega

/-! ## Up to the root -/

theorem ancestry_of_le (h : Rooted n parent children) {fuel id : Nat} (hid : id < n)
    (hfuel : id ≤ fuel) : ancestry parent fuel id = lineage parent id := by
  unfold lineage
  induction id using Nat.strongRecOn generalizing fuel with
  | ind id ih =>
    cases fuel with
    | zero =>
      obtain rfl : id = 0 := Nat.le_zero.mp hfuel
      rfl
    | succ fuel =>
      cases id with
      | zero => rfl
      | succ id =>
        have hlt := h.parent_lt (id + 1) (Nat.succ_pos id) hid
        have hle : parent (id + 1) ≤ id := Nat.le_of_lt_succ hlt
        rw [ancestry, ancestry, if_neg (Nat.succ_ne_zero id), if_neg (Nat.succ_ne_zero id),
          ih _ hlt (hlt.trans hid) (hle.trans (Nat.le_of_succ_le_succ hfuel)),
          ih _ hlt (hlt.trans hid) hle]

theorem lineage_zero : lineage parent 0 = [] := rfl

/-- Only the parents of the nodes count. -/
theorem ancestry_congr (h : Rooted n parent children) {parent' : Nat → Nat}
    (hparent : ∀ i < n, parent' i = parent i) (fuel : Nat) {id : Nat} (hid : id < n) :
    ancestry parent' fuel id = ancestry parent fuel id := by
  induction fuel generalizing id with
  | zero => rfl
  | succ fuel ih =>
    rw [ancestry, ancestry, hparent id hid]
    by_cases hzero : id = 0
    · rw [if_pos hzero, if_pos hzero]
    · have hlt := h.parent_lt id (Nat.pos_of_ne_zero hzero) hid
      rw [if_neg hzero, if_neg hzero, ih (hlt.trans hid)]

theorem lineage_congr (h : Rooted n parent children) {parent' : Nat → Nat}
    (hparent : ∀ i < n, parent' i = parent i) {id : Nat} (hid : id < n) :
    lineage parent' id = lineage parent id :=
  h.ancestry_congr hparent id hid

theorem lineage_of_pos (h : Rooted n parent children) {id : Nat} (hpos : 0 < id) (hid : id < n) :
    lineage parent id = id :: lineage parent (parent id) := by
  have hlt := h.parent_lt id hpos hid
  obtain ⟨k, rfl⟩ := Nat.exists_eq_succ_of_ne_zero (Nat.ne_of_gt hpos)
  rw [← h.ancestry_of_le (hlt.trans hid) (Nat.le_of_lt_succ hlt), lineage, ancestry,
    if_neg (Nat.succ_ne_zero k)]

theorem lineage_mem (h : Rooted n parent children) {id x : Nat} (hid : id < n)
    (hx : x ∈ lineage parent id) : 0 < x ∧ x ≤ id := by
  induction id using Nat.strongRecOn with
  | ind id ih =>
    by_cases hpos : 0 < id
    · have hlt := h.parent_lt id hpos hid
      rw [h.lineage_of_pos hpos hid, List.mem_cons] at hx
      rcases hx with rfl | hx
      · exact ⟨hpos, le_refl x⟩
      · obtain ⟨hx, hle⟩ := ih _ hlt (hlt.trans hid) hx
        exact ⟨hx, hle.trans hlt.le⟩
    · obtain rfl : id = 0 := Nat.eq_zero_of_not_pos hpos
      exact absurd hx List.not_mem_nil

end Rooted

/-! ## The loop -/

section Loop

variable {ν σ : Type}

/-- `while let Some(id) = stack.pop()`, with a body for the node and its children put on the
stack. -/
def popLoop (nodes : List ν) (children : ν → List Nat) (body : σ → Nat → ν → Exec σ) :
    (fuel : Nat) → (stack : List Nat) → σ → Exec σ
  | _, [], s => .ok s
  | 0, _ :: _, _ => panicked
  | fuel + 1, id :: stack, s => do
    let node ← getAt nodes id
    let s ← body s id node
    popLoop nodes children body fuel ((children node).reverse ++ stack) s

/-- The children of the node of a number. -/
def childrenAt (nodes : List ν) (children : ν → List Nat) (id : Nat) : List Nat :=
  (nodes[id]?.map children).getD []

/-- The loop runs its body in the order of the visits. -/
theorem popLoop_eq {nodes : List ν} {children : ν → List Nat} {fuel : Nat} {stack order : List Nat}
    (h : visits (childrenAt nodes children) fuel stack = some order)
    (hlt : ∀ id ∈ order, id < nodes.length) (body : σ → Nat → ν → Exec σ) (s : σ) :
    popLoop nodes children body fuel stack s =
      order.foldlM (fun s id => getAt nodes id >>= body s id) s := by
  induction fuel generalizing stack order s with
  | zero =>
    cases stack with
    | nil =>
      cases h
      rfl
    | cons id stack => cases h
  | succ fuel ih =>
    cases stack with
    | nil =>
      cases h
      rfl
    | cons id stack =>
      obtain ⟨order, hrest, rfl⟩ := Option.map_eq_some_iff.mp h
      obtain ⟨hid, hlt⟩ := List.forall_mem_cons.mp hlt
      have hget : nodes[id]? = some nodes[id] := List.getElem?_eq_getElem hid
      rw [childrenAt, hget, Option.map_some, Option.getD_some] at hrest
      rw [popLoop, List.foldlM_cons, getAt_eq_ok.mpr hget, ok_bind, ok_bind]
      cases hbody : body s id nodes[id] with
      | error fault => rfl
      | ok s =>
        rw [ok_bind, ok_bind]
        exact ih hrest hlt s

end Loop

end OneCollect.Theory
