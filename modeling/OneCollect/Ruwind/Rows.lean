import OneCollect.Ruwind.Walk
import OneCollect.Theory.Pointwise

/-! The row of an address does not depend on what was looked up before: neither on the
entries that are parsed already (`Coherent`, `getFrameOffset_eq`) nor on the offsets an
earlier row left (`unwindToCfa_eq`). -/

namespace OneCollect.Ruwind
open Theory

/-! ## The cache of entries -/

namespace FrameOffsets

variable {accessor : ModuleAccessor} {key : ModuleKey}

/-- An entry of the table as it was read, or with its rows. -/
def Entry (accessor : ModuleAccessor) (key : ModuleKey) (original cached : FrameOffset) : Prop :=
  cached = original ∨ ensureParsed accessor key original = .ok cached

/-- A filled cache holds the entries of the table. -/
def Coherent (accessor : ModuleAccessor) (key : ModuleKey) (self : FrameOffsets) : Prop :=
  self.filled = true → ∃ table, load accessor key = .ok table ∧
    List.Forall₂ (Entry accessor key) table self.frameOffsets

/-- Parsing an entry leaves where it starts and where its FDE is. -/
theorem ensureParsed_keeps {offset offset' : FrameOffset}
    (h : ensureParsed accessor key offset = .ok offset') :
    offset'.rva = offset.rva ∧ offset'.fde = offset.fde := by
  unfold ensureParsed at h
  split at h
  · split at h
    · cases h
      exact ⟨rfl, rfl⟩
    · split at h
      · rename_i hload
        cases h
        obtain ⟨_, _, _, _, -, -, -, rfl⟩ := FrameOffset.loadRules_eq_ok.mp hload
        exact ⟨rfl, rfl⟩
      · cases h
        exact ⟨rfl, rfl⟩
      · cases h
  · cases h
    exact ⟨rfl, rfl⟩

theorem Entry.rva {original cached : FrameOffset} (h : Entry accessor key original cached) :
    cached.rva = original.rva := by
  obtain rfl | hparsed := h
  · rfl
  · exact (ensureParsed_keeps hparsed).1

/-- Parsing goes on from where the cache is. -/
theorem Entry.ensureParsed {original cached parsed : FrameOffset}
    (h : Entry accessor key original cached)
    (hparsed : FrameOffsets.ensureParsed accessor key original = .ok parsed) :
    FrameOffsets.ensureParsed accessor key cached = .ok parsed := by
  obtain rfl | hcached := h
  · exact hparsed
  · rw [hparsed] at hcached
    cases hcached
    have hstate := ensureParsed_parsed hparsed
    rw [FrameOffsets.ensureParsed, hstate, if_neg Bool.false_ne_true]

theorem forall₂_entry_refl (table : List FrameOffset) :
    List.Forall₂ (Entry accessor key) table table := by
  induction table with
  | nil => exact .nil
  | cons offset table ih => exact .cons (Or.inl rfl) ih

/-- The search looks at the starts of the entries only. -/
theorem find_congr {xs ys : List FrameOffset}
    (h : xs.map FrameOffset.rva = ys.map FrameOffset.rva) (rva : Nat) :
    FrameOffset.find rva xs = FrameOffset.find rva ys := by
  have hpoint : ∀ zs : List FrameOffset,
      partitionPoint (fun offset => decide (offset.rva ≤ rva)) zs =
        partitionPoint (fun start => decide (start ≤ rva)) (zs.map FrameOffset.rva) := by
    intro zs
    unfold partitionPoint
    rw [List.takeWhile_map, List.length_map]
    rfl
  have hnil : xs = [] ↔ ys = [] := by
    rw [← List.map_eq_nil_iff (f := FrameOffset.rva), h, List.map_eq_nil_iff]
  unfold FrameOffset.find
  rw [hpoint xs, hpoint ys, h]
  by_cases hempty : ys = []
  · rw [if_pos hempty, if_pos (hnil.mpr hempty)]
  · rw [if_neg hempty, if_neg (mt hnil.mp hempty)]
    generalize partitionPoint _ _ - 1 = i
    have hget : (xs[i]?).map FrameOffset.rva = (ys[i]?).map FrameOffset.rva := by
      rw [← List.getElem?_map, ← List.getElem?_map, h]
    cases hx : xs[i]? with
    | none =>
      rw [hx] at hget
      have hy : ys[i]? = none := by simpa using hget.symm
      simp only [hx, hy]
    | some x =>
      rw [hx] at hget
      obtain ⟨y, hy, hrva⟩ := Option.map_eq_some_iff.mp hget.symm
      simp only [hx, hy, hrva]

theorem starts_eq {table cached : List FrameOffset}
    (h : List.Forall₂ (Entry accessor key) table cached) :
    cached.map FrameOffset.rva = table.map FrameOffset.rva := by
  induction h with
  | nil => rfl
  | cons hentry _ ih => rw [List.map_cons, List.map_cons, hentry.rva, ih]

/-- One entry of the cache parsed: it still holds the table. -/
theorem forall₂_entry_set {table cached : List FrameOffset}
    (h : List.Forall₂ (Entry accessor key) table cached) {i : Nat} {original parsed : FrameOffset}
    (hget : table[i]? = some original)
    (hparsed : ensureParsed accessor key original = .ok parsed) :
    List.Forall₂ (Entry accessor key) table (cached.set i parsed) := by
  have hset := forall₂_set h (Or.inr hparsed : Entry accessor key original parsed) i
  rwa [set_of_getElem? hget] at hset

/-- The cache after its first use. -/
theorem fill_coherent {self filled : FrameOffsets} (hself : self.Coherent accessor key)
    (h : self.fill accessor key = .ok filled) :
    filled.filled = true ∧ filled.Coherent accessor key := by
  unfold fill at h
  by_cases hfilled : self.filled = true
  · rw [if_pos hfilled] at h
    cases h
    exact ⟨hfilled, hself⟩
  · rw [if_neg hfilled] at h
    obtain ⟨table, hload, h⟩ := bind_eq_ok.mp h
    cases h
    exact ⟨rfl, fun _ => ⟨table, hload, forall₂_entry_refl table⟩⟩

theorem fill_eq_ok {self : FrameOffsets} {table : List FrameOffset}
    (hload : load accessor key = .ok table) : ∃ filled, self.fill accessor key = .ok filled := by
  unfold fill
  by_cases hfilled : self.filled = true
  · exact ⟨self, if_pos hfilled⟩
  · exact ⟨⟨table, true⟩, by rw [if_neg hfilled, hload, ok_bind]⟩

/-- What a lookup does. It finds no entry, or it parses the one that it finds, and answers with it
if it is valid and the address is not behind its range. -/
theorem getFrameOffset_cases {checks : OverflowChecks} {self self' : FrameOffsets} {rva : Nat}
    {answer : Option FrameOffset}
    (h : getFrameOffset checks accessor self key rva = .ok (answer, self')) :
    ∃ filled, self.fill accessor key = .ok filled ∧
      ((answer = none ∧ self' = filled) ∨
        ∃ index offset parsed, FrameOffset.find rva filled.frameOffsets = some index ∧
          getAt filled.frameOffsets index = .ok offset ∧
          ensureParsed accessor key offset = .ok parsed ∧
          self' = { filled with frameOffsets := filled.frameOffsets.set index parsed } ∧
          ∀ loaded, answer = some loaded → loaded = parsed ∧ (parsed.pcSize ≠ 0 →
            ∃ stop, checks.addU64 parsed.rva parsed.pcSize = .ok stop ∧ rva < stop)) := by
  unfold getFrameOffset at h
  obtain ⟨filled, hfill, h⟩ := bind_eq_ok.mp h
  refine ⟨filled, hfill, ?_⟩
  cases hfind : FrameOffset.find rva filled.frameOffsets with
  | none =>
    rw [hfind] at h
    cases h
    exact Or.inl ⟨rfl, rfl⟩
  | some index =>
    rw [hfind] at h
    obtain ⟨offset, hget, h⟩ := bind_eq_ok.mp h
    obtain ⟨parsed, hparsed, h⟩ := bind_eq_ok.mp h
    refine Or.inr ⟨index, offset, parsed, rfl, hget, hparsed, ?_⟩
    by_cases hvalid : parsed.isValid = true
    · simp only [if_pos hvalid] at h
      by_cases hsize : parsed.pcSize ≠ 0
      · simp only [if_pos hsize] at h
        obtain ⟨stop, hstop, h⟩ := bind_eq_ok.mp h
        by_cases hgap : rva ≥ stop
        · rw [if_pos hgap] at h
          cases h
          refine ⟨rfl, fun loaded h => ?_⟩
          cases h
        · rw [if_neg hgap] at h
          cases h
          refine ⟨rfl, fun loaded h => ?_⟩
          cases h
          exact ⟨rfl, fun _ => ⟨stop, hstop, Nat.lt_of_not_le hgap⟩⟩
      · simp only [if_neg hsize] at h
        cases h
        refine ⟨rfl, fun loaded h => ?_⟩
        cases h
        exact ⟨rfl, fun hne => absurd hne hsize⟩
    · simp only [if_neg hvalid] at h
      cases h
      refine ⟨rfl, fun loaded h => ?_⟩
      cases h

/-- **A lookup** leaves a coherent cache. -/
theorem getFrameOffset_coherent {checks : OverflowChecks} {self self' : FrameOffsets}
    (hself : self.Coherent accessor key) {rva : Nat} {answer : Option FrameOffset}
    (h : getFrameOffset checks accessor self key rva = .ok (answer, self')) :
    self'.Coherent accessor key := by
  obtain ⟨filled, hfill, ⟨-, rfl⟩ | ⟨index, entry, parsed, -, hget, hparsed, rfl, -⟩⟩ :=
    getFrameOffset_cases h
  · exact (fill_coherent hself hfill).2
  · obtain ⟨hfilled, hcoherent⟩ := fill_coherent hself hfill
    obtain ⟨table, hload, hentries⟩ := hcoherent hfilled
    obtain ⟨original, horiginal, hrel⟩ := forall₂_getElem? hentries (getAt_eq_ok.mp hget)
    have horig : ensureParsed accessor key original = .ok parsed := by
      obtain rfl | hentry := hrel
      · exact hparsed
      · rw [FrameOffsets.ensureParsed, ensureParsed_parsed hentry, if_neg Bool.false_ne_true]
          at hparsed
        cases hparsed
        exact hentry
    exact fun _ => ⟨table, hload, forall₂_entry_set hentries horiginal horig⟩

/-- **The lookup** answers from every coherent cache as from an empty one. -/
theorem getFrameOffset_eq {checks : OverflowChecks} {self : FrameOffsets}
    (hself : self.Coherent accessor key) {rva : Nat} {answer : Option FrameOffset}
    {fresh : FrameOffsets}
    (h : getFrameOffset checks accessor {} key rva = .ok (answer, fresh)) :
    ∃ self', getFrameOffset checks accessor self key rva = .ok (answer, self') := by
  unfold getFrameOffset at h
  obtain ⟨filled, hfill, h⟩ := bind_eq_ok.mp h
  obtain ⟨table, hload, hfilled⟩ := bind_eq_ok.mp hfill
  cases hfilled
  obtain ⟨cached, hcached⟩ := fill_eq_ok hload
  obtain ⟨hfilled, hcoherent⟩ := fill_coherent hself hcached
  obtain ⟨table', hload', hentries⟩ := hcoherent hfilled
  rw [hload] at hload'
  cases hload'
  unfold getFrameOffset
  rw [hcached, ok_bind]
  dsimp only at h ⊢
  rw [find_congr (starts_eq hentries)]
  cases hfind : FrameOffset.find rva table with
  | none =>
    rw [hfind] at h
    cases h
    exact ⟨_, rfl⟩
  | some index =>
    rw [hfind] at h
    obtain ⟨original, hget, h⟩ := bind_eq_ok.mp h
    obtain ⟨parsed, hparsed, h⟩ := bind_eq_ok.mp h
    obtain ⟨entry, hentry, hrel⟩ :=
      forall₂_getElem? (List.Forall₂.flip hentries) (getAt_eq_ok.mp hget)
    simp only [getAt_eq_ok.mpr hentry, ok_bind, Entry.ensureParsed hrel hparsed]
    by_cases hvalid : parsed.isValid = true
    · simp only [if_pos hvalid] at h ⊢
      by_cases hsize : parsed.pcSize ≠ 0
      · simp only [if_pos hsize] at h ⊢
        obtain ⟨stop, hstop, h⟩ := bind_eq_ok.mp h
        rw [hstop, ok_bind]
        by_cases hgap : rva ≥ stop
        · rw [if_pos hgap] at h ⊢
          cases h
          exact ⟨_, rfl⟩
        · rw [if_neg hgap] at h ⊢
          cases h
          exact ⟨_, rfl⟩
      · simp only [if_neg hsize] at h ⊢
        cases h
        exact ⟨_, rfl⟩
    · simp only [if_neg hvalid] at h ⊢
      cases h
      exact ⟨_, rfl⟩

end FrameOffsets

/-! ### Over whole walks -/

namespace Unwinder

variable {accessor : ModuleAccessor}

def Coherent (accessor : ModuleAccessor) (unwinder : Unwinder) : Prop :=
  ∀ key, (unwinder.frameCache key).Coherent accessor key

theorem update_coherent {cache : ModuleKey → FrameOffsets}
    (h : ∀ key, (cache key).Coherent accessor key) {key : ModuleKey} {frames : FrameOffsets}
    (hframes : frames.Coherent accessor key) (key' : ModuleKey) :
    (Function.update cache key frames key').Coherent accessor key' := by
  by_cases hkey : key' = key
  · subst hkey
    rw [Function.update_self]
    exact hframes
  · rw [Function.update_of_ne hkey]
    exact h key'

theorem coherent_assumed (checks : OverflowChecks) (stackData : Bytes) :
    Assumed False checks accessor stackData
      (fun cache => ∀ key, (cache key).Coherent accessor key) where
  checks_off := False.elim
  stack_lt := False.elim
  lookup := by
    intro cache key rva hcache
    have hends : Ends False ((cache key).getFrameOffset checks accessor key rva) _ :=
      FrameOffsets.getFrameOffset_ends False.elim False.elim False.elim rva
    obtain ⟨⟨offset, frames⟩, hok, -⟩ | hpanic := hends
    · rw [hok]
      exact ends_ok (update_coherent hcache (FrameOffsets.getFrameOffset_coherent (hcache key) hok))
    · exact Or.inr hpanic

/-- The unwinders a caller comes to hold: a new one, and one that has unwound with the
accessor. -/
inductive Used (accessor : ModuleAccessor) : Unwinder → Prop where
  | new : Used accessor Unwinder.new
  | unwound {unwinder checks machine pid rip rbp rsp stackData stackFrames unwound}
      (h : Used accessor unwinder)
      (hok : Machine.unwindProcess checks machine pid unwinder accessor rip rbp rsp stackData
        stackFrames = .ok (some unwound)) :
      Used accessor unwound.walk.unwinder

theorem Used.coherent {unwinder : Unwinder} (h : Used accessor unwinder) :
    unwinder.Coherent accessor := by
  induction h with
  | new => exact fun _ hfilled => nomatch hfilled
  | @unwound unwinder checks machine pid rip rbp rsp stackData stackFrames unwound _ hok ih =>
    cases hmapped : machine.processes pid with
    | none =>
      unfold Machine.unwindProcess at hok
      rw [hmapped] at hok
      cases hok
      exact ih
    | some process =>
      obtain ⟨unwound', heq, hended⟩ := (machine.unwindProcess_ends
        (coherent_assumed checks stackData) hmapped ih rip rbp rsp stackFrames).of_ok hok
      cases heq
      exact hended.2.cache

end Unwinder

/-! ## The offsets -/

theorem getLsbD_bit {reg : Nat} (h : reg < 64) (r : Nat) :
    ((1 : BitVec 64) <<< reg).getLsbD r = decide (r = reg) := by
  rw [BitVec.getLsbD_shiftLeft]
  by_cases hr : r = reg
  · subst hr
    simp [h]
  · have hone : (1 : BitVec 64).getLsbD (r - reg) = true ↔ r - reg = 0 := by
      simp [BitVec.getLsbD_one]
    by_cases hlt : r < reg
    · simp [hr, hlt]
    · have hzero : (1 : BitVec 64).getLsbD (r - reg) = false :=
        Bool.eq_false_iff.mpr (mt hone.mp (by omega))
      rw [hzero, Bool.and_false, decide_eq_false hr]

theorem and_bit_eq_zero_iff {mask : BitVec 64} {reg : Nat} (h : reg < 64) :
    mask &&& ((1 : BitVec 64) <<< reg) = 0 ↔ mask.getLsbD reg = false := by
  constructor
  · intro hzero
    have hbit := congrArg (fun word : BitVec 64 => word.getLsbD reg) hzero
    simp only [BitVec.getLsbD_and, getLsbD_bit h, decide_true, Bool.and_true] at hbit
    rw [hbit]
    exact BitVec.getLsbD_zero
  · intro hbit
    refine BitVec.eq_of_getLsbD_eq fun r hr => ?_
    rw [BitVec.getLsbD_and, getLsbD_bit h]
    by_cases hreg : r = reg
    · subst hreg
      simp [hbit]
    · simp [hreg]

namespace FrameOffset

/-- One row for two vectors of offsets: they agree where the row has an offset. -/
structure SameRow (acc acc' : UnwindCFA × List Int) : Prop where
  cfa : acc'.1 = acc.1
  length : acc'.2.length = acc.2.length
  slots : ∀ r, acc.1.offMask.getLsbD r = true → acc'.2[r]? = acc.2[r]?

variable {maxReg : Nat} {acc acc' out : UnwindCFA × List Int}

theorem replayReg_same (h : SameRow acc acc') {regState : RegState}
    (hout : replayReg maxReg acc regState = .ok out) (hmax : maxReg ≤ acc.2.length) :
    ∃ out', replayReg maxReg acc' regState = .ok out' ∧ SameRow out out' ∧
      out.2.length = acc.2.length := by
  obtain ⟨cfa, offsets⟩ := acc
  obtain ⟨cfa', offsets'⟩ := acc'
  obtain ⟨hcfa, hlen, hslots⟩ := h
  cases hcfa
  unfold replayReg at hout ⊢
  dsimp only at hout hlen hslots hmax ⊢
  by_cases hreg : regState.reg ≥ maxReg
  · rw [if_pos hreg] at hout ⊢
    cases hout
    exact ⟨_, rfl, ⟨rfl, hlen, hslots⟩, rfl⟩
  rw [if_neg hreg] at hout ⊢
  by_cases hundef : regState.valType = .undefined
  · rw [if_pos hundef] at hout ⊢
    obtain ⟨bit, hbit, hout⟩ := bind_eq_ok.mp hout
    cases hout
    rw [hbit]
    refine ⟨_, rfl, ⟨rfl, hlen, fun r hr => hslots r ?_⟩, rfl⟩
    rw [BitVec.getLsbD_and, Bool.and_eq_true] at hr
    exact hr.1
  rw [if_neg hundef] at hout ⊢
  by_cases hoff : regState.valType ≠ .offset
  · rw [if_pos hoff] at hout ⊢
    cases hout
    exact ⟨_, rfl, ⟨rfl, hlen, hslots⟩, rfl⟩
  rw [if_neg hoff] at hout ⊢
  obtain ⟨bit, hbit, hout⟩ := bind_eq_ok.mp hout
  cases hout
  obtain ⟨hlt, rfl⟩ := guarded_eq_ok.mp hbit
  rw [hbit]
  refine ⟨_, rfl, ⟨rfl, by simp only [List.length_set, hlen], fun r hr => ?_⟩, List.length_set⟩
  rw [BitVec.getLsbD_or, getLsbD_bit hlt, Bool.or_eq_true, decide_eq_true_iff] at hr
  by_cases hr' : regState.reg = r
  · subst hr'
    rw [List.getElem?_set_self (by omega), List.getElem?_set_self (by omega)]
  · rw [List.getElem?_set_ne hr', List.getElem?_set_ne hr']
    exact hslots r (hr.resolve_right fun h => hr' h.symm)

theorem replayRegs_same (regStates : List RegState) (h : SameRow acc acc')
    (hout : regStates.foldlM (replayReg maxReg) acc = .ok out) (hmax : maxReg ≤ acc.2.length) :
    ∃ out', regStates.foldlM (replayReg maxReg) acc' = .ok out' ∧ SameRow out out' ∧
      out.2.length = acc.2.length := by
  induction regStates generalizing acc acc' with
  | nil =>
    cases hout
    exact ⟨acc', rfl, h, rfl⟩
  | cons regState regStates ih =>
    rw [List.foldlM_cons] at hout ⊢
    obtain ⟨next, hnext, hout⟩ := bind_eq_ok.mp hout
    obtain ⟨next', hnext', hsame, hlen⟩ := replayReg_same h hnext hmax
    obtain ⟨out', hout', hsame', hlen'⟩ := ih hsame hout (by omega)
    exact ⟨out', by rw [hnext', ok_bind, hout'], hsame', hlen'.trans hlen⟩

theorem replay_same (rva : Nat) (states : List FrameState) (h : SameRow acc acc')
    (hout : replay maxReg rva states acc = .ok out) (hmax : maxReg ≤ acc.2.length) :
    ∃ out', replay maxReg rva states acc' = .ok out' ∧ SameRow out out' := by
  induction states generalizing acc acc' with
  | nil =>
    cases hout
    exact ⟨acc', rfl, h⟩
  | cons state states ih =>
    unfold replay at hout ⊢
    split at hout
    · rename_i hrva
      cases hout
      exact ⟨acc', by rw [if_pos hrva], h⟩
    · rename_i hrva
      rw [if_neg hrva]
      obtain ⟨next, hnext, hout⟩ := bind_eq_ok.mp hout
      have hstart : SameRow ({ acc.1 with reg := state.cfaReg, off := state.cfaOff }, acc.2)
          ({ acc'.1 with reg := state.cfaReg, off := state.cfaOff }, acc'.2) :=
        ⟨by rw [h.cfa], h.length, h.slots⟩
      obtain ⟨next', hnext', hsame, hlen⟩ := replayRegs_same _ hstart hnext hmax
      obtain ⟨out', hout', hsame'⟩ := ih hsame hout (by rw [hlen]; exact hmax)
      exact ⟨out', by rw [hnext', ok_bind, hout'], hsame'⟩

/-- **The row** of an address is the same over every vector of offsets. -/
theorem unwindToCfa_eq {self : FrameOffset} {regOffsets regOffsets' : List Int} {rva : Nat}
    (h : self.unwindToCfa regOffsets rva = .ok out)
    (hlen : regOffsets'.length = regOffsets.length) :
    ∃ out', self.unwindToCfa regOffsets' rva = .ok out' ∧ SameRow out out' := by
  unfold unwindToCfa at h ⊢
  rw [hlen]
  have hstart : SameRow ({}, regOffsets) ({}, regOffsets') :=
    ⟨rfl, hlen, fun r hr => by simp at hr⟩
  exact replay_same rva _ hstart h (Nat.mod_le _ _)

end FrameOffset

end OneCollect.Ruwind
