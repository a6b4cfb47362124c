import OneCollect.Theory.Bytes

/-! Blocks behind a header word whose low bits are the length of the block and whose high bits
its kind. A word of zero ends the sequence.

`visit` is the reader that goes from header to header. `visit_iff` says that it sees the blocks
that were written exactly when each length fits in the low bits. -/

namespace OneCollect.Theory

structure Block where
  kind : Nat
  body : List UInt8
  deriving DecidableEq, Repr

/-- The layout of a header: the bits of the length, and the bytes of the word. -/
structure Framing where
  bits : Nat
  width : Nat
  bits_le : 2 ^ bits ≤ 256 ^ width

namespace Framing

variable (F : Framing)

/-- The header word; a longer length runs into the bits of the kind. -/
def header (block : Block) : Nat :=
  block.body.length % 256 ^ F.width ||| block.kind <<< F.bits

def frame (block : Block) : List UInt8 := toLe F.width (F.header block) ++ block.body

def zeroWord : List UInt8 := toLe F.width 0

/-- A kind that fits in the word and is not zero. -/
def KindFits (kind : Nat) : Prop := 0 < kind ∧ (kind + 1) * 2 ^ F.bits ≤ 256 ^ F.width

instance (kind : Nat) : Decidable (F.KindFits kind) := inferInstanceAs (Decidable (_ ∧ _))

/-- The header says the length of the body and its kind. -/
def HeaderRight (block : Block) : Prop :=
  F.header block % 2 ^ F.bits = block.body.length ∧ F.header block / 2 ^ F.bits = block.kind

/-- The blocks that a reader sees that skips by the length in the header. -/
def visit : (fuel : Nat) → List UInt8 → Option (List Block)
  | 0, _ => none
  | fuel + 1, bytes =>
    if bytes.length < F.width then none
    else
      let word := fromLe (bytes.take F.width)
      let rest := bytes.drop F.width
      let len := word % 2 ^ F.bits
      if word = 0 then some []
      else if rest.length < len then none
      else (visit fuel (rest.drop len)).map (⟨word / 2 ^ F.bits, rest.take len⟩ :: ·)

variable {F} {block : Block}

theorem header_of_lt (h : block.body.length < 2 ^ F.bits) :
    F.header block = block.kind * 2 ^ F.bits + block.body.length := by
  rw [header, Nat.mod_eq_of_lt (lt_of_lt_of_le h F.bits_le), Nat.or_comm, Nat.shiftLeft_eq,
    Nat.mul_comm, ← Nat.two_pow_add_eq_or_of_lt h]

/-- **Headers.** A header is right exactly when the length fits. -/
theorem headerRight_iff : F.HeaderRight block ↔ block.body.length < 2 ^ F.bits := by
  constructor
  · rintro ⟨hlen, -⟩
    rw [← hlen]
    exact Nat.mod_lt _ (Nat.two_pow_pos _)
  · intro h
    have hpos : 0 < 2 ^ F.bits := Nat.two_pow_pos _
    rw [HeaderRight, header_of_lt h, Nat.mul_comm]
    exact ⟨by rw [Nat.mul_add_mod, Nat.mod_eq_of_lt h],
      by rw [Nat.mul_add_div hpos, Nat.div_eq_of_lt h, Nat.add_zero]⟩

theorem header_lt (hkind : F.KindFits block.kind) (h : block.body.length < 2 ^ F.bits) :
    F.header block < 256 ^ F.width := by
  have hle := hkind.2
  rw [Nat.succ_mul] at hle
  rw [header_of_lt h]
  omega

/-- One header in front, whatever it says. -/
theorem visit_header {word : Nat} (hword : word < 256 ^ F.width) (hpos : word ≠ 0)
    {bytes : List UInt8} (hlen : word % 2 ^ F.bits ≤ bytes.length) (fuel : Nat) :
    F.visit (fuel + 1) (toLe F.width word ++ bytes) =
      (F.visit fuel (bytes.drop (word % 2 ^ F.bits))).map
        (⟨word / 2 ^ F.bits, bytes.take (word % 2 ^ F.bits)⟩ :: ·) := by
  have htake : (toLe F.width word ++ bytes).take F.width = toLe F.width word :=
    List.take_left' (length_toLe _ _)
  have hdrop : (toLe F.width word ++ bytes).drop F.width = bytes :=
    List.drop_left' (length_toLe _ _)
  have hlength : ¬ (toLe F.width word ++ bytes).length < F.width := by
    rw [List.length_append, length_toLe]
    omega
  rw [visit, if_neg hlength, htake, hdrop]
  dsimp only
  rw [fromLe_toLe_of_lt hword, if_neg hpos, if_neg (not_lt.mpr hlen)]

/-- One block in front. -/
theorem visit_frame (hkind : F.KindFits block.kind) (h : block.body.length < 2 ^ F.bits)
    (fuel : Nat) (rest : List UInt8) :
    F.visit (fuel + 1) (F.frame block ++ rest) = (F.visit fuel rest).map (block :: ·) := by
  obtain ⟨hlen, hkind'⟩ := headerRight_iff.mpr h
  have hpos : 0 < F.header block := by
    have hpow : 0 < 2 ^ F.bits := Nat.two_pow_pos _
    have hmul := Nat.mul_pos hkind.1 hpow
    rw [header_of_lt h]
    omega
  have hle : F.header block % 2 ^ F.bits ≤ (block.body ++ rest).length := by
    rw [hlen, List.length_append]
    exact Nat.le_add_right _ _
  rw [frame, List.append_assoc, visit_header (header_lt hkind h) (Nat.pos_iff_ne_zero.mp hpos) hle,
    hlen, hkind', List.drop_left, List.take_left]

theorem visit_zeroWord (fuel : Nat) (rest : List UInt8) :
    F.visit (fuel + 1) (F.zeroWord ++ rest) = some [] := by
  have hword : (F.zeroWord ++ rest).take F.width = toLe F.width 0 := by
    rw [zeroWord, List.take_append_of_le_length (by simp)]
    exact List.take_of_length_le (by simp)
  have hlength : ¬ (F.zeroWord ++ rest).length < F.width := by
    rw [List.length_append, zeroWord, length_toLe]
    omega
  rw [visit, if_neg hlength, hword]
  dsimp only
  rw [fromLe_toLe, Nat.zero_mod, if_pos rfl]

/-- The blocks seen have lengths that fit. -/
theorem length_lt_of_visit {fuel : Nat} {bytes : List UInt8} {blocks : List Block}
    (h : F.visit fuel bytes = some blocks) : ∀ b ∈ blocks, b.body.length < 2 ^ F.bits := by
  induction fuel generalizing bytes blocks with
  | zero => cases h
  | succ fuel ih =>
    rw [visit] at h
    split at h
    · cases h
    · dsimp only at h
      split at h
      · cases h
        exact fun _ hb => absurd hb List.not_mem_nil
      · split at h
        · cases h
        · rename_i hlen
          obtain ⟨blocks, htail, rfl⟩ := Option.map_eq_some_iff.mp h
          refine List.forall_mem_cons.mpr ⟨?_, ih htail⟩
          rw [List.length_take]
          exact lt_of_le_of_lt (min_le_left _ _) (Nat.mod_lt _ (Nat.two_pow_pos _))

/-- The reader sees blocks whose lengths fit. -/
theorem visit_frames {blocks : List Block} (hkinds : ∀ b ∈ blocks, F.KindFits b.kind)
    (hall : ∀ b ∈ blocks, b.body.length < 2 ^ F.bits) {fuel : Nat} (hfuel : blocks.length < fuel)
    (rest : List UInt8) :
    F.visit fuel (blocks.flatMap F.frame ++ (F.zeroWord ++ rest)) = some blocks := by
  induction blocks generalizing fuel with
  | nil =>
    obtain ⟨fuel, rfl⟩ := Nat.exists_eq_succ_of_ne_zero (Nat.ne_of_gt hfuel)
    exact visit_zeroWord fuel rest
  | cons block blocks ih =>
    obtain ⟨hkind, hkinds⟩ := List.forall_mem_cons.mp hkinds
    obtain ⟨hlen, hall⟩ := List.forall_mem_cons.mp hall
    obtain ⟨fuel, rfl⟩ := Nat.exists_eq_succ_of_ne_zero (Nat.ne_zero_of_lt hfuel)
    rw [List.flatMap_cons, List.append_assoc, visit_frame hkind hlen,
      ih hkinds hall (Nat.lt_of_succ_lt_succ hfuel), Option.map_some]

/-- **Reading.** The reader sees the written blocks exactly when each length fits. -/
theorem visit_iff {blocks : List Block} (hkinds : ∀ b ∈ blocks, F.KindFits b.kind)
    (rest : List UInt8) :
    F.visit (blocks.length + 1) (blocks.flatMap F.frame ++ (F.zeroWord ++ rest)) = some blocks ↔
      ∀ b ∈ blocks, b.body.length < 2 ^ F.bits :=
  ⟨length_lt_of_visit, fun hall => visit_frames hkinds hall (Nat.lt_succ_self _) rest⟩

end Framing

end OneCollect.Theory
