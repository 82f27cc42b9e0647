import BlockDelta.Proofs.Signature.Bitwise
import BlockDelta.Proofs.Signature.WellFormed

/-!
# How a basis is cut when no block length is forced

The blocks of a cut are as long as said but for the last, and make up the basis.
A basis is cut unless its blocks cannot be numbered. Where its blocks are not of
the longest length it is far too short for that, so the bound on the basis is
the one of the longest blocks.
-/

namespace BlockDelta.Layout

/-- The lengths of the blocks in their order. -/
def lengths (layout : Layout) : List Nat :=
  (List.range layout.blockCount).filterMap layout.lengthAt?

/-- A layout cuts a basis of a length into blocks of a length. -/
structure Cuts (layout : Layout) (total size : Nat) : Prop where
  /-- The blocks have the length. -/
  blockLength : layout.blockLength.toNat = size
  /-- Before another one a block is of full length. -/
  full : ∀ index, index + 1 < layout.blockCount → layout.lengthAt? index = some size
  /-- The last block is neither empty nor longer than that. -/
  last : ∀ index, index + 1 = layout.blockCount →
    ∃ length, layout.lengthAt? index = some length ∧ 1 ≤ length ∧ length ≤ size
  /-- The blocks make up the basis. -/
  whole : layout.lengths.sum = total

section

variable {total : Nat} {blockLength : BlockLength} {layout : Layout}

/-- The blocks that are counted make up the basis. -/
theorem sum_lengths_of_ofLength (cut : ofLength total blockLength = .ok layout) :
    layout.lengths.sum = total := by
  have every : layout.lengths = (List.range layout.blockCount).map fun index =>
      min blockLength.toNat (total - index * blockLength.toNat) := by
    rw [lengths, List.filterMap_eq_map_iff_forall_eq_some]
    exact fun index counted => lengthAt?_eq cut (List.mem_range.1 counted)
  have last := (lt_blockCount_iff cut layout.blockCount).not.1 (Nat.lt_irrefl _)
  rw [every, sum_lengths, Nat.min_eq_right (Nat.le_of_not_lt last)]

/-- A basis that is cut into blocks of a length is cut so. -/
theorem cuts_of_ofLength (cut : ofLength total blockLength = .ok layout) :
    layout.Cuts total blockLength.toNat := by
  refine ⟨?_, fun index another => ?_, fun index final => ?_, sum_lengths_of_ofLength cut⟩
  · obtain ⟨rfl, -⟩ := ofLength_eq_ok cut
    rfl
  · rw [lengthAt?_eq cut (Nat.lt_of_succ_lt another),
      Nat.min_eq_left (full_of_succ_lt cut another)]
  · have counted : index < layout.blockCount := by omega
    have left := (lt_blockCount_iff cut index).1 counted
    have positive := blockLength.positive
    exact ⟨_, lengthAt?_eq cut counted, by omega, Nat.min_le_left ..⟩

end

/-- A basis that no block length is forced on is cut into blocks of the derived length. -/
theorem exists_choose_none (basisLength : Nat) :
    ∃ blockLength : BlockLength, blockLength.toNat = derivedLength basisLength ∧
      choose basisLength none = ofLength basisLength blockLength := by
  obtain ⟨least, most⟩ := derivedLength_bounds basisLength
  have valid : 0 < derivedLength basisLength ∧ derivedLength basisLength < UInt32.size :=
    ⟨Nat.lt_of_lt_of_le (by decide) least, Nat.lt_of_le_of_lt most (by decide)⟩
  refine ⟨⟨derivedLength basisLength, valid.1, valid.2⟩, rfl, ?_⟩
  have sized : BlockLength.ofNat? (derivedLength basisLength) =
      some ⟨derivedLength basisLength, valid.1, valid.2⟩ := dif_pos valid
  simp only [choose, Option.getD_none, Option.isSome_none, Bool.false_and, Bool.false_eq_true,
    if_false, sized]

/-- As many blocks of the derived length as can be numbered reach over a basis when as many of the
longest length do. -/
theorem le_derivedLength_mul_iff (basisLength : Nat) :
    basisLength ≤ derivedLength basisLength * mostBlocks ↔
      basisLength ≤ longestLength * mostBlocks := by
  obtain ⟨least, most⟩ := derivedLength_bounds basisLength
  refine ⟨fun covered => Nat.le_trans covered (Nat.mul_le_mul_right _ most), fun covered => ?_⟩
  by_cases capped : derivedLength basisLength = longestLength
  · rwa [capped]
  -- the root is below the longest length, so the basis is shorter than this length squared
  have root : basisLength.sqrt < longestLength := by
    rw [derivedLength_eq] at capped
    have longest : longestLength = 2 ^ 17 := rfl
    omega
  calc basisLength
      ≤ longestLength * longestLength := Nat.le_of_lt (Nat.sqrt_lt.1 root)
    _ ≤ standardLength * mostBlocks := by decide
    _ ≤ derivedLength basisLength * mostBlocks := Nat.mul_le_mul_right _ least

/-- A basis that no block length is forced on is cut when as many blocks of the longest length as
can be numbered reach over it, and only then. -/
theorem exists_choose_none_iff (basisLength : Nat) :
    (∃ layout, choose basisLength none = .ok layout) ↔
      basisLength ≤ longestLength * mostBlocks := by
  obtain ⟨blockLength, length, chosen⟩ := exists_choose_none basisLength
  rw [← le_derivedLength_mul_iff, ← length, ← ceilDiv_le_iff_le_mul blockLength.positive,
    ← Nat.not_lt, ← ofLength_eq_error_iff, chosen]
  cases ofLength basisLength blockLength with
  | ok layout => simp
  | error error => simp

/-- The derived block length of a basis whose length is a word is found in words, and is the
standard length up to its square and from there on the root of the basis length, rounded down to a
multiple of eight, within the bounds. So it does not fall when the basis grows. A basis that no
block length is forced on is cut unless it is longer than the longest blocks that can be numbered,
and then into blocks of the derived length. -/
theorem derivedLength_rounded (basisLength : UInt64) :
    (∃ word, Bitwise.derivedLength? basisLength = some word ∧
      word.toNat = derivedLength basisLength.toNat) ∧
    derivedLength basisLength.toNat =
      (if basisLength.toNat ≤ 490000 then 700
      else min 131072 (max 700 (8 * (basisLength.toNat.sqrt / 8)))) ∧
    (∀ longer : UInt64, basisLength ≤ longer →
      derivedLength basisLength.toNat ≤ derivedLength longer.toNat) ∧
    (700 ≤ derivedLength basisLength.toNat ∧ derivedLength basisLength.toNat ≤ 131072) ∧
    ((∃ layout, choose basisLength.toNat none = .ok layout) ↔
      basisLength.toNat ≤ 131072 * (2 ^ 32 - 1)) ∧
    ∀ layout, choose basisLength.toNat none = .ok layout →
      layout.Cuts basisLength.toNat (derivedLength basisLength.toNat) := by
  refine ⟨Bitwise.derivedLength?_eq basisLength, ?_, fun longer most => ?_,
    derivedLength_bounds _, exists_choose_none_iff _, fun layout chosen => ?_⟩
  · split
    · rename_i short
      exact if_pos short
    · exact derivedLength_eq _
  · exact derivedLength_mono (UInt64.le_iff_toNat_le.1 most)
  · obtain ⟨blockLength, length, same⟩ := exists_choose_none basisLength.toNat
    rw [← length]
    exact cuts_of_ofLength (same ▸ chosen)

/-- Ten million bytes and one more, and one byte more than can be cut. -/
theorem derivedLength_rounded_scaled :
    Bitwise.derivedLength? 10000000 = some 3160 ∧
      derivedLength 10000000 ≤ derivedLength 10000001 ∧
      (∃ layout, choose 10000000 none = .ok layout ∧ layout.Cuts 10000000 3160) ∧
      ¬∃ layout, choose (131072 * (2 ^ 32 - 1) + 1) none = .ok layout := by
  obtain ⟨⟨word, found, same⟩, value, longer, -, cut, cuts⟩ := derivedLength_rounded 10000000
  obtain ⟨-, -, -, -, refused, -⟩ := derivedLength_rounded 562949953290241
  have root : (10000000 : UInt64).toNat.sqrt = 3162 :=
    (Nat.eq_sqrt.2 ⟨by decide, by decide⟩).symm
  rw [root] at value
  have length : derivedLength (10000000 : UInt64).toNat = 3160 := value
  have small : word = 3160 := UInt32.toNat_inj.1 (same.trans length)
  obtain ⟨layout, chosen⟩ := cut.2 (by decide)
  refine ⟨small ▸ found, longer 10000001 (by decide), ⟨layout, chosen, ?_⟩, ?_⟩
  · exact length ▸ cuts layout chosen
  · exact refused.not.2 (by decide)

end BlockDelta.Layout
