import BlockDelta.Proofs.Signature.Root
import BlockDelta.Signature.Bitwise

/-!
# The block length in words is the derived block length

No step in words gives up. The highest bit of a root does not move beyond the
root, the square of a word fits twice its width, and what is handed on is no
longer than the longest block. A bit is set where the root known so far has
none, so setting it adds it, and taking it back leaves what was known. So the
words come to the numbers.
-/

namespace BlockDelta.Layout.Bitwise
variable {bit root : UInt64} {exponent : Nat}

/-- A word moved up by one place is doubled. -/
theorem doubled?_eq (word : UInt64) (fits : 2 * word.toNat < UInt64.size) :
    ∃ above, doubled? word = some above ∧ above.toNat = 2 * word.toNat := by
  refine ⟨word <<< 1, if_pos fits, ?_⟩
  rw [UInt64.toNat_shiftLeft]
  change word.toNat <<< 1 % UInt64.size = _
  rw [Nat.shiftLeft_eq, Nat.pow_one, Nat.mul_comm, Nat.mod_eq_of_lt fits]

/-- A word in twice its width is the same number. -/
theorem toNat_widened (word : UInt64) : (widened word).toNat = word.toNat := by
  have fits : word.toNat < 2 ^ 128 := Nat.lt_trans word.toNat_lt (by decide)
  rw [widened, BitVec.toNat_setWidth, UInt64.toNat_toBitVec, Nat.mod_eq_of_lt fits]

/-- The square of a word fits twice its width. -/
theorem squared?_eq (word : UInt64) :
    ∃ square, squared? word = some square ∧ square.toNat = word.toNat * word.toNat := by
  have fits : word.toNat * word.toNat < UInt64.size * UInt64.size :=
    Nat.mul_lt_mul'' word.toNat_lt word.toNat_lt
  refine ⟨_, if_pos fits, ?_⟩
  rw [BitVec.toNat_mul, toNat_widened]
  exact Nat.mod_eq_of_lt fits

/-- The lower half of a word that it is the whole of is the same number. -/
theorem narrowed?_eq (word : UInt64) (fits : word.toNat < UInt32.size) :
    ∃ half, narrowed? word = some half ∧ half.toNat = word.toNat := by
  refine ⟨word.toUInt32, if_pos fits, ?_⟩
  rw [UInt64.toNat_toUInt32]
  exact Nat.mod_eq_of_lt fits

/-- The greater of two words is the greater number. -/
theorem toNat_max (left right : UInt64) : (max left right).toNat = max left.toNat right.toNat := by
  change (if left ≤ right then right else left).toNat = _
  rw [Nat.max_def, apply_ite UInt64.toNat]
  rfl

/-- To set a bit below all bits of a word is to add it. -/
theorem toNat_or_bit (power : bit.toNat = 2 ^ exponent)
    (aligned : 2 ^ (exponent + 1) ∣ root.toNat) :
    (root ||| bit).toNat = root.toNat + bit.toNat := by
  obtain ⟨high, multiple⟩ := aligned
  have below : bit.toNat < 2 ^ (exponent + 1) := by
    rw [power]
    exact Nat.pow_lt_pow_right (by decide) (Nat.lt_succ_self _)
  rw [UInt64.toNat_or, multiple, Nat.two_pow_add_eq_or_of_lt below]

/-- To take back a bit that was set below all bits of a word leaves the word. -/
theorem or_bit_and_not (power : bit.toNat = 2 ^ exponent)
    (aligned : 2 ^ (exponent + 1) ∣ root.toNat) : (root ||| bit) &&& ~~~bit = root := by
  have apart : root &&& bit = 0 := by
    obtain ⟨high, multiple⟩ := aligned
    rw [← UInt64.toNat_inj, UInt64.toNat_and, multiple, power]
    refine Nat.eq_of_testBit_eq fun place => ?_
    rw [Nat.testBit_and, Nat.testBit_two_pow_mul, Nat.testBit_two_pow]
    grind
  rw [← UInt64.toBitVec_inj]
  ext place here
  have apartHere : (root.toBitVec[place] && bit.toBitVec[place]) = false := by
    rw [← BitVec.getElem_and, ← UInt64.toBitVec_and, apart]
    exact BitVec.getElem_zero here
  simp only [UInt64.toBitVec_and, UInt64.toBitVec_or, UInt64.toBitVec_not, BitVec.getElem_and,
    BitVec.getElem_or, BitVec.getElem_not]
  grind

/-- The highest bit of the root is found, above the one that is started with. -/
theorem rootBit?_eq (bit number : UInt64)
    (fits : bit.toNat * rootBit number.toNat < UInt64.size) :
    ∃ top, rootBit? bit number = some top ∧ top.toNat = bit.toNat * rootBit number.toNat := by
  fun_induction rootBit? bit number with
  | case1 bit number least =>
    have little : number.toNat / 4 = 0 := by rw [← toNat_shiftRight_two, least, UInt64.toNat_zero]
    refine ⟨bit, rfl, ?_⟩
    rw [rootBit, if_pos little, Nat.mul_one]
  | case2 bit number more ih =>
    have large : number.toNat / 4 ≠ 0 := by
      rw [← toNat_shiftRight_two]
      exact fun none => more (UInt64.toNat_inj.1 none)
    have place : bit.toNat * rootBit number.toNat =
        2 * bit.toNat * rootBit (number.toNat / 4) := by
      rw [rootBit, if_neg large]
      ring
    have positive : 0 < rootBit (number.toNat / 4) := by
      obtain ⟨exponent, power⟩ := rootBit_eq_two_pow (number.toNat / 4)
      rw [power]
      exact Nat.two_pow_pos exponent
    rw [place] at fits ⊢
    obtain ⟨above, moved, double⟩ :=
      doubled?_eq bit (Nat.lt_of_le_of_lt (Nat.le_mul_of_pos_right _ positive) fits)
    rw [← toNat_shiftRight_two, ← double] at fits ⊢
    obtain ⟨top, found, height⟩ := ih above fits
    exact ⟨top, by rw [moved, Option.bind_eq_bind, Option.bind_some, found], height⟩

/-- The highest bit of the root of a word is found. -/
theorem rootBit?_one (number : UInt64) (positive : 0 < number.toNat) :
    ∃ bit, rootBit? 1 number = some bit ∧ bit.toNat = rootBit number.toNat := by
  have within : number.toNat.sqrt < 2 ^ 32 := Nat.sqrt_lt'.2 number.toNat_lt
  have low : rootBit number.toNat < 2 ^ 32 :=
    Nat.lt_of_le_of_lt (sqrt_bounds _ positive).1 within
  have start : (1 : UInt64).toNat * rootBit number.toNat = rootBit number.toNat := Nat.one_mul _
  rw [← start]
  refine rootBit?_eq 1 number ?_
  rw [start]
  exact Nat.lt_trans low (by decide)

/-- A bit that is tried is added to the root, unless the square then passes the number. -/
theorem tried?_eq (number : UInt64) (power : bit.toNat = 2 ^ exponent)
    (aligned : 2 ^ (exponent + 1) ∣ root.toNat) :
    ∃ kept, tried? number root bit = some kept ∧ kept.toNat =
      if number.toNat < (root.toNat + bit.toNat) * (root.toNat + bit.toNat) then root.toNat
      else root.toNat + bit.toNat := by
  have sum := toNat_or_bit power aligned
  obtain ⟨square, squared, area⟩ := squared?_eq (root ||| bit)
  have beyond : widened number < square ↔
      number.toNat < (root.toNat + bit.toNat) * (root.toNat + bit.toNat) := by
    rw [BitVec.lt_def, toNat_widened, area, sum]
  simp only [tried?, squared, Option.bind_eq_bind, Option.bind_some, beyond,
    or_bit_and_not power aligned]
  refine ⟨_, rfl, ?_⟩
  split
  · rfl
  · exact sum

/-- The bits that are tried come to the root. -/
theorem refineRoot?_eq (number root : UInt64) (power : bit.toNat = 2 ^ exponent)
    (aligned : 2 ^ (exponent + 1) ∣ root.toNat) :
    ∃ final, refineRoot? number root bit = some final ∧
      final.toNat = refineRoot number.toNat root.toNat bit.toNat := by
  have finished {root bit : UInt64} (few : bit.toNat < 8) :
      ∃ final, refineRoot? number root bit = some final ∧
        final.toNat = refineRoot number.toNat root.toNat bit.toNat :=
    ⟨root, by rw [refineRoot?, if_pos (UInt64.lt_iff_toNat_lt.2 few)],
      by rw [refineRoot, if_pos few]⟩
  induction exponent generalizing root bit with
  | zero =>
    refine finished ?_
    rw [power]
    decide
  | succ exponent ih =>
    by_cases few : bit.toNat < 8
    · exact finished few
    obtain ⟨kept, tried, value⟩ := tried?_eq number power aligned
    have halved : (bit >>> 1).toNat = bit.toNat / 2 := toNat_shiftRight_one bit
    have powerOn : (bit >>> 1).toNat = 2 ^ exponent := by
      rw [halved, power, Nat.pow_succ, Nat.mul_div_cancel _ Nat.two_pos]
    -- what is kept has no bit below the one that was tried
    have alignedOn : 2 ^ (exponent + 1) ∣ kept.toNat := by
      have low : 2 ^ (exponent + 1) ∣ root.toNat :=
        Nat.dvd_trans (Nat.pow_dvd_pow 2 (Nat.le_succ _)) aligned
      rw [value]
      split
      · exact low
      · exact Nat.dvd_add low (power ▸ Nat.dvd_refl _)
    obtain ⟨final, found, same⟩ := ih kept powerOn alignedOn
    refine ⟨final, ?_, ?_⟩
    · rw [refineRoot?, if_neg (few ∘ UInt64.lt_iff_toNat_lt.1), tried, Option.bind_eq_bind,
        Option.bind_some, found]
    · rw [same, value, halved]
      conv_rhs => rw [refineRoot, if_neg few]

/-- The block length is found in words. -/
theorem derivedLength?_eq (basisLength : UInt64) :
    ∃ length, derivedLength? basisLength = some length ∧
      length.toNat = derivedLength basisLength.toNat := by
  have standardFits : (UInt64.ofNat standardLength).toNat = standardLength := rfl
  have longestFits : (UInt64.ofNat longestLength).toNat = longestLength := rfl
  have short : basisLength ≤ UInt64.ofNat standardLength * UInt64.ofNat standardLength ↔
      basisLength.toNat ≤ standardLength * standardLength := UInt64.le_iff_toNat_le
  simp only [derivedLength?, derivedLength, short]
  split
  · exact narrowed?_eq _ (by decide)
  rename_i long
  obtain ⟨bit, found, height⟩ := rootBit?_one basisLength (by omega)
  have capped : UInt64.ofNat longestLength ≤ bit ↔ longestLength ≤ rootBit basisLength.toNat := by
    rw [UInt64.le_iff_toNat_le, longestFits, height]
  simp only [found, Option.bind_eq_bind, Option.bind_some, capped]
  split
  · exact narrowed?_eq _ (by decide)
  rename_i below
  obtain ⟨exponent, power⟩ := rootBit_eq_two_pow basisLength.toNat
  obtain ⟨root, refined, size⟩ :=
    refineRoot?_eq basisLength 0 (height.trans power) (Nat.dvd_zero _)
  have least : (max root (UInt64.ofNat standardLength)).toNat =
      max (refineRoot basisLength.toNat 0 (rootBit basisLength.toNat)) standardLength := by
    rw [toNat_max, size, height]
    rfl
  have fits := (derivedLength_bounds basisLength.toNat).2
  rw [derivedLength, if_neg long] at fits
  simp only [if_neg below, ← least] at fits
  obtain ⟨length, narrowed, same⟩ :=
    narrowed?_eq _ (Nat.lt_of_le_of_lt fits (by decide : longestLength < UInt32.size))
  refine ⟨length, ?_, same.trans least⟩
  rw [refined, Option.bind_some, narrowed]

end BlockDelta.Layout.Bitwise
