import BlockDelta.Signature.Layout
import Mathlib

/-!
# A derived block length is a rounded root

The highest bit of the root is found first. From there on a bit is kept when
the root does not fall below it, so what is left of the root behind the bits
already tried is less than the last of them. The bits end at eight, so the root
is rounded down to a multiple of eight, and it is cut to the bounds of derived
lengths. This is said without bits or a case for short bases, and from it
follow the bounds and that longer bases have no shorter blocks.
-/

namespace BlockDelta.Layout

/-- The highest bit of a root is a power of two. -/
theorem rootBit_eq_two_pow (number : Nat) : ∃ exponent, rootBit number = 2 ^ exponent := by
  fun_induction rootBit number with
  | case1 => exact ⟨0, rfl⟩
  | case2 number more ih =>
    obtain ⟨exponent, power⟩ := ih
    exact ⟨exponent + 1, by rw [power, Nat.pow_succ, Nat.mul_comm]⟩

/-- The root lies between its highest bit and twice that bit. -/
theorem sqrt_bounds (number : Nat) (positive : 0 < number) :
    rootBit number ≤ number.sqrt ∧ number.sqrt < 2 * rootBit number := by
  rw [Nat.le_sqrt, Nat.sqrt_lt]
  fun_induction rootBit number with
  | case1 number short => omega
  | case2 number more ih =>
    obtain ⟨low, high⟩ := ih (Nat.pos_of_ne_zero more)
    generalize rootBit (number / 4) = bit at low high ⊢
    have square : 2 * bit * (2 * bit) = 4 * (bit * bit) := by ring
    have further : 2 * (2 * bit) * (2 * (2 * bit)) = 16 * (bit * bit) := by ring
    rw [square] at high
    rw [square, further]
    omega

/-- Bits from one below a known part of the root downwards complete it, but for the bits below
eight. -/
theorem refineRoot_eq (number exponent : Nat) {root : Nat} (aligned : 2 ^ (exponent + 3) ∣ root)
    (low : root ≤ number.sqrt) (high : number.sqrt < root + 2 ^ (exponent + 3)) :
    refineRoot number root (2 ^ (exponent + 2)) = 8 * (number.sqrt / 8) := by
  induction exponent generalizing root with
  | zero =>
    have small : 2 ^ (0 + 2) < 8 := by decide
    rw [refineRoot, if_pos small]
    obtain ⟨eighth, rfl⟩ := aligned
    omega
  | succ exponent ih =>
    have doubled : 2 ^ (exponent + 1 + 3) = 2 * 2 ^ (exponent + 3) := by ring
    have halved : 2 ^ (exponent + 3) / 2 = 2 ^ (exponent + 2) := by
      rw [Nat.pow_succ, Nat.mul_div_cancel _ Nat.two_pos]
    have large : 2 ^ 3 ≤ 2 ^ (exponent + 3) := Nat.pow_le_pow_right Nat.two_pos (by omega)
    rw [doubled] at aligned high
    have half : 2 ^ (exponent + 3) ∣ root := Nat.dvd_trans (Nat.dvd_mul_left ..) aligned
    change refineRoot number root (2 ^ (exponent + 3)) = _
    rw [refineRoot, if_neg (show ¬2 ^ (exponent + 3) < 8 from Nat.not_lt_of_le large)]
    simp only [halved]
    by_cases beyond : number < (root + 2 ^ (exponent + 3)) * (root + 2 ^ (exponent + 3))
    · rw [if_pos beyond]
      exact ih half low (Nat.sqrt_lt.2 beyond)
    · have kept : root + 2 ^ (exponent + 3) ≤ number.sqrt :=
        Nat.le_sqrt.2 (Nat.le_of_not_lt beyond)
      rw [if_neg beyond]
      exact ih (Nat.dvd_add half (Nat.dvd_refl _)) kept (by omega)

/-- Bits from the highest one of a root downwards complete it, but for the bits below eight. -/
theorem refineRoot_rootBit {number : Nat} (large : 8 ≤ number.sqrt) :
    refineRoot number 0 (rootBit number) = 8 * (number.sqrt / 8) := by
  obtain ⟨low, high⟩ := sqrt_bounds number (Nat.lt_of_lt_of_le (by omega) number.sqrt_le_self)
  obtain ⟨exponent, power⟩ := rootBit_eq_two_pow number
  rw [power] at low high ⊢
  -- the first bit is at least four, so the bits do not end before they begin
  obtain ⟨place, rfl⟩ : ∃ place, exponent = place + 2 := by
    refine Nat.exists_eq_add_of_le' (Nat.le_of_not_lt fun few => ?_)
    have least : 2 ^ exponent ≤ 2 ^ 1 := Nat.pow_le_pow_right (by decide) (by omega)
    omega
  have double : 2 * 2 ^ (place + 2) = 2 ^ (place + 3) := by ring
  exact refineRoot_eq number place (Nat.dvd_zero _) (Nat.zero_le _) (by omega)

/-- Twice the highest bit of a root is no longer than the longest block unless the bit is as long.
-/
theorem two_mul_rootBit_le {number : Nat} (below : rootBit number < longestLength) :
    2 * rootBit number ≤ longestLength := by
  obtain ⟨exponent, power⟩ := rootBit_eq_two_pow number
  have longest : longestLength = 2 ^ 17 := rfl
  rw [power, longest] at below ⊢
  have smaller : exponent < 17 := (Nat.pow_lt_pow_iff_right Nat.one_lt_two).1 below
  rw [← Nat.pow_succ']
  exact Nat.pow_le_pow_right Nat.two_pos smaller

/-- A derived block length is the root of the basis length, rounded down to a multiple of eight,
within the bounds. -/
theorem derivedLength_eq (basisLength : Nat) :
    derivedLength basisLength =
      min longestLength (max standardLength (8 * (basisLength.sqrt / 8))) := by
  have standard : standardLength = 700 := rfl
  have longest : longestLength = 131072 := rfl
  rw [derivedLength, standard]
  split
  · rename_i short
    have root : basisLength.sqrt < 701 := Nat.sqrt_lt.2 (by omega)
    omega
  · rename_i long
    have root : 700 ≤ basisLength.sqrt := Nat.le_sqrt.2 (by omega)
    obtain ⟨low, high⟩ := sqrt_bounds basisLength (by omega)
    simp only []
    split
    · omega
    · rename_i below
      have within := two_mul_rootBit_le (Nat.lt_of_not_le below)
      rw [refineRoot_rootBit (by omega)]
      omega

/-- A derived block length is neither below the standard length nor beyond the longest. -/
theorem derivedLength_bounds (basisLength : Nat) :
    standardLength ≤ derivedLength basisLength ∧ derivedLength basisLength ≤ longestLength := by
  have ordered : standardLength ≤ longestLength := by decide
  rw [derivedLength_eq]
  omega

/-- A longer basis has no shorter blocks. -/
theorem derivedLength_mono : Monotone derivedLength := by
  intro shorter longer most
  have roots : shorter.sqrt ≤ longer.sqrt := Nat.sqrt_le_sqrt most
  rw [derivedLength_eq, derivedLength_eq]
  omega

end BlockDelta.Layout
