import BlockDelta.Rolling.Sum
import Mathlib

/-!
# The rolling law

The sums of a window are linear in its bytes: the first sum is the total of the
terms, and in the second a byte counts once for every byte from it to the end of
the window. So the oldest byte of a window of `n` bytes leaves the second sum
with `n` times its term, and sliding or shrinking the sums of a window gives the
sums of the window that is left, as if computed afresh. The length has to fit
32 bits, which is the one condition under which `roll` and `trim` succeed.
-/

namespace BlockDelta.Rolling.Sum

/-- A chunk adds its own first sum to what was there. -/
theorem first_update (sum : Sum) (chunk : Bytes) :
    (sum.update chunk).first = sum.first + (ofBytes chunk).first := by
  induction chunk generalizing sum with
  | nil => simp [update, ofBytes, empty]
  | cons byte rest ih =>
    have fromSum := ih (sum.absorb byte)
    have fromEmpty := ih (empty.absorb byte)
    simp only [update, ofBytes, List.foldl_cons, absorb, empty] at fromSum fromEmpty ⊢
    rw [fromSum, fromEmpty]
    grind

/-- A chunk adds its own second sum, and the first sum once for each of its bytes. -/
theorem second_update (sum : Sum) (chunk : Bytes) :
    (sum.update chunk).second =
      sum.second + UInt16.ofNat chunk.length * sum.first + (ofBytes chunk).second := by
  induction chunk generalizing sum with
  | nil => simp [update, ofBytes, empty]
  | cons byte rest ih =>
    have fromSum := ih (sum.absorb byte)
    have fromEmpty := ih (empty.absorb byte)
    simp only [update, ofBytes, List.foldl_cons, absorb, empty, List.length_cons,
      UInt16.ofNat_add] at fromSum fromEmpty ⊢
    rw [fromSum, fromEmpty]
    grind

/-- Sums computed afresh count the bytes of the window. -/
theorem length_ofBytes (window : Bytes) : (ofBytes window).length = window.length := by
  rw [ofBytes, length_update, empty, Nat.zero_add]

/-- The oldest byte contributes its term to the first sum. -/
theorem first_cons (byte : UInt8) (rest : Bytes) :
    (ofBytes (byte :: rest)).first = term byte + (ofBytes rest).first := by
  have step := first_update (empty.absorb byte) rest
  simpa [ofBytes, update, absorb, empty] using step

/-- The oldest byte contributes its term to the second sum once for every byte of the window. -/
theorem second_cons (byte : UInt8) (rest : Bytes) :
    (ofBytes (byte :: rest)).second =
      UInt16.ofNat (rest.length + 1) * term byte + (ofBytes rest).second := by
  have step := second_update (empty.absorb byte) rest
  have opened : (ofBytes (byte :: rest)).second = ((empty.absorb byte).update rest).second := rfl
  rw [opened, step]
  simp only [absorb, empty, UInt16.ofNat_add]
  grind

/-- Sums are determined by their three parts. -/
theorem eq_of_parts {left right : Sum} (first : left.first = right.first)
    (second : left.second = right.second) (length : left.length = right.length) :
    left = right := by
  cases left
  cases right
  simp_all

/-- Absorbing a byte is computing the sums of the longer window. -/
theorem absorb_ofBytes (window : Bytes) (byte : UInt8) :
    (ofBytes window).absorb byte = ofBytes (window ++ [byte]) := by
  rw [ofBytes, ofBytes, update_append]
  rfl

/-- A window that is not empty and fits 32 bits has a checked length. -/
theorem checkedLength_ofBytes (byte : UInt8) (rest : Bytes)
    (fits : rest.length + 1 ≤ longestWindow) :
    (ofBytes (byte :: rest)).checkedLength = .ok (UInt16.ofNat (rest.length + 1)) := by
  have length : (ofBytes (byte :: rest)).length = rest.length + 1 := length_ofBytes _
  rw [checkedLength, length, if_neg (Nat.succ_ne_zero _), if_neg (Nat.not_lt.mpr fits)]

/-- Shrinking the sums of a window gives the sums of what is left. -/
theorem trim_ofBytes (byte : UInt8) (rest : Bytes) (fits : rest.length + 1 ≤ longestWindow) :
    (ofBytes (byte :: rest)).trim byte = .ok (ofBytes rest) := by
  have opened : (ofBytes (byte :: rest)).trim byte =
      .ok ⟨(ofBytes (byte :: rest)).first - term byte,
        (ofBytes (byte :: rest)).second - UInt16.ofNat (rest.length + 1) * term byte,
        (ofBytes (byte :: rest)).length - 1⟩ := by
    rw [trim, checkedLength_ofBytes byte rest fits]
    rfl
  rw [opened]
  congr 1
  apply eq_of_parts
  · rw [first_cons]
    grind
  · rw [second_cons]
    grind
  · simp [length_ofBytes]

/-- Sliding the sums of a window gives the sums of the window one byte further on. -/
theorem roll_ofBytes (byte next : UInt8) (rest : Bytes) (fits : rest.length + 1 ≤ longestWindow) :
    (ofBytes (byte :: rest)).roll byte next = .ok (ofBytes (rest ++ [next])) := by
  have opened : (ofBytes (byte :: rest)).roll byte next =
      .ok ⟨(ofBytes (byte :: rest)).first - term byte + term next,
        (ofBytes (byte :: rest)).second - UInt16.ofNat (rest.length + 1) * term byte +
          ((ofBytes (byte :: rest)).first - term byte + term next),
        (ofBytes (byte :: rest)).length⟩ := by
    rw [roll, checkedLength_ofBytes byte rest fits]
    rfl
  rw [opened, ← absorb_ofBytes]
  congr 1
  -- What enters is absorbed into the sums that the outgoing byte has left.
  apply eq_of_parts
  · simp only [absorb, first_cons]
    grind
  · simp only [absorb, first_cons, second_cons]
    grind
  · simp [absorb, length_ofBytes]

end BlockDelta.Rolling.Sum
