import BlockDelta.Signature.Layout

/-!
# The block length in words

`derivedLength` computes with numbers; a processor has words of 64 bits. The
highest bit of the root moves up while the basis length moves down two places
at a time, bits of the root are set and taken back by masks, and a square is
made in twice the width. A step whose result may be no word of its width looks
whether it is one, and gives up where it is not.
-/

namespace BlockDelta.Layout.Bitwise

/-- A word moved up by one place, where no bit gets lost. -/
def doubled? (word : UInt64) : Option UInt64 :=
  if 2 * word.toNat < UInt64.size then some (word <<< 1) else none

/-- A word in twice its width. -/
def widened (word : UInt64) : BitVec 128 := word.toBitVec.setWidth 128

/-- The square of a word in twice its width, where it fits. -/
def squared? (word : UInt64) : Option (BitVec 128) :=
  if word.toNat * word.toNat < UInt64.size * UInt64.size then some (widened word * widened word)
  else none

/-- The lower half of a word, where it is the whole word. -/
def narrowed? (word : UInt64) : Option UInt32 :=
  if word.toNat < UInt32.size then some word.toUInt32 else none

/-- Moving down two places leaves less of what is left. -/
theorem toNat_shiftRight_two (word : UInt64) : (word >>> 2).toNat = word.toNat / 4 := by
  rw [UInt64.toNat_shiftRight, Nat.shiftRight_eq_div_pow]
  rfl

/-- Moving down one place halves a word. -/
theorem toNat_shiftRight_one (word : UInt64) : (word >>> 1).toNat = word.toNat / 2 := by
  rw [UInt64.toNat_shiftRight, Nat.shiftRight_eq_div_pow]
  rfl

/-- A bit moves up one place for each two places by which a number can move down. -/
def rootBit? (bit number : UInt64) : Option UInt64 :=
  if number >>> 2 = 0 then some bit
  else do
    let above ← doubled? bit
    rootBit? above (number >>> 2)
termination_by number.toNat
decreasing_by
  rename_i more
  rw [← UInt64.toNat_inj, toNat_shiftRight_two, UInt64.toNat_zero] at more
  rw [toNat_shiftRight_two]
  omega

/-- A bit of the root is set, and taken back when the square passes the number. -/
def tried? (number root bit : UInt64) : Option UInt64 := do
  let candidate := root ||| bit
  let square ← squared? candidate
  return if widened number < square then candidate &&& ~~~bit else candidate

/-- The bits of the root from a given one down to eight are tried one by one. -/
def refineRoot? (number root bit : UInt64) : Option UInt64 :=
  if bit < 8 then some root
  else do
    let kept ← tried? number root bit
    refineRoot? number kept (bit >>> 1)
termination_by bit.toNat
decreasing_by
  rename_i large
  rw [UInt64.lt_iff_toNat_lt] at large
  rw [toNat_shiftRight_one]
  have eight : (8 : UInt64).toNat = 8 := rfl
  omega

/-- The block length that suits a basis whose length is a word. -/
def derivedLength? (basisLength : UInt64) : Option UInt32 :=
  let standard := UInt64.ofNat standardLength
  if basisLength ≤ standard * standard then narrowed? standard
  else do
    let bit ← rootBit? 1 basisLength
    if UInt64.ofNat longestLength ≤ bit then narrowed? (UInt64.ofNat longestLength)
    else do
      let root ← refineRoot? basisLength 0 bit
      narrowed? (max root standard)

end BlockDelta.Layout.Bitwise
