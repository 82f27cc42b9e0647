/-!
# How a basis is cut into blocks

A layout is a block length, the length of a shorter last block, and the number
of blocks. The block length is forced or derived: near the square root of the
basis length, rounded down to a multiple of eight, within fixed bounds.
-/

namespace BlockDelta

/-- The length of a block: a 32-bit word that is not zero. -/
@[ext] structure BlockLength where
  /-- The length in bytes. -/
  toNat : Nat
  /-- A block holds something. -/
  positive : 0 < toNat
  /-- The length fits a 32-bit word. -/
  fits : toNat < UInt32.size

instance : DecidableEq BlockLength := fun left right =>
  decidable_of_iff (left.toNat = right.toNat) BlockLength.ext_iff.symm

/-- A block length from a number, when it is one. -/
def BlockLength.ofNat? (length : Nat) : Option BlockLength :=
  if valid : 0 < length ∧ length < UInt32.size then some ⟨length, valid.1, valid.2⟩ else none

/-- The cut of a basis into blocks. -/
structure Layout where
  /-- The length of every block but possibly the last. -/
  blockLength : BlockLength
  /-- The length of a last block that is shorter; zero when there is none. -/
  remainder : Nat
  /-- How many blocks there are. -/
  blockCount : Nat
  deriving DecidableEq

namespace Layout

/-- Why a basis cannot be cut. -/
inductive Error where
  /-- The block length is out of bounds. -/
  | invalidBlockLength (length : Nat)
  /-- There are more blocks than 32-bit numbers. -/
  | blockCountOverflow (blockLength blocks : Nat)
  deriving DecidableEq, Repr

/-- The block length of short bases, and the least derived one. -/
def standardLength : Nat := 700

/-- The greatest block length. -/
def longestLength : Nat := 131072

/-- The most blocks a basis may have. -/
def mostBlocks : Nat := UInt32.size - 1

/-- The wording of each cause. -/
def Error.message : Error → String
  | .invalidBlockLength length =>
    s!"block length {length} is outside the supported range 1..=131072"
  | .blockCountOverflow blockLength blocks =>
    s!"block count {blocks} derived from block length {blockLength} exceeds u32::MAX"

/-- The cut of a basis of a known length into blocks of a known length. -/
def ofLength (basisLength : Nat) (blockLength : BlockLength) : Except Error Layout :=
  let blocks := (basisLength + blockLength.toNat - 1) / blockLength.toNat
  if mostBlocks < blocks then .error (.blockCountOverflow blockLength.toNat blocks)
  else .ok ⟨blockLength, basisLength % blockLength.toNat, blocks⟩

/-- The length of the block with a given number, counted from zero. -/
def lengthAt? (layout : Layout) (index : Nat) : Option Nat :=
  if layout.blockCount ≤ index then none
  else if index + 1 = layout.blockCount ∧ layout.remainder ≠ 0 then some layout.remainder
  else some layout.blockLength.toNat

/-- The highest bit of the square root of a number: a power of two. -/
def rootBit (number : Nat) : Nat :=
  if number / 4 = 0 then 1 else 2 * rootBit (number / 4)
termination_by number
decreasing_by omega

/-- The bits of the root from a given one down to eight are set one by one,
each kept when the square does not pass the number. -/
def refineRoot (number root bit : Nat) : Nat :=
  if bit < 8 then root
  else
    let candidate := root + bit
    refineRoot number (if number < candidate * candidate then root else candidate) (bit / 2)
termination_by bit
decreasing_by omega

/-- The block length that suits a basis of a known length. -/
def derivedLength (basisLength : Nat) : Nat :=
  if basisLength ≤ standardLength * standardLength then standardLength
  else
    let bit := rootBit basisLength
    if longestLength ≤ bit then longestLength
    else max (refineRoot basisLength 0 bit) standardLength

/-- The cut of a basis, with a block length that is forced or derived. -/
def choose (basisLength : Nat) (forced : Option Nat) : Except Error Layout :=
  let length := forced.getD (derivedLength basisLength)
  if forced.isSome && longestLength < length then .error (.invalidBlockLength length)
  else
    match BlockLength.ofNat? length with
    | none => .error (.invalidBlockLength 0)
    | some blockLength => ofLength basisLength blockLength

end Layout

end BlockDelta
