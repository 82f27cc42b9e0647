import BlockDelta.Strong.Algorithm

/-!
# How blocks are digested

A specification fixes the algorithm, how many leading bytes of the digest are
kept, and seed bytes hashed behind every block. It never keeps more bytes than
a digest has, and always at least one.
-/

namespace BlockDelta.Strong

/-- More digest bytes were asked for than the algorithm yields. -/
structure WidthError where
  /-- The algorithm. -/
  algorithm : Algorithm
  /-- How many bytes were asked for. -/
  requested : Nat
  deriving DecidableEq, Repr

/-- The wording of the refusal. -/
def WidthError.message (error : WidthError) : String :=
  s!"requested strong checksum length {error.requested} exceeds {error.algorithm.name} digest width"

/-- The rule by which a block's strong sum is computed. -/
structure Spec where
  /-- The digest. -/
  algorithm : Algorithm
  /-- How many leading bytes of the digest are kept. -/
  length : Nat
  /-- Bytes hashed behind the data. -/
  seed : Bytes
  /-- Something is kept. -/
  length_pos : 0 < length
  /-- No more is kept than there is. -/
  length_le : length ≤ algorithm.digestLength
  deriving DecidableEq

namespace Spec

/-- The whole digest and no seed. -/
def full (algorithm : Algorithm) : Spec :=
  ⟨algorithm, algorithm.digestLength, [], algorithm.digestLength_pos, Nat.le_refl _⟩

/-- MD4 in full and no seed, unless something else is asked for. -/
def standard : Spec := full .md4

/-- A specification from its parts, refused when the digest is too narrow. -/
def ofParts (algorithm : Algorithm) (length : { count : Nat // 0 < count }) (seed : Bytes) :
    Except WidthError Spec :=
  if fits : length.val ≤ algorithm.digestLength then
    .ok ⟨algorithm, length.val, seed, length.property, fits⟩
  else .error ⟨algorithm, length.val⟩

/-- A hasher for one block. -/
def hasher (spec : Spec) : Hasher := Hasher.ofAlgorithm spec.algorithm

/-- The strong sum of a block held in two parts: the seed bytes follow the data. -/
def sumParts (spec : Spec) (front back : Bytes) : Bytes :=
  (((spec.hasher.update front).update back).update spec.seed).truncated spec.length

/-- The strong sum of a block. -/
def sum (spec : Spec) (block : Bytes) : Bytes := spec.sumParts block []

/-- The specification for diagnostics. -/
def describe (spec : Spec) : String :=
  let seed := ", ".intercalate (spec.seed.map fun byte => toString byte.toNat)
  "ChecksumSpec \x7b algorithm: " ++ spec.algorithm.describe ++ ", strong_len: " ++
    toString spec.length ++ ", seed: [" ++ seed ++ "], .. \x7d"

/-- How a block is split into two parts does not matter. -/
theorem sumParts_eq_sum (spec : Spec) (front back : Bytes) :
    spec.sumParts front back = spec.sum (front ++ back) := by
  simp only [sum, sumParts, ← Hasher.update_append, List.append_nil]

/-- The strong sum is the kept part of the digest of data and seed. -/
theorem sum_eq (spec : Spec) (block : Bytes) :
    spec.sum block = (spec.algorithm.digest (block ++ spec.seed)).take spec.length := by
  simp only [sum, sumParts, ← Hasher.update_append, List.append_nil]
  rfl

/-- A strong sum has as many bytes as the specification keeps. -/
theorem length_sum (spec : Spec) (block : Bytes) : (spec.sum block).length = spec.length := by
  rw [sum_eq, List.length_take, Algorithm.digest, Hasher.length_digest]
  exact Nat.min_eq_left spec.length_le

end Spec

end BlockDelta.Strong
