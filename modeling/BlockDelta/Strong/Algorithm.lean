import BlockDelta.Strong.Md4
import BlockDelta.Strong.Md5
import BlockDelta.Strong.Sha1
import BlockDelta.Strong.Xxh64
import BlockDelta.Text.Blank

/-!
# The strong digests

Four algorithms by name and by number, each of them a digest. A hasher is one of
the four in progress: fed in pieces it digests their concatenation, and its
digest has the algorithm's width.
-/

namespace BlockDelta.Strong

/-- The digests a signature can carry; only the last one takes a seed. -/
inductive Algorithm where
  | md4
  | md5
  | sha1
  | xxh64 (seed : UInt64)
  deriving DecidableEq, Repr

/-- A name that is none of the algorithms', as it was given. -/
structure UnknownAlgorithm where
  /-- The name. -/
  name : String
  deriving DecidableEq, Repr

/-- The wording of the refusal. -/
def UnknownAlgorithm.message (unknown : UnknownAlgorithm) : String :=
  s!"unsupported strong checksum algorithm '{unknown.name}' (expected md4, md5, sha1 or xxh64)"

namespace Algorithm

/-- The width of a digest in bytes. -/
def digestLength : Algorithm → Nat
  | .md4 => 16
  | .md5 => 16
  | .sha1 => 20
  | .xxh64 _ => 8

/-- The name under which the algorithm is chosen and shown. -/
def name : Algorithm → String
  | .md4 => "md4"
  | .md5 => "md5"
  | .sha1 => "sha1"
  | .xxh64 _ => "xxh64"

/-- The number that stands for the algorithm in a signature stream. -/
def id : Algorithm → UInt8
  | .md4 => 1
  | .md5 => 2
  | .sha1 => 3
  | .xxh64 _ => 4

/-- The algorithm of a number; the seed is kept where one is taken. -/
def ofId? (id : UInt8) (seed : UInt64) : Option Algorithm :=
  if id = 1 then some .md4
  else if id = 2 then some .md5
  else if id = 3 then some .sha1
  else if id = 4 then some (.xxh64 seed)
  else none

/-- The seed, zero where none is taken. -/
def seed : Algorithm → UInt64
  | .xxh64 seed => seed
  | _ => 0

/-- The algorithm with another seed, where one is taken. -/
def withSeed : Algorithm → UInt64 → Algorithm
  | .xxh64 _, seed => .xxh64 seed
  | other, _ => other

/-- The algorithm a name stands for; blanks around it and the case of letters do not matter. -/
def ofName (name : String) : Except UnknownAlgorithm Algorithm :=
  match Text.lowercase (Text.trimBlanks name) with
  | "md4" => .ok .md4
  | "md5" => .ok .md5
  | "sha1" => .ok .sha1
  | "sha-1" => .ok .sha1
  | "xxh64" => .ok (.xxh64 0)
  | "xxhash" => .ok (.xxh64 0)
  | _ => .error ⟨name⟩

/-- The algorithm for diagnostics, with its seed where one is taken. -/
def describe : Algorithm → String
  | .md4 => "Md4"
  | .md5 => "Md5"
  | .sha1 => "Sha1"
  | .xxh64 seed => s!"Xxh64 \x7b seed: {seed.toNat} \x7d"

/-- No digest is empty. -/
theorem digestLength_pos (algorithm : Algorithm) : 0 < algorithm.digestLength := by
  cases algorithm <;> simp [digestLength]

/-- A number and a seed give back the algorithm they were taken from. -/
theorem ofId?_id_seed (algorithm : Algorithm) :
    ofId? algorithm.id algorithm.seed = some algorithm := by
  cases algorithm <;> simp [ofId?, id, seed]

/-- The states of the algorithm's digest in progress. -/
def State : Algorithm → Type
  | .md4 => Absorber Md4.State
  | .md5 => Absorber Md5.State
  | .sha1 => Absorber Sha1.State
  | .xxh64 _ => Absorber Xxh64.State

/-- Every algorithm is a digest of its width. -/
instance : (algorithm : Algorithm) → Digest algorithm.State algorithm.digestLength
  | .md4 => (inferInstance : Digest (Absorber Md4.State) 16)
  | .md5 => (inferInstance : Digest (Absorber Md5.State) 16)
  | .sha1 => (inferInstance : Digest (Absorber Sha1.State) 20)
  | .xxh64 _ => (inferInstance : Digest (Absorber Xxh64.State) 8)

/-- The state before any input. -/
def start : (algorithm : Algorithm) → algorithm.State
  | .md4 => Md4.start
  | .md5 => Md5.start
  | .sha1 => Sha1.start
  | .xxh64 seed => Xxh64.start seed

end Algorithm

/-- A digest in progress. -/
structure Hasher where
  /-- The algorithm. -/
  algorithm : Algorithm
  /-- The state after everything taken in. -/
  state : algorithm.State

namespace Hasher

/-- A hasher that has seen no input. -/
def ofAlgorithm (algorithm : Algorithm) : Hasher := ⟨algorithm, algorithm.start⟩

/-- A chunk is taken in. -/
def update (hasher : Hasher) (chunk : Bytes) : Hasher :=
  ⟨hasher.algorithm, Digest.update hasher.state chunk⟩

/-- The digest of everything taken in. -/
def digest (hasher : Hasher) : Bytes := Digest.digest hasher.state

/-- The leading bytes of the digest. -/
def truncated (hasher : Hasher) (length : Nat) : Bytes := hasher.digest.take length

/-- The hasher for diagnostics, without its state. -/
def describe (hasher : Hasher) : String :=
  match hasher.algorithm with
  | .md4 => "StrongHasher(\"Md4\")"
  | .md5 => "StrongHasher(\"Md5\")"
  | .sha1 => "StrongHasher(\"Sha1\")"
  | .xxh64 _ => "StrongHasher(\"Xxh64\")"

/-- Feeding two chunks is feeding their concatenation. -/
theorem update_append (hasher : Hasher) (front back : Bytes) :
    hasher.update (front ++ back) = (hasher.update front).update back := by
  rw [update, Digest.update_append]
  rfl

/-- A digest has the width of its algorithm. -/
theorem length_digest (hasher : Hasher) :
    hasher.digest.length = hasher.algorithm.digestLength :=
  Digest.length_digest hasher.state

end Hasher

/-- The digest of an input in one step. -/
def Algorithm.digest (algorithm : Algorithm) (input : Bytes) : Bytes :=
  ((Hasher.ofAlgorithm algorithm).update input).digest

end BlockDelta.Strong
