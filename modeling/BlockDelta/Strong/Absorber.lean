import BlockDelta.Bytes

/-!
# Digests in progress

A digest is fed chunk by chunk, and what comes out of it has a fixed width. All
that signatures and matching need of a digest is that feeding two chunks is
feeding their concatenation and that the width is kept; how the input is mixed
is the affair of each digest alone.

An absorber gathers input into blocks of a fixed width and folds each complete
block into a state. Absorbing byte by byte makes feeding two chunks the same as
feeding their concatenation, whatever the hash.
-/

namespace BlockDelta.Strong

/-- States of a digest in progress whose digests are `width` bytes wide. -/
class Digest (State : Type) (width : outParam Nat) where
  /-- A chunk is taken in. -/
  update : State → Bytes → State
  /-- The digest of everything taken in. -/
  digest : State → Bytes
  /-- Feeding two chunks is feeding their concatenation. -/
  update_append : ∀ state front back,
    update state (front ++ back) = update (update state front) back
  /-- A digest has its width. -/
  length_digest : ∀ state, (digest state).length = width

/-- A hash state with the input that does not fill a block yet. -/
structure Absorber (State : Type) where
  /-- The state after all complete blocks. -/
  state : State
  /-- The bytes behind the last complete block, newest first. -/
  pending : Bytes
  /-- How many bytes have been absorbed in all. -/
  total : Nat
  deriving Repr

namespace Absorber

variable {State : Type}

/-- An absorber that has seen no input. -/
def start (state : State) : Absorber State := ⟨state, [], 0⟩

/-- One byte is taken in; a block it completes is folded into the state. -/
def absorb (width : Nat) (compress : State → Bytes → State) (absorber : Absorber State)
    (byte : UInt8) : Absorber State :=
  let pending := byte :: absorber.pending
  let total := absorber.total + 1
  if total % width = 0 then ⟨compress absorber.state pending.reverse, [], total⟩
  else ⟨absorber.state, pending, total⟩

/-- A chunk is taken in. -/
@[specialize] def update (width : Nat) (compress : State → Bytes → State)
    (absorber : Absorber State) (chunk : Bytes) : Absorber State :=
  chunk.foldl (absorb width compress) absorber

/-- Feeding two chunks is feeding their concatenation. -/
theorem update_append (width : Nat) (compress : State → Bytes → State)
    (absorber : Absorber State) (front back : Bytes) :
    update width compress absorber (front ++ back) =
      update width compress (update width compress absorber front) back :=
  List.foldl_append

end Absorber

/-- The mark and the zeros that leave room for a length word at the end of a 64-byte block. -/
def lengthPadding (total : Nat) : Bytes :=
  0x80 :: List.replicate ((119 - total % 64) % 64) 0

/-- Four bytes at a time, least significant byte first; a shorter rest is dropped. -/
def wordsReversed : Bytes → List UInt32
  | a :: b :: c :: d :: rest =>
    (a.toUInt32 ||| (b.toUInt32 <<< 8) ||| (c.toUInt32 <<< 16) ||| (d.toUInt32 <<< 24))
      :: wordsReversed rest
  | _ => []

/-- Four bytes at a time, most significant byte first; a shorter rest is dropped. -/
def words : Bytes → List UInt32
  | a :: b :: c :: d :: rest =>
    ((a.toUInt32 <<< 24) ||| (b.toUInt32 <<< 16) ||| (c.toUInt32 <<< 8) ||| d.toUInt32)
      :: words rest
  | _ => []

/-- The bits of a word are turned toward the high end. -/
def rotate (word : UInt32) (count : UInt32) : UInt32 :=
  (word <<< count) ||| (word >>> (32 - count))

end BlockDelta.Strong
