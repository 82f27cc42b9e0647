import BlockDelta.Bytes

/-!
# Deltas

A delta says where a span of the target comes from: it is carried along as a
literal, or copied from the basis. Offsets are 64-bit words and copy lengths
32-bit words; where spans end is computed in `Nat`, so it cannot wrap.
-/

namespace BlockDelta

/-- The origin of one span of the target. -/
inductive Delta where
  /-- The bytes to be written at an offset of the target. -/
  | literal (offset : UInt64) (data : Bytes)
  /-- A span of the basis, and where it goes in the target. -/
  | copy (source offset : UInt64) (length : UInt32)
  deriving DecidableEq, Repr

namespace Delta

/-- Where the span starts in the target. -/
def start : Delta → Nat
  | .literal offset _ => offset.toNat
  | .copy _ offset _ => offset.toNat

/-- How many bytes the span has. -/
def length : Delta → Nat
  | .literal _ data => data.length
  | .copy _ _ length => length.toNat

/-- Where the span ends in the target. -/
def stop (delta : Delta) : Nat := delta.start + delta.length

/-- The span has no bytes. -/
def isEmpty (delta : Delta) : Bool := delta.length == 0

/-- The span is carried along. -/
def isLiteral : Delta → Bool
  | .literal _ _ => true
  | .copy _ _ _ => false

/-- Two copies in one, when the second continues the first in basis and target
and the joint length is still a 32-bit word. -/
def joined? : Delta → Delta → Option Delta
  | .copy source offset length, .copy nextSource nextOffset nextLength =>
    if source.toNat + length.toNat = nextSource.toNat ∧
        offset.toNat + length.toNat = nextOffset.toNat ∧
        length.toNat + nextLength.toNat < UInt32.size then
      some (.copy source offset (length + nextLength))
    else none
  | _, _ => none

/-- How many bytes the spans have together. -/
def totalLength : List Delta → Nat
  | [] => 0
  | delta :: rest => delta.length + totalLength rest

/-- Deltas by where they start; those that start together keep their order. -/
def inTargetOrder (deltas : List Delta) : List Delta :=
  deltas.mergeSort fun left right => left.start ≤ right.start

end Delta

end BlockDelta
