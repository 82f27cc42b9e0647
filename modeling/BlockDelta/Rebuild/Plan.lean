import BlockDelta.Delta.Tiling
import BlockDelta.Storage.Fault

/-!
# Plans

Before a target is rebuilt, its deltas are put into target order, empty ones
are dropped, and the rest must cover the target from its start without gap or
overlap. Every copy must lie inside the basis. Both are checked before
anything is written.
-/

namespace BlockDelta.Rebuild

/-- Why a target cannot be rebuilt. -/
inductive Error where
  /-- Reading the basis or writing the target failed. -/
  | io (fault : Fault)
  /-- The destination is the basis itself. -/
  | samePath (destination : String)
  /-- There is no basis to copy from. -/
  | copyWithoutBasis (offset : Nat)
  /-- A copy reaches behind the end of the basis. -/
  | copyOutOfRange (source length basisLength : Nat)
  /-- A delta ends behind the last offset. -/
  | lengthOverflow (offset : Nat)
  /-- The deltas leave a gap or overlap. -/
  | tiling (error : TilingError)
  deriving DecidableEq, Repr

/-- The wording of each cause. -/
def Error.message : Error → String
  | .io fault => s!"I/O error: {fault.message}"
  | .samePath destination =>
    s!"destination {destination} is the basis file; use an in-place rebuild"
  | .copyWithoutBasis offset =>
    s!"copy to offset {offset} requires a basis, but the destination does not exist"
  | .copyOutOfRange source length basisLength =>
    s!"copy of {length} bytes from offset {source} exceeds basis length {basisLength}"
  | .lengthOverflow offset => s!"delta at offset {offset} overflows the addressable file size"
  | .tiling error => s!"deltas do not tile the target: {error.message}"

/-- What a rebuild did. -/
structure Report where
  /-- The bytes copied from the basis. -/
  copied : Nat
  /-- The bytes written from literals. -/
  literal : Nat
  /-- How many copies were kept in memory to break cycles. -/
  fallback : Nat
  /-- The length of the target. -/
  targetLength : Nat
  deriving DecidableEq, Repr

/-- Deltas that cover a target. -/
structure Plan where
  /-- The deltas in target order, none of them empty. -/
  deltas : List Delta
  /-- How far they cover the target. -/
  targetLength : Nat

namespace Plan

/-- How far deltas in target order cover the target, from a point on. -/
def cover (covered : Nat) : List Delta → Except Error Nat
  | [] => .ok covered
  | delta :: rest =>
    if covered < delta.start then .error (.tiling (.gap covered delta.start))
    else if delta.start < covered then .error (.tiling (.overlap delta.start covered))
    else if UInt64.size ≤ delta.stop then .error (.lengthOverflow delta.start)
    else cover delta.stop rest

/-- The plan for deltas in any order. -/
def ofDeltas (deltas : List Delta) : Except Error Plan := do
  let ordered := Delta.inTargetOrder (deltas.filter fun delta => !delta.isEmpty)
  return ⟨ordered, ← cover 0 ordered⟩

/-- The copies among deltas lie inside a basis of a known length. -/
def checkCopiesOf (basisLength : Nat) : List Delta → Except Error Unit
  | [] => .ok ()
  | .literal _ _ :: rest => checkCopiesOf basisLength rest
  | .copy source _ length :: rest =>
    if basisLength < source.toNat + length.toNat then
      .error (.copyOutOfRange source.toNat length.toNat basisLength)
    else checkCopiesOf basisLength rest

/-- All copies lie inside a basis of a known length. -/
def checkCopies (plan : Plan) (basisLength : Nat) : Except Error Unit :=
  checkCopiesOf basisLength plan.deltas

/-- The first copy in target order. -/
def firstCopy? (plan : Plan) : Option Delta := plan.deltas.find? fun delta => !delta.isLiteral

/-- What a rebuild by this plan does, when nothing is kept in memory. -/
def report (plan : Plan) : Report :=
  let (literals, copies) := plan.deltas.partition Delta.isLiteral
  ⟨Delta.totalLength copies, Delta.totalLength literals, 0, plan.targetLength⟩

end Plan

/-- How many bytes are moved at a time. -/
structure Buffer where
  /-- The size of the buffer. -/
  size : Nat := 131072
  /-- Something is moved. -/
  positive : 0 < size := by decide

namespace Buffer

/-- A buffer of a size, or of one byte for the size zero. -/
def ofSize (size : Nat) : Buffer :=
  ⟨max 1 size, Nat.lt_of_lt_of_le Nat.one_pos (Nat.le_max_left ..)⟩

end Buffer

end BlockDelta.Rebuild
