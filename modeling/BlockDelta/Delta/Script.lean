import BlockDelta.Delta.Tiling

/-!
# Delta scripts

A script is a list of deltas with running totals. A delta that is pushed joins
the last one when both are copies that continue each other, so a run of
matched blocks ends up as one copy.
-/

namespace BlockDelta

/-- Deltas and how many bytes they carry or copy. -/
structure Script where
  /-- The deltas, newest first. -/
  recent : List Delta
  /-- The bytes of all literals. -/
  literalBytes : Nat
  /-- The bytes of all copies. -/
  copyBytes : Nat
  deriving DecidableEq, Repr

namespace Script

/-- A script without deltas. -/
def empty : Script := ⟨[], 0, 0⟩

/-- The deltas in the order in which they were added. -/
def deltas (script : Script) : List Delta := script.recent.reverse

/-- The length of everything the script describes. -/
def totalBytes (script : Script) : Nat := script.literalBytes + script.copyBytes

/-- How many deltas there are. -/
def size (script : Script) : Nat := script.recent.length

/-- How many of the deltas are copies. -/
def copyCount (script : Script) : Nat := script.recent.countP fun delta => !delta.isLiteral

/-- A delta is added as it is. -/
def add (script : Script) (delta : Delta) : Script :=
  if delta.isLiteral then
    ⟨delta :: script.recent, script.literalBytes + delta.length, script.copyBytes⟩
  else ⟨delta :: script.recent, script.literalBytes, script.copyBytes + delta.length⟩

/-- A delta is added, joined to the last one where the two make one copy. -/
def push (script : Script) (delta : Delta) : Script :=
  match script.recent with
  | [] => script.add delta
  | last :: older =>
    match last.joined? delta with
    | some joined => ⟨joined :: older, script.literalBytes, script.copyBytes + delta.length⟩
    | none => script.add delta

/-- Deltas are added one by one, joined where possible. -/
def extend (script : Script) (deltas : List Delta) : Script := deltas.foldl push script

/-- The deltas as given, none joined. -/
def ofDeltas (deltas : List Delta) : Script := deltas.foldl add empty

/-- The deltas tile a target of a known length. -/
def checkTiling (script : Script) (targetLength : Nat) : Except TilingError Unit :=
  Delta.checkTiling script.deltas targetLength

/-- The bytes of a delta: its own, or a span of the basis that must lie inside it. -/
def bytesOf? (basis : ByteArray) : Delta → Option ByteArray
  | .literal _ data => some (Bytes.toArray data)
  | .copy source _ length =>
    if source.toNat + length.toNat ≤ basis.size then
      some (basis.extract source.toNat (source.toNat + length.toNat))
    else none

/-- The bytes of the deltas in target order, one behind the other. -/
def applyTo (script : Script) (basis : ByteArray) : Option ByteArray :=
  (Delta.inTargetOrder script.deltas).foldlM
    (fun target delta => (bytesOf? basis delta).map (target ++ ·)) ByteArray.empty

end Script

end BlockDelta
