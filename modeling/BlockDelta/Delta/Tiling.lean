import BlockDelta.Delta.Basic

/-!
# Tilings

Deltas tile a target when every byte of it lies in exactly one of them, none
is empty and none reaches behind the end. The check sorts the deltas and
follows how far they cover the target.
-/

namespace BlockDelta

/-- Why deltas do not tile a target. -/
inductive TilingError where
  /-- No delta covers these bytes. -/
  | gap (start stop : Nat)
  /-- A delta starts before the end of the part already covered. -/
  | overlap (offset covered : Nat)
  /-- A delta has no bytes. -/
  | empty (offset : Nat)
  /-- The deltas reach behind the end of the target. -/
  | overrun (expected covered : Nat)
  deriving DecidableEq, Repr

/-- The wording of each cause. -/
def TilingError.message : TilingError → String
  | .gap start stop => s!"target bytes {start}..{stop} are not covered by any delta"
  | .overlap offset covered =>
    s!"delta at offset {offset} overlaps bytes already written up to {covered}"
  | .empty offset => s!"empty delta at offset {offset}"
  | .overrun expected covered =>
    s!"deltas cover {covered} bytes but the target has {expected}"

namespace Delta

/-- How far deltas in target order cover the target, from a point on. -/
def coverFrom (covered : Nat) : List Delta → Except TilingError Nat
  | [] => .ok covered
  | delta :: rest =>
    if delta.isEmpty then .error (.empty delta.start)
    else if covered < delta.start then .error (.gap covered delta.start)
    else if delta.start < covered then .error (.overlap delta.start covered)
    else coverFrom delta.stop rest

/-- The deltas, in whatever order, tile a target of a known length. -/
def checkTiling (deltas : List Delta) (targetLength : Nat) : Except TilingError Unit := do
  let covered ← coverFrom 0 (inTargetOrder deltas)
  if covered < targetLength then throw (.gap covered targetLength)
  else if targetLength < covered then throw (.overrun targetLength covered)
  else return ()

end Delta

end BlockDelta
