import BlockDelta.Rebuild.Plan
import BlockDelta.Schedule.Order
import BlockDelta.Storage.Content

/-!
# Rebuilding a file in place

The file is basis and target at once. Copies run in an order in which none
overwrites what a later one reads; the sources of copies that no order serves
are read into memory first. A copy whose source and target overlap moves its
pieces from the side that keeps the unread part of the source intact. Literals
are written after the copies, then the copies kept in memory, and at last the
file gets the length of the target.
-/

namespace BlockDelta.Rebuild

/-- A step on the content of a file; a failure keeps what was written. -/
abbrev Editing := EStateM Fault ByteArray

/-- A span of the file is read. -/
def readSpan (offset count : Nat) : Editing ByteArray := fun content =>
  match Content.read content offset count with
  | .ok piece => .ok piece content
  | .error fault => .error fault content

/-- A piece is written into the file. -/
def writeSpan (offset : Nat) (piece : ByteArray) : Editing Unit :=
  modify fun content => Content.write content offset piece

/-- The rest of a copy, behind the bytes already moved. A copy towards the
start moves its first bytes first, one towards the end its last ones. -/
def moveRest (buffer : Buffer) (span : CopySpan) (done : Nat) : Editing Unit :=
  if done < span.length then do
    let count := min buffer.size (span.length - done)
    let place := if span.target < span.source then done else span.length - done - count
    let piece ← readSpan (span.source + place) count
    writeSpan (span.target + place) piece
    moveRest buffer span (done + count)
  else pure ()
termination_by span.length - done
decreasing_by have := buffer.positive; omega

/-- A copy within the file; one onto itself moves nothing. -/
def moveWithin (buffer : Buffer) (span : CopySpan) : Editing Unit :=
  if span.source = span.target ∨ span.length = 0 then pure () else moveRest buffer span 0

/-- Copies run one after the other. -/
def moveEach (buffer : Buffer) : List CopySpan → Editing Unit
  | [] => pure ()
  | span :: rest => do
    moveWithin buffer span
    moveEach buffer rest

/-- The sources of copies are read, each with the offset of its target. -/
def keepEach : List CopySpan → Editing (List (Nat × ByteArray))
  | [] => pure []
  | span :: rest => do
    let piece ← readSpan span.source span.length
    let others ← keepEach rest
    return (span.target, piece) :: others

/-- Pieces are written at their offsets. -/
def writeEach : List (Nat × ByteArray) → Editing Unit
  | [] => pure ()
  | (offset, piece) :: rest => do
    writeSpan offset piece
    writeEach rest

/-- A delta as a copy within one file. -/
def copySpan? : Delta → Option CopySpan
  | .literal _ _ => none
  | .copy source offset length => some ⟨source.toNat, offset.toNat, length.toNat⟩

/-- A delta as bytes to be written at an offset. -/
def literalPiece? : Delta → Option (Nat × ByteArray)
  | .literal offset data => some (offset.toNat, Bytes.toArray data)
  | .copy _ _ _ => none

namespace Plan

/-- The copies within one file, in target order. -/
def spans (plan : Plan) : List CopySpan := plan.deltas.filterMap copySpan?

/-- The bytes to be written and where, in target order. -/
def literals (plan : Plan) : List (Nat × ByteArray) := plan.deltas.filterMap literalPiece?

/-- The copies of a plan with the given numbers. -/
def spansAt (plan : Plan) (numbers : List Nat) : List CopySpan :=
  let spans := plan.spans.toArray
  numbers.map fun number => spans.getD number default

end Plan

/-- A file becomes the target, in the order of a schedule. -/
def carryOut (buffer : Buffer) (plan : Plan) (schedule : Schedule) : Editing Unit := do
  let kept ← keepEach (plan.spansAt schedule.fallback)
  moveEach buffer (plan.spansAt schedule.order)
  writeEach plan.literals
  writeEach kept
  modify fun content => Content.resize content plan.targetLength

/-- A file that is the basis becomes the target of a plan. -/
def planInPlace (buffer : Buffer) (plan : Plan) : EStateM Error ByteArray Report :=
  fun content =>
    match plan.checkCopies content.size with
    | .error error => .error error content
    | .ok () =>
      let schedule := Schedule.ofSpans plan.spans
      match carryOut buffer plan schedule content with
      | .ok () rebuilt =>
        .ok { plan.report with fallback := schedule.fallback.length } rebuilt
      | .error fault torn => .error (.io fault) torn

/-- A file that is the basis becomes the target that deltas describe. -/
def inPlace (buffer : Buffer) (deltas : List Delta) : EStateM Error ByteArray Report :=
  fun content =>
    match Plan.ofDeltas deltas with
    | .error error => .error error content
    | .ok plan => planInPlace buffer plan content

/-- Without a basis nothing can be copied. -/
def Plan.checkNoCopy (plan : Plan) : Except Error Unit :=
  match plan.firstCopy? with
  | some copy => .error (.copyWithoutBasis copy.start)
  | none => .ok ()

/-- The target of a plan that only has literals. -/
def Plan.literalContent (plan : Plan) : ByteArray :=
  let written := plan.literals.foldl
    (fun content (offset, piece) => Content.write content offset piece) ByteArray.empty
  Content.resize written plan.targetLength

end BlockDelta.Rebuild
