import BlockDelta.Rebuild.Plan
import BlockDelta.Storage.Content
import BlockDelta.Storage.Sink

/-!
# Rebuilding into a sink

The deltas of a plan are written one behind the other. Literals are written as
they are; a copy is read from the basis and written in pieces no longer than
the buffer. The basis is read from a position that moves along with the reads,
so a copy that continues the last one needs no new position.
-/

namespace BlockDelta.Rebuild

/-- A basis that can be read at any offset. -/
structure Basis where
  /-- Where the basis ends. -/
  size : Nat
  /-- Exactly so many bytes from an offset. -/
  read : Nat → Nat → Except Fault ByteArray

namespace Basis

/-- A basis in memory. -/
def ofContent (content : ByteArray) : Basis := ⟨content.size, Content.read content⟩

end Basis

/-- How far a rebuild has come. -/
structure Progress where
  /-- From where the basis is read next. -/
  position : Nat
  /-- Where the last copy ended in the basis. -/
  lastStop : Option Nat
  /-- What has been written. -/
  sink : Sink

/-- A step of a rebuild; a failure keeps what was written. -/
abbrev Rebuilding := EStateM Fault Progress

/-- Bytes are written behind what was written. -/
def emit (piece : Bytes) : Rebuilding Unit := fun progress =>
  match Sink.write piece progress.sink with
  | .ok () sink => .ok () { progress with sink }
  | .error fault sink => .error fault { progress with sink }

/-- The next bytes of the basis. -/
def readNext (basis : Basis) (count : Nat) : Rebuilding ByteArray := fun progress =>
  match basis.read progress.position count with
  | .ok piece => .ok piece { progress with position := progress.position + count }
  | .error fault => .error fault progress

/-- So many bytes of the basis are written, in pieces no longer than the buffer. -/
def copyNext (buffer : Buffer) (basis : Basis) (remaining : Nat) : Rebuilding Unit :=
  if remaining = 0 then pure ()
  else do
    let count := min remaining buffer.size
    let piece ← readNext basis count
    emit (Bytes.ofArray piece)
    copyNext buffer basis (remaining - count)
termination_by remaining
decreasing_by have := buffer.positive; omega

/-- The basis is read next from an offset, unless the last copy ended there. -/
def seek (offset : Nat) : Rebuilding Unit :=
  modify fun progress =>
    if progress.lastStop = some offset then progress else { progress with position := offset }

/-- A delta is written. -/
def emitDelta (buffer : Buffer) (basis : Basis) : Delta → Rebuilding Unit
  | .literal _ data => emit data
  | .copy source _ length => do
    seek source.toNat
    copyNext buffer basis length.toNat
    modify fun progress => { progress with lastStop := some (source.toNat + length.toNat) }

/-- Deltas are written one behind the other. -/
def emitDeltas (buffer : Buffer) (basis : Basis) : List Delta → Rebuilding Unit
  | [] => pure ()
  | delta :: rest => do
    emitDelta buffer basis delta
    emitDeltas buffer basis rest

/-- The target that deltas describe is written to a sink. -/
def toSink (buffer : Buffer) (basis : Basis) (deltas : List Delta) :
    EStateM Error Sink Report := fun sink =>
  let checked := do
    let plan ← Plan.ofDeltas deltas
    plan.checkCopies basis.size
    return plan
  match checked with
  | .error error => .error error sink
  | .ok plan =>
    match emitDeltas buffer basis plan.deltas ⟨basis.size, none, sink⟩ with
    | .ok () done => .ok plan.report done.sink
    | .error fault failed => .error (.io fault) failed.sink

/-- The target that deltas describe is written to a sink, from a basis in memory. -/
def fromContent (buffer : Buffer) (basis : ByteArray) (deltas : List Delta) :
    EStateM Error Sink Report :=
  toSink buffer (Basis.ofContent basis) deltas

end BlockDelta.Rebuild
