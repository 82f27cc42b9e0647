import BlockDelta.Delta.Format
import BlockDelta.Delta.Script
import BlockDelta.Storage.Sink

/-!
# Writing delta streams

A stream is written record by record, while deltas are still being found. A
write that fails keeps what the sink accepted, and writing may go on behind it;
only complete records are counted.
-/

namespace BlockDelta

/-- A delta stream in progress. -/
structure DeltaWriter where
  /-- Where the stream goes. -/
  sink : Sink
  /-- How many records have been written completely. -/
  records : Nat

namespace DeltaWriter

/-- A stream that goes to a sink. -/
def toSink (sink : Sink) : DeltaWriter := ⟨sink, 0⟩

/-- Pieces go to the sink; a failure keeps what it accepted. -/
def writePieces (pieces : List Bytes) : EStateM Fault DeltaWriter Unit := fun writer =>
  match Sink.writeEach pieces writer.sink with
  | .ok () sink => .ok () { writer with sink }
  | .error fault sink => .error fault { writer with sink }

/-- The header is written. -/
def writeHeader : EStateM Fault DeltaWriter Unit := writePieces Delta.headerPieces

/-- A delta is written as a record and counted once it is complete. -/
def writeDelta (delta : Delta) : EStateM Fault DeltaWriter Unit := do
  if delta.isLiteral && UInt32.size ≤ delta.length then throw .literalTooLong
  writePieces delta.recordPieces
  modify fun writer => { writer with records := writer.records + 1 }

/-- The end record is written. -/
def finish (targetLength : Nat) : EStateM Fault DeltaWriter Unit :=
  writePieces (Delta.endPieces targetLength)

/-- Records are written one after the other until one fails. -/
def writeDeltas : List Delta → EStateM Fault DeltaWriter Unit
  | [] => pure ()
  | delta :: rest => do
    writeDelta delta
    writeDeltas rest

end DeltaWriter

namespace Script

/-- A whole script is written: header, records, end. -/
def write (script : Script) : EStateM Fault DeltaWriter Unit := do
  DeltaWriter.writeHeader
  DeltaWriter.writeDeltas script.deltas
  DeltaWriter.finish script.totalBytes

end Script

end BlockDelta
