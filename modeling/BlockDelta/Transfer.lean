import BlockDelta.Delta.Decoding
import BlockDelta.Delta.Writer
import BlockDelta.Matching.Session
import BlockDelta.Rebuild.Fresh
import BlockDelta.Rebuild.InPlace
import BlockDelta.Signature.Encoding

/-!
# From a basis to a target

The holder of a basis sends its signature; the holder of the target matches it
against that signature and sends a delta; the holder of the basis rebuilds the
target from it. The delta is written while the target is being read: the
writer is a listener of the matcher.
-/

namespace BlockDelta

/-- A stream in progress takes every delta it is told of. -/
def DeltaWriter.listener : Listener DeltaWriter where
  receive delta writer :=
    match DeltaWriter.writeDelta delta writer with
    | .ok () written => (none, written)
    | .error fault written => (some fault.message, written)

namespace Transfer

/-- What can go wrong between a basis and a target. -/
inductive Error where
  /-- A stream cannot be written. -/
  | writing (fault : Fault)
  /-- The signature cannot be read. -/
  | signature (error : Signature.FormatError)
  /-- The target cannot be matched. -/
  | matching (error : StreamError)
  /-- The delta cannot be read. -/
  | delta (error : Delta.FormatError)
  /-- The target cannot be rebuilt. -/
  | rebuilding (error : Rebuild.Error)
  deriving DecidableEq, Repr

/-- The sending of a signature: the stream, and what the other side reads from it. -/
def sendSignature (signature : Signature) : Except Error (ByteArray × Signature) :=
  match signature.write .unlimited with
  | .error fault _ => .error (.writing fault)
  | .ok () sink => do
    let (received, _) ← (Signature.decode (Bytes.ofArray sink.accepted)).mapError .signature
    return (sink.accepted, received)

/-- A target is fed to a matcher, and its delta stream goes to a sink as the
deltas are found. -/
def describeTarget (index : BlockIndex) (options : MatchOptions) (feed : Feeding DeltaWriter Unit) :
    EStateM Error Sink Summary := fun sink =>
  match DeltaWriter.writeHeader (.toSink sink) with
  | .error fault writer => .error (.writing fault) writer.sink
  | .ok () writer =>
    match Session.start index options [DeltaWriter.listener] writer with
    | .error error => .error (.matching error) writer.sink
    | .ok session =>
      match (do feed; Session.finalize : Feeding DeltaWriter Summary) session with
      | .error error failed => .error (.matching error) failed.world.sink
      | .ok summary ended =>
        match DeltaWriter.finish summary.targetLength ended.world with
        | .error fault writer => .error (.writing fault) writer.sink
        | .ok () writer => .ok summary writer.sink

/-- The delta stream of a target that is fed in pieces, with its totals. -/
def sendDelta (index : BlockIndex) (options : MatchOptions) (pieces : List Bytes) :
    Except Error (Summary × ByteArray) :=
  match describeTarget index options (Session.updateEach pieces) .unlimited with
  | .error error _ => .error error
  | .ok summary sink => .ok (summary, sink.accepted)

/-- The deltas in a stream. -/
def receiveDelta (stream : ByteArray) : Except Error DecodedDelta := do
  let (decoded, _) ← (Delta.decode (Bytes.ofArray stream)).mapError .delta
  return decoded

/-- The target that deltas describe, written afresh. -/
def rebuildFresh (buffer : Rebuild.Buffer) (basis : ByteArray) (deltas : List Delta) :
    Except Error (Rebuild.Report × ByteArray) :=
  match Rebuild.fromContent buffer basis deltas .unlimited with
  | .error error _ => .error (.rebuilding error)
  | .ok report sink => .ok (report, sink.accepted)

/-- The target that deltas describe, in place of the basis. -/
def rebuildInPlace (buffer : Rebuild.Buffer) (basis : ByteArray) (deltas : List Delta) :
    Except Error (Rebuild.Report × ByteArray) :=
  match Rebuild.inPlace buffer deltas basis with
  | .error error _ => .error (.rebuilding error)
  | .ok report content => .ok (report, content)

end Transfer

end BlockDelta
