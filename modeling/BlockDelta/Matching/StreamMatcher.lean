import BlockDelta.Matching.Greedy
import BlockDelta.Matching.Listener
import BlockDelta.Rolling.Window

/-!
# The state of a matcher

While a target arrives, one block of it is held in a window and at most one
literal's worth of passed-over bytes is pending; everything before that has
been handed out as deltas.
-/

namespace BlockDelta

/-- Where a matcher is in its life. -/
inductive Phase where
  /-- The target is being fed. -/
  | accumulating
  /-- The deltas of a match are being handed out; never seen between calls. -/
  | flushing
  /-- The target has ended. -/
  | finalized
  deriving DecidableEq, Repr

/-- The phase for diagnostics. -/
def Phase.describe : Phase → String
  | .accumulating => "Accumulating"
  | .flushing => "MatchedFlush"
  | .finalized => "Finalized"

/-- Totals of a target. -/
structure Summary where
  /-- The bytes fed. -/
  targetLength : Nat
  /-- The bytes handed out in literals. -/
  literalBytes : Nat
  /-- The bytes handed out as copies. -/
  copyBytes : Nat
  /-- How many deltas were handed out. -/
  deltas : Nat
  deriving DecidableEq, Repr

/-- The totals of a target that has not begun. -/
def Summary.zero : Summary := ⟨0, 0, 0, 0⟩

/-- The totals for diagnostics. -/
def Summary.describe (summary : Summary) : String :=
  "StreamSummary \x7b target_len: " ++ toString summary.targetLength ++
    ", literal_bytes: " ++ toString summary.literalBytes ++
    ", copy_bytes: " ++ toString summary.copyBytes ++
    ", deltas: " ++ toString summary.deltas ++ " \x7d"

/-- A matcher with the part of the target it still holds. -/
structure StreamMatcher (World : Type) where
  /-- The blocks of the basis. -/
  index : BlockIndex
  /-- The bound on literals. -/
  options : MatchOptions
  /-- Who is told of the deltas. -/
  listeners : List (Listener World)
  /-- The last bytes of the target, at most a block. -/
  window : Rolling.Window
  /-- The bytes before the window that no delta describes yet, newest first. -/
  pending : Bytes
  /-- How many bytes are pending. -/
  pendingLength : Nat
  /-- How much of the target the deltas describe. -/
  emitted : Nat
  /-- The number of the last block matched. -/
  last : Option UInt32
  /-- The totals. -/
  summary : Summary
  /-- The failures of the current call, newest first. -/
  failures : List ListenerFailure
  /-- Where the matcher is in its life. -/
  phase : Phase

variable {World : Type}

namespace StreamMatcher

/-- A matcher that has seen nothing, without listeners. -/
def ofIndex (index : BlockIndex) (options : MatchOptions) :
    Except StreamError (StreamMatcher World) :=
  match Rolling.Window.ofCapacity index.blockLength.toNat with
  | .error error => .error (.rolling error)
  | .ok window =>
    .ok ⟨index, options, [], window, [], 0, 0, none, Summary.zero, [], .accumulating⟩

/-- A listener is added behind the others. -/
def addListener (matcher : StreamMatcher World) (listener : Listener World) :
    StreamMatcher World :=
  { matcher with listeners := matcher.listeners ++ [listener] }

/-- How much of the target has been fed. -/
def consumed (matcher : StreamMatcher World) : Nat := matcher.summary.targetLength

/-- Nothing of the target is held any more. -/
def clearBuffers (matcher : StreamMatcher World) : StreamMatcher World :=
  { matcher with
    window := matcher.window.clear
    pending := []
    pendingLength := 0
    emitted := 0
    last := none }

/-- A new target begins; the listeners stay. -/
def reset (matcher : StreamMatcher World) : StreamMatcher World :=
  { matcher.clearBuffers with
    summary := Summary.zero
    failures := []
    phase := .accumulating }

/-- A delta is added to the totals. -/
def account (matcher : StreamMatcher World) (delta : Delta) (failures : List ListenerFailure) :
    StreamMatcher World :=
  let summary := matcher.summary
  { matcher with
    emitted := matcher.emitted + delta.length
    failures
    summary :=
      if delta.isLiteral then
        { summary with
          literalBytes := summary.literalBytes + delta.length, deltas := summary.deltas + 1 }
      else
        { summary with
          copyBytes := summary.copyBytes + delta.length, deltas := summary.deltas + 1 } }

/-- The matcher for diagnostics. -/
def describe (matcher : StreamMatcher World) : String :=
  "StreamMatcher \x7b state: " ++ matcher.phase.describe ++
    ", listeners: " ++ toString matcher.listeners.length ++
    ", window: " ++ toString matcher.window.length ++
    ", pending: " ++ toString matcher.pendingLength ++
    ", summary: " ++ matcher.summary.describe ++ ", .. \x7d"

end StreamMatcher

end BlockDelta
