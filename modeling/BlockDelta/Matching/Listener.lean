import BlockDelta.Delta.Basic
import BlockDelta.Rolling.Sum
import BlockDelta.Storage.Fault

/-!
# Listeners

Every delta that is found in a target is handed to all listeners in the order
in which they were added. A listener acts on a world of its own, which is
threaded through every call, and may fail; the failures of one call are
reported together.
-/

namespace BlockDelta

/-- Someone who is told of every delta, acts on a world, and may report a failure. -/
structure Listener (World : Type) where
  /-- The report of a failure, if any, and the world afterwards. -/
  receive : Delta → World → Option String × World

/-- A listener's failure at a delta. -/
structure ListenerFailure where
  /-- The listener's number, in the order of registration. -/
  listener : Nat
  /-- Where the delta starts in the target. -/
  offset : Nat
  /-- What the listener reported. -/
  report : String
  deriving DecidableEq, Repr

/-- Why feeding a target failed. -/
inductive StreamError where
  /-- The target has been finalized already. -/
  | finalized
  /-- Listeners failed; everything was matched nevertheless. -/
  | listeners (failures : List ListenerFailure)
  /-- The target cannot be read. -/
  | io (fault : Fault)
  /-- The window refused a byte. -/
  | rolling (error : Rolling.Error)
  deriving DecidableEq, Repr

/-- The wording of each cause. -/
def StreamError.message : StreamError → String
  | .finalized => "stream matcher is finalized; reset it before feeding more input"
  | .listeners failures =>
    failures.foldl
      (fun text failure =>
        text ++ s!"; listener {failure.listener} at offset {failure.offset}: {failure.report}")
      s!"{failures.length} listener failure(s)"
  | .io fault => s!"reading target failed: {fault.message}"
  | .rolling error => error.message

variable {World : Type}

/-- A delta is handed to listeners in order, the first one having a known number. -/
def Listener.deliver (delta : Delta) :
    Nat → List (Listener World) → List ListenerFailure → World → List ListenerFailure × World
  | _, [], failures, world => (failures, world)
  | number, listener :: rest, failures, world =>
    match listener.receive delta world with
    | (none, world) => deliver delta (number + 1) rest failures world
    | (some report, world) =>
      deliver delta (number + 1) rest (⟨number, delta.start, report⟩ :: failures) world

end BlockDelta
