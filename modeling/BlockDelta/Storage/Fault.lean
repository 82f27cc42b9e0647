/-!
# Faults of reading and writing

Every way in which a read, a write or a look-up of a path can fail, with its
wording and its kind. Faults are values: a reader or a sink that fails keeps
the state it had reached.
-/

namespace BlockDelta

/-- The kinds by which faults are told apart. -/
inductive FaultKind where
  | endOfInput
  | invalidInput
  | notFound
  | isDirectory
  | notDirectory
  | nameTooLong
  | other
  deriving DecidableEq, Repr

/-- Why a read, a write or a look-up failed. -/
inductive Fault where
  /-- A read of a fixed size met the end of the input. -/
  | shortRead
  /-- The input ended inside a run of announced length. -/
  | cutRun
  /-- Seed bytes do not fit their length field. -/
  | seedTooLong
  /-- A literal does not fit its length field. -/
  | literalTooLong
  /-- A path holds a zero character. -/
  | zeroInPath
  /-- A path leads to nothing. -/
  | notFound
  /-- A path leads to a directory where a file is needed. -/
  | isDirectory
  /-- A path leads through something that is no directory. -/
  | notDirectory
  /-- A name in a path is longer than a directory can hold. -/
  | nameTooLong
  /-- A sink has taken all it can. -/
  | sinkFull
  /-- A device reports a failure of its own. -/
  | device (report : String)
  deriving DecidableEq, Repr

namespace Fault

/-- The wording of each cause. -/
def message : Fault → String
  | .shortRead => "failed to fill whole buffer"
  | .cutRun => "unexpected end of file"
  | .seedTooLong => "checksum seed longer than 65535 bytes"
  | .literalTooLong => "literal longer than 4 GiB"
  | .zeroInPath => "file name contained an unexpected NUL byte"
  | .notFound => "No such file or directory (os error 2)"
  | .isDirectory => "Is a directory (os error 21)"
  | .notDirectory => "Not a directory (os error 20)"
  | .nameTooLong => "File name too long (os error 36)"
  | .sinkFull => "sink full"
  | .device report => report

/-- The kind of each cause. -/
def kind : Fault → FaultKind
  | .shortRead => .endOfInput
  | .cutRun => .endOfInput
  | .seedTooLong => .invalidInput
  | .literalTooLong => .invalidInput
  | .zeroInPath => .invalidInput
  | .notFound => .notFound
  | .isDirectory => .isDirectory
  | .notDirectory => .notDirectory
  | .nameTooLong => .nameTooLong
  | .sinkFull => .other
  | .device _ => .other

end Fault

/-- Causes of failure that a fault may be among. -/
class FromFault (Cause : Type) where
  /-- The fault as such a cause. -/
  ofFault : Fault → Cause

/-- A read that is part of something with further causes of failure. -/
instance {Cause : Type} [FromFault Cause] : MonadLift (Except Fault) (Except Cause) where
  monadLift read := read.mapError FromFault.ofFault

end BlockDelta
