import BlockDelta.CommandLine.Invocation
import BlockDelta.Delta.Format
import BlockDelta.Matching.Listener
import BlockDelta.Rebuild.Plan
import BlockDelta.Signature.Encoding

/-!
# How a command fails

The causes for which a command fails, what is said of each, and the status with
which the program ends: 1 for what was asked, 11 for access to files, 12 for
streams that are malformed or do not fit the basis.
-/

namespace BlockDelta.CommandLine

/-- What was being done with a file. -/
inductive Action where
  | openFile
  | read
  | create
  | write
  deriving DecidableEq, Repr

/-- The verb of an action. -/
def Action.verb : Action → String
  | .openFile => "open"
  | .read => "read"
  | .create => "create"
  | .write => "write"

/-- Why a command fails. -/
inductive Failure where
  /-- The command line asks for nothing that can be done. -/
  | usage (error : UsageError)
  /-- A file cannot be used. -/
  | access (action : Action) (path : String) (fault : Fault)
  /-- No signature can be made. -/
  | signature (error : Signature.Error)
  /-- A file holds no signature. -/
  | signatureFormat (path : String) (error : Signature.FormatError)
  /-- A file holds no delta. -/
  | deltaFormat (path : String) (error : Delta.FormatError)
  /-- The target cannot be matched. -/
  | matching (error : StreamError)
  /-- The target cannot be rebuilt. -/
  | rebuilding (error : Rebuild.Error)
  deriving DecidableEq, Repr

namespace Failure

/-- The wording of each cause. -/
def message : Failure → String
  | .usage error => error.message
  | .access action path fault => s!"failed to {action.verb} {path}: {fault.message}"
  | .signature error => error.message
  | .signatureFormat path error => s!"{path}: {error.message}"
  | .deltaFormat path error => s!"{path}: {error.message}"
  | .matching error => error.message
  | .rebuilding error => error.message

/-- The status for a wrong command line or configuration. -/
def usageStatus : Nat := 1

/-- The status for files that cannot be read or written. -/
def accessStatus : Nat := 11

/-- The status for malformed streams. -/
def formatStatus : Nat := 12

/-- The status of a failed rebuild. -/
def rebuildStatus : Rebuild.Error → Nat
  | .io _ => accessStatus
  | .samePath _ => usageStatus
  | .copyWithoutBasis _ => usageStatus
  | .copyOutOfRange _ _ _ => formatStatus
  | .lengthOverflow _ => formatStatus
  | .tiling _ => formatStatus

/-- The status with which the program ends. -/
def status : Failure → Nat
  | .usage _ => usageStatus
  | .access _ _ _ => accessStatus
  | .signature (.io _) => accessStatus
  | .signature _ => usageStatus
  | .signatureFormat _ _ => formatStatus
  | .deltaFormat _ _ => formatStatus
  | .matching _ => accessStatus
  | .rebuilding error => rebuildStatus error

/-- What is written to standard error. -/
def report (failure : Failure) : String :=
  match failure with
  | .usage .unreadable => "rdelta: " ++ failure.message
  | _ => s!"rdelta: {failure.message} (code {failure.status})\n"

end Failure

/-- A status as the operating system takes it: none below 0 or above 255. -/
def exitCode (status : Int) : UInt8 := UInt8.ofNat (min status.toNat 255)

end BlockDelta.CommandLine
