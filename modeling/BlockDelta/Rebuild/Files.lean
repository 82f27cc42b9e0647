import BlockDelta.Rebuild.Fresh
import BlockDelta.Rebuild.InPlace
import BlockDelta.Storage.FileTree

/-!
# Rebuilding files

A target is rebuilt from one file into another, or in place. Everything that
can be checked is checked before a file is created or changed.
-/

namespace BlockDelta.Rebuild

/-- A rebuild among files; a failure keeps what was written. -/
abbrev Filing := EStateM Error FileTree

/-- The end that a directory shows to someone who reads it as a file. -/
def directoryEnd : Nat := UInt64.size / 2 - 1

/-- A node as a basis; a directory has no bytes to read. -/
def Basis.ofNode (tree : FileTree) : Node → Basis
  | .file number => Basis.ofContent (tree.content number)
  | .directory _ => ⟨directoryEnd, fun _ _ => .error .isDirectory⟩

/-- A result that does not touch the files. -/
def settled {α : Type} (result : Except Error α) : Filing α := fun tree =>
  match result with
  | .ok value => .ok value tree
  | .error error => .error error tree

/-- A faulty access to the files. -/
def access {α : Type} (result : Except Fault α) : Filing α := settled (result.mapError .io)

/-- The target that deltas describe is written into a new or emptied file that
is not the basis. -/
def toFile (buffer : Buffer) (basis destination : String) (deltas : List Delta) :
    Filing Report := do
  if (← get).same basis destination then throw (.samePath destination)
  let plan ← settled (Plan.ofDeltas deltas)
  let node ← access ((← get).lookUp basis)
  settled (plan.checkCopies ((← get).size node))
  let (number, created) ← access ((← get).create destination)
  set created
  match toSink buffer (Basis.ofNode created node) deltas .unlimited with
  | .ok report sink => do
    modify fun tree => tree.store number sink.accepted
    return report
  | .error error sink => do
    modify fun tree => tree.store number sink.accepted
    throw error

/-- A file becomes the target of a plan; one that is missing is created, which
needs a plan without copies. -/
def planFileInPlace (buffer : Buffer) (path : String) (plan : Plan) : Filing Report := do
  match (← get).lookUp path with
  | .error .notFound => do
    settled plan.checkNoCopy
    let (number, created) ← access ((← get).create path)
    set (created.store number plan.literalContent)
    return plan.report
  | .error fault => throw (.io fault)
  | .ok (.directory place) => do
    settled (plan.checkCopies ((← get).size (.directory place)))
    throw (.io .isDirectory)
  | .ok (.file number) => do
    let tree ← get
    match planInPlace buffer plan (tree.content number) with
    | .ok report content => do
      set (tree.store number content)
      return report
    | .error error content => do
      set (tree.store number content)
      throw error

/-- A file becomes the target that deltas describe. -/
def fileInPlace (buffer : Buffer) (path : String) (deltas : List Delta) : Filing Report := do
  let plan ← settled (Plan.ofDeltas deltas)
  planFileInPlace buffer path plan

end BlockDelta.Rebuild
