import BlockDelta.CommandLine.Run

/-!
# The program

The files that a command line can name are read into a tree, the command runs
on it, and what it changed is written back. A path with symbolic links leads to
the same file as the path without them.
-/

namespace BlockDelta.Program

open CommandLine

/-- The place that a path without symbolic links and dots names. -/
def placeOf (path : String) : Place := (FileTree.parts path).filter (· ≠ "")

/-- The path of a place. -/
def pathOf (place : Place) : String := "/" ++ "/".intercalate place

/-- The place that a path names when its dots are left as they are. -/
def literalPlace (working : Place) (path : String) : Place :=
  if path.startsWith "/" then placeOf path
  else working ++ (FileTree.parts path).filter fun part => part ≠ "" ∧ part ≠ "."

/-- A path as far as each of its slashes, and the whole. -/
def fronts (path : String) : List String :=
  let parts := FileTree.parts path
  (List.range parts.length).map fun count => "/".intercalate (parts.take (count + 1))

/-- What a path leads to is added to the tree, unless it leads nowhere. -/
def load (tree : FileTree) (path : String) : IO FileTree := do
  try
    let real ← IO.FS.realPath path
    let place := placeOf real.toString
    let literal := literalPlace tree.working path
    if ← real.isDir then
      return (tree.addDirectory place).addDirectory literal
    let loaded ←
      if (tree.links.lookup place).isSome then pure tree
      else pure (tree.addFile place (← IO.FS.readBinFile real))
    if (loaded.links.lookup literal).isSome then return loaded
    else return loaded.addLink place literal
  catch _ => return tree

/-- Everything that the words of a command line can name. -/
def loadAll (words : List String) : IO FileTree := do
  let working := placeOf (← IO.FS.realPath ".").toString
  let paths := words.flatMap fronts
  (paths.filter fun path => !path.isEmpty).foldlM load (.ofWorking working)

/-- The files whose content is new are written. -/
def save (before after : FileTree) : IO Unit := do
  for (place, number) in after.links do
    let content := after.content number
    let old := (before.links.lookup place).map before.content
    if old != some content then IO.FS.writeBinFile (pathOf place) content

end BlockDelta.Program

/-- The command line is run on the files it names. -/
def main (arguments : List String) : IO UInt32 := do
  let files ← BlockDelta.Program.loadAll arguments
  let ending := BlockDelta.CommandLine.run ("rdelta" :: arguments) ⟨files, .unlimited⟩
  BlockDelta.Program.save files ending.machine.files
  (← IO.getStdout).write ending.machine.output.accepted
  (← IO.getStderr).putStr ending.complaint
  return (BlockDelta.CommandLine.exitCode ending.status).toUInt32
