import BlockDelta.Storage.Content

/-!
# Files, directories and paths

A tree of directories in which names lead to files. Several names may lead to
the same file, and all of them see its one content. A path is looked up from
the root when it starts with a slash and otherwise from the working directory;
only a directory can be passed through, and a slash at the end asks for a
directory.
-/

namespace BlockDelta

/-- The names that lead from the root to a file or a directory. -/
abbrev Place := List String

/-- Directories, files, and the directory from which paths start. -/
structure FileTree where
  /-- All directories but the root. -/
  directories : List Place
  /-- The places of files and the number of the file at each. -/
  links : List (Place × Nat)
  /-- The contents of all files by number. -/
  contents : Array ByteArray
  /-- Where paths without a leading slash start. -/
  working : Place

/-- What is found at a place. -/
inductive Node where
  /-- A directory. -/
  | directory (place : Place)
  /-- A file by its number. -/
  | file (number : Nat)
  deriving DecidableEq, Repr

namespace FileTree

/-- The most bytes in one name of a path. -/
def longestName : Nat := 255

/-- The most bytes in a path. -/
def longestPath : Nat := 4095

/-- The size that a directory shows as a file. -/
def directorySize : Nat := 4096

/-- What is at a place, if anything. -/
def node? (tree : FileTree) (place : Place) : Option Node :=
  if place.isEmpty || tree.directories.contains place then some (.directory place)
  else (tree.links.lookup place).map .file

/-- The parts of a path between its slashes. -/
def parts (path : String) : List String := path.splitOn "/"

/-- One part of a path is followed from a node. -/
def follow (tree : FileTree) (start : Node) (part : String) : Except Fault Node :=
  match start with
  | .file _ => .error .notDirectory
  | .directory place =>
    if part = "" ∨ part = "." then .ok start
    else if part = ".." then .ok (.directory place.dropLast)
    else if longestName < part.utf8ByteSize then .error .nameTooLong
    else
      match tree.node? (place ++ [part]) with
      | some node => .ok node
      | none => .error .notFound

/-- Where a path starts. -/
def origin (tree : FileTree) (path : String) : Node :=
  .directory (if path.startsWith "/" then [] else tree.working)

/-- No path can be looked up that is empty, holds a zero character or is too long. -/
def checkPath (path : String) : Except Fault Unit :=
  if path.contains '\x00' then .error .zeroInPath
  else if path.isEmpty then .error .notFound
  else if longestPath < path.utf8ByteSize then .error .nameTooLong
  else .ok ()

/-- What a path leads to. -/
def lookUp (tree : FileTree) (path : String) : Except Fault Node := do
  checkPath path
  (parts path).foldlM tree.follow (tree.origin path)

/-- The content of a file. -/
def content (tree : FileTree) (number : Nat) : ByteArray := tree.contents.getD number .empty

/-- The size that a node shows. -/
def size (tree : FileTree) : Node → Nat
  | .directory _ => directorySize
  | .file number => (tree.content number).size

/-- All bytes of a node; a directory has none to read. -/
def read (tree : FileTree) : Node → Except Fault ByteArray
  | .directory _ => .error .isDirectory
  | .file number => .ok (tree.content number)

/-- A file gets a new content. -/
def store (tree : FileTree) (number : Nat) (content : ByteArray) : FileTree :=
  { tree with contents := tree.contents.setIfInBounds number content }

/-- A file holds what it was given, and every other file what it held. -/
theorem content_store (tree : FileTree) (number other : Nat) (content : ByteArray)
    (known : number < tree.contents.size) :
    (tree.store number content).content other =
      if number = other then content else tree.content other := by
  simp only [FileTree.content, store, Array.getD_eq_getD_getElem?, Array.getElem?_setIfInBounds]
  by_cases same : number = other
  · simp [same, same ▸ known]
  · simp [same]

/-- A new name leads to a new empty file. -/
def add (tree : FileTree) (place : Place) : Nat × FileTree :=
  (tree.contents.size,
    { tree with
      links := tree.links ++ [(place, tree.contents.size)]
      contents := tree.contents.push .empty })

/-- The parts before the last one that is not empty, that one, and whether a slash follows it. -/
def splitLast (path : String) : List String × String × Bool :=
  let whole := parts path
  let shorn := (whole.reverse.dropWhile (· = "")).reverse
  (shorn.dropLast, shorn.getLastD "", whole.getLast? == some "")

/-- A new name leads to a new file with a content. -/
def addFile (tree : FileTree) (place : Place) (content : ByteArray) : FileTree :=
  let (number, added) := tree.add place
  added.store number content

/-- A new name leads to a file that has a name already; without it nothing changes. -/
def addLink (tree : FileTree) (existing added : Place) : FileTree :=
  match tree.links.lookup existing with
  | none => tree
  | some number => { tree with links := tree.links ++ [(added, number)] }

/-- A directory is made, with those above it. -/
def addDirectory (tree : FileTree) (place : Place) : FileTree :=
  let opened := (List.range place.length).map fun depth => place.take (depth + 1)
  { tree with directories := tree.directories ++ opened }

/-- A tree with no files and its working directory. -/
def ofWorking (working : Place) : FileTree := addDirectory ⟨[], [], #[], working⟩ working

/-- A place below the working directory. -/
def below (tree : FileTree) (path : String) : Place := tree.working ++ parts path

/-- The files below the working directory, with the paths that lead to them from there. -/
def listing (tree : FileTree) : List (String × ByteArray) :=
  let depth := tree.working.length
  tree.links.filterMap fun (place, number) =>
    if place.take depth = tree.working then
      some ("/".intercalate (place.drop depth), tree.content number)
    else none

/-- A file is opened for writing: an existing one is emptied, a missing one is
added; a directory, or a path that asks for one, is refused. -/
def create (tree : FileTree) (path : String) : Except Fault (Nat × FileTree) := do
  checkPath path
  let (front, name, slash) := splitLast path
  match ← front.foldlM tree.follow (tree.origin path) with
  | .file _ => throw .notDirectory
  | .directory place =>
    if slash then throw .isDirectory
    else
      match tree.follow (.directory place) name with
      | .ok (.directory _) => throw .isDirectory
      | .ok (.file number) => return (number, tree.store number .empty)
      | .error .notFound => return tree.add (place ++ [name])
      | .error fault => throw fault

/-- Whether a path starts at the root, whether it starts with a lone dot, and
its names: paths that agree in this are the same in writing. -/
def written (path : String) : Bool × Bool × List String :=
  let names := (parts path).filter fun part => part ≠ "" ∧ part ≠ "."
  (path.startsWith "/", (parts path).head? == some ".", names)

/-- Two paths lead to the same node, or, when one leads nowhere, are the same in writing. -/
def same (tree : FileTree) (left right : String) : Bool :=
  match tree.lookUp left, tree.lookUp right with
  | .ok leftNode, .ok rightNode => leftNode == rightNode
  | _, _ => written left == written right

end FileTree

end BlockDelta
