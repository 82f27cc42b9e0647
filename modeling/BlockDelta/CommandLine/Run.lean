import BlockDelta.CommandLine.Failure
import BlockDelta.CommandLine.Help
import BlockDelta.Rebuild.Files
import BlockDelta.Signature.Generate
import BlockDelta.Transfer

/-!
# Running commands

A command runs on a tree of files and standard output. An output file is
created, and thereby emptied, as soon as everything asked for has been found to
be possible; what was written to it before a later failure stays. A target is
read only after the output has been created.
-/

namespace BlockDelta.CommandLine

/-- What a command acts on. -/
structure Machine where
  /-- The files. -/
  files : FileTree
  /-- Standard output. -/
  output : Sink

/-- A run of a command; a failure keeps what was done before it. -/
abbrev Running := EStateM Failure Machine

/-- A result that touches nothing. -/
def settle {ε α : Type} (wrap : ε → Failure) (result : Except ε α) : Running α := fun machine =>
  match result with
  | .ok value => .ok value machine
  | .error error => .error (wrap error) machine

/-- An action on the files alone. -/
def onFiles {α : Type} (action : Rebuild.Filing α) : Running α := fun machine =>
  match action machine.files with
  | .ok value files => .ok value { machine with files }
  | .error error files => .error (.rebuilding error) { machine with files }

/-- An output that has been opened. -/
inductive Opened where
  /-- Standard output. -/
  | standard
  /-- A file, empty so far. -/
  | file (number : Nat)

/-- An existing file or directory is opened. -/
def openNode (path : String) : Running Node := do
  settle (.access .openFile path) ((← get).files.lookUp path)

/-- An output is opened; a file is created or emptied. -/
def openOutput (output : Output) : Running Opened := do
  match output with
  | .standard => return .standard
  | .file path =>
    let (number, files) ← settle (.access .create path) ((← get).files.create path)
    modify fun machine => { machine with files }
    return .file number

/-- Something is written to an opened output; what it accepted stays, whatever
becomes of the writing. -/
def writeTo {ε α : Type} (opened : Opened) (wrap : ε → Failure) (writing : EStateM ε Sink α) :
    Running α := fun machine =>
  let start :=
    match opened with
    | .standard => machine.output
    | .file _ => .unlimited
  let settled (sink : Sink) : Machine :=
    match opened with
    | .standard => { machine with output := sink }
    | .file number => { machine with files := machine.files.store number sink.accepted }
  match writing start with
  | .ok value sink => .ok value (settled sink)
  | .error error sink => .error (wrap error) (settled sink)

/-- The signature of a basis is written. -/
def runSignature (basis : String) (output : Output) (options : Signature.Options) :
    Running Unit := do
  let node ← openNode basis
  let generator ← settle .signature (options.generator ((← get).files.size node))
  let content ← settle (.access .read basis) ((← get).files.read node)
  let signature ← settle .signature (generator.ofBuffer 0 (Bytes.ofArray content))
  let opened ← openOutput output
  writeTo opened (.access .write output.name) signature.write

/-- The failure behind the words with which a transfer fails. -/
def transferFailure (target output : String) : Transfer.Error → Failure
  | .writing fault => .access .write output fault
  | .matching (.io fault) => .access .read target fault
  | .matching error => .matching error
  | .signature error => .signatureFormat target error
  | .delta error => .deltaFormat target error
  | .rebuilding error => .rebuilding error

/-- What can be read from a node: everything at once, or a failure. -/
def readerOf (files : FileTree) (node : Node) : Reader :=
  match files.read node with
  | .ok content => Reader.ofBytes (Bytes.ofArray content)
  | .error fault => [.failed fault]

/-- The stream in an opened file is decoded. -/
def decodeNode {ε α : Type} (node : Node) (wrap : ε → Failure)
    (unreadable : Fault → ε) (decode : Bytes → Except ε (α × Bytes)) : Running α := do
  let content ← settle (fun fault => wrap (unreadable fault)) ((← get).files.read node)
  let (value, _) ← settle wrap (decode (Bytes.ofArray content))
  return value

/-- The delta of a target is written. -/
def runDelta (signature target : String) (output : Output) (options : MatchOptions) :
    Running Unit := do
  let node ← openNode signature
  let decoded ← decodeNode node (.signatureFormat signature) .io Signature.decode
  let node ← openNode target
  let opened ← openOutput output
  let reader := readerOf (← get).files node
  let feed : Feeding DeltaWriter Unit := do
    let _ ← Session.consume reader
  let _ ← writeTo opened (transferFailure target output.name)
    (Transfer.describeTarget (BlockIndex.ofSignature decoded) options feed)

/-- A target is rebuilt. -/
def runPatch (basis delta : String) (destination : Destination) : Running Unit := do
  let node ← openNode delta
  let decoded ← decodeNode node (.deltaFormat delta) .io Delta.decode
  let deltas := decoded.script.deltas
  match destination with
  | .inPlace =>
    let _ ← onFiles (Rebuild.fileInPlace {} basis deltas)
  | .fresh (.file path) =>
    let _ ← onFiles (Rebuild.toFile {} basis path deltas)
  | .fresh .standard =>
    let node ← openNode basis
    let source := Rebuild.Basis.ofNode (← get).files node
    let _ ← writeTo .standard .rebuilding (Rebuild.toSink {} source deltas)

/-- A text goes to standard output. -/
def say (text : String) : Running Unit :=
  writeTo .standard (.access .write Output.standard.name)
    (Sink.write (Bytes.ofArray text.toUTF8))

/-- A request is served. -/
def serve : Request → Running Unit
  | .help => say helpText
  | .version => say versionLine
  | .command (.signature basis output options) _ => runSignature basis output options
  | .command (.delta signature target output options) _ => runDelta signature target output options
  | .command (.patch basis delta destination) _ => runPatch basis delta destination

/-- How a run ended. -/
structure Ending where
  /-- The status. -/
  status : Nat
  /-- What goes to standard error. -/
  complaint : String
  /-- What the run left behind. -/
  machine : Machine

/-- A command line, with the name of the program as its first word, is run. -/
def run (arguments : List String) (machine : Machine) : Ending :=
  let running : Running Unit := do
    serve (← settle .usage (Request.ofWords arguments.tail))
  match running machine with
  | .ok () machine => ⟨0, "", machine⟩
  | .error failure machine => ⟨failure.status, failure.report, machine⟩

end BlockDelta.CommandLine
