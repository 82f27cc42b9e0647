import BlockDelta.CommandLine.Grammar
import BlockDelta.Matching.Greedy
import BlockDelta.Signature.Basic
import BlockDelta.Verbosity

/-!
# What a command line asks for

The grammar of the program, and the request that a command line amounts to:
help, the version, or a command on files. General options may stand on either
side of the command. Whatever is wrong with the words is found before any file
is touched.
-/

namespace BlockDelta.CommandLine

/-- Where a stream goes. -/
inductive Output where
  /-- To standard output. -/
  | standard
  /-- Into a file. -/
  | file (path : String)
  deriving DecidableEq, Repr

/-- The output that an operand stands for: a lone dash is standard output. -/
def Output.ofOperand (operand : String) : Output :=
  if operand = "-" then .standard else .file operand

/-- The name of an output in messages. -/
def Output.name : Output → String
  | .standard => "<stdout>"
  | .file path => path

/-- What becomes of a rebuilt target. -/
inductive Destination where
  /-- It takes the place of the basis. -/
  | inPlace
  /-- It is written afresh. -/
  | fresh (output : Output)
  deriving DecidableEq, Repr

/-- A command with its operands and options. -/
inductive Invocation where
  /-- A signature of a basis is written. -/
  | signature (basis : String) (output : Output) (options : Signature.Options)
  /-- A delta of a target is written. -/
  | delta (signature target : String) (output : Output) (options : MatchOptions)
  /-- A target is rebuilt. -/
  | patch (basis delta : String) (destination : Destination)

/-- What a command line asks for. -/
inductive Request where
  /-- The help text. -/
  | help
  /-- The version. -/
  | version
  /-- A command, while reporting so much. -/
  | command (invocation : Invocation) (verbosity : Verbosity)

/-- Why a command line asks for nothing that can be done. -/
inductive UsageError where
  /-- The words do not fit the grammar. -/
  | unreadable
  /-- A token of the option for debug levels is wrong. -/
  | debugToken (token : String) (error : TokenError)
  /-- There is no command. -/
  | missingCommand
  /-- A command lacks an operand. -/
  | missingOperand (operand command : String)
  /-- A rebuilt target has nowhere to go. -/
  | missingDestination
  /-- A target that takes the place of the basis needs no output. -/
  | surplusDestination
  /-- Strong sums must keep something. -/
  | zeroSumLength
  /-- Literals must carry something. -/
  | zeroLiteral
  /-- No digest has this name. -/
  | algorithm (unknown : Strong.UnknownAlgorithm)
  deriving DecidableEq, Repr

/-- The wording of each cause; what does not fit the grammar has only a fixed text. -/
def UsageError.message : UsageError → String
  | .unreadable => "<argument parser error>"
  | .debugToken token error => s!"--debug={token}: {error.message}"
  | .missingCommand => "missing command (expected signature, delta or patch); see --help"
  | .missingOperand operand command => s!"missing {operand} operand for '{command}'"
  | .missingDestination => "missing OUTPUT operand for 'patch' (or pass --inplace)"
  | .surplusDestination => "--inplace rewrites BASIS and takes no OUTPUT operand"
  | .zeroSumLength => "--sum-length must be at least 1"
  | .zeroLiteral => "--max-literal must be at least 1"
  | .algorithm unknown => unknown.message

/-- The options that may stand on either side of the command. -/
def generalRules : List Rule :=
  [⟨"help", some 'h', .nothing, false⟩, ⟨"verbose", some 'v', .nothing, true⟩,
    ⟨"debug", none, .text, true⟩]

/-- The grammar before the command. -/
def mainGrammar : Grammar :=
  ⟨generalRules ++ [⟨"version", some 'V', .nothing, false⟩], ["signature", "delta", "patch"], 0⟩

/-- The greatest 32-bit word. -/
def greatestWord : Nat := UInt32.size - 1

/-- The options of the command that writes signatures. -/
def signatureRules : List Rule :=
  [⟨"block-size", some 'B', .number greatestWord, false⟩, ⟨"checksum", none, .text, false⟩,
    ⟨"sum-length", none, .number 255, false⟩,
    ⟨"checksum-seed", none, .number greatestWord, false⟩]

/-- The grammar behind a command. -/
def commandGrammar (command : String) : Grammar :=
  if command = "signature" then ⟨generalRules ++ signatureRules, [], 2⟩
  else if command = "delta" then
    ⟨generalRules ++ [⟨"max-literal", none, .number greatestWord, false⟩], [], 3⟩
  else ⟨generalRules ++ [⟨"inplace", none, .nothing, false⟩], [], 3⟩

/-- A command line taken apart. -/
structure Words where
  /-- What stands before the command. -/
  front : Matches
  /-- The command, and what stands behind it. -/
  command : Option (String × Matches)

/-- A command line, without the name of the program, is taken apart. -/
def Words.parse? (words : List String) : Option Words := do
  match ← mainGrammar.parse? words with
  | (front, none) => return ⟨front, none⟩
  | (front, some (command, rest)) =>
    let (back, _) ← (commandGrammar command).parse? rest
    return ⟨front, some (command, back)⟩

namespace Words

/-- What stands behind the command; without a command, what stands before it. -/
def back (words : Words) : Matches :=
  match words.command with
  | some (_, back) => back
  | none => words.front

/-- Debug tokens behind the command replace those before it. -/
def debugTokens (words : Words) : List String :=
  match words.back.values "debug" with
  | [] => words.front.values "debug"
  | tokens => tokens

/-- The general level, no greater than it can be; behind the command it replaces
the one before. -/
def verboseLevel (words : Words) : Nat :=
  let level :=
    match words.back.count "verbose" with
    | 0 => words.front.count "verbose"
    | count => count
  min level Verbosity.greatestLevel

/-- How much is to be reported. -/
def verbosity (words : Words) : Except UsageError Verbosity :=
  words.debugTokens.foldlM
    (fun verbosity token => (verbosity.apply token).mapError (.debugToken token))
    (Verbosity.ofLevel words.verboseLevel)

end Words

/-- The operand at a place, or the complaint that it is missing. -/
def operand (found : Matches) (command : String) (place : Nat) (name : String) :
    Except UsageError String :=
  match found.operands[place]? with
  | some operand => .ok operand
  | none => .error (.missingOperand name command)

/-- A digest and a seed: a digest that takes a seed is seeded itself, any other
has the seed hashed behind the data; zero is no seed. -/
def seeded (algorithm : Strong.Algorithm) (seed : Nat) : Strong.Algorithm × Bytes :=
  match algorithm with
  | .xxh64 _ => (if seed = 0 then algorithm else .xxh64 (UInt64.ofNat seed), [])
  | _ => (algorithm, if seed = 0 then [] else Bytes.ofWordReversed 4 seed)

/-- The command that writes a signature. -/
def signatureInvocation (found : Matches) : Except UsageError Invocation := do
  let basis ← operand found "signature" 0 "BASIS"
  let output ← operand found "signature" 1 "OUTPUT"
  let algorithm ←
    match found.value? "checksum" with
    | none => pure .md4
    | some name => (Strong.Algorithm.ofName name).mapError .algorithm
  let (algorithm, seed) := seeded algorithm ((found.number "checksum-seed").getD 0)
  let strongLength ←
    match found.number "sum-length" with
    | none => pure none
    | some length =>
      if positive : 0 < length then pure (some ⟨length, positive⟩) else throw .zeroSumLength
  return .signature basis (.ofOperand output)
    { blockLength := found.number "block-size", algorithm, strongLength, seed }

/-- The command that writes a delta. -/
def deltaInvocation (found : Matches) : Except UsageError Invocation := do
  let signature ← operand found "delta" 0 "SIGNATURE"
  let target ← operand found "delta" 1 "TARGET"
  let output ← operand found "delta" 2 "OUTPUT"
  let options : MatchOptions ←
    match found.number "max-literal" with
    | none => pure {}
    | some most => if positive : 0 < most then pure ⟨most, positive⟩ else throw .zeroLiteral
  return .delta signature target (.ofOperand output) options

/-- The command that rebuilds a target. -/
def patchInvocation (found : Matches) : Except UsageError Invocation := do
  let basis ← operand found "patch" 0 "BASIS"
  let delta ← operand found "patch" 1 "DELTA"
  match found.has "inplace", found.operands[2]? with
  | true, none => return .patch basis delta .inPlace
  | true, some _ => throw .surplusDestination
  | false, some output => return .patch basis delta (.fresh (.ofOperand output))
  | false, none => throw .missingDestination

/-- The command that words ask for. -/
def Words.invocation (words : Words) : Except UsageError Invocation :=
  match words.command with
  | none => .error .missingCommand
  | some (command, found) =>
    if command = "signature" then signatureInvocation found
    else if command = "delta" then deltaInvocation found
    else patchInvocation found

/-- What a command line, without the name of the program, asks for. -/
def Request.ofWords (words : List String) : Except UsageError Request := do
  let some words := Words.parse? words | throw .unreadable
  let verbosity ← words.verbosity
  if words.back.has "help" || words.front.has "help" then return .help
  if words.front.has "version" then return .version
  return .command (← words.invocation) verbosity

end BlockDelta.CommandLine
