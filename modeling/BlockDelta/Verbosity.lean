import BlockDelta.Text.Decimal

/-!
# Verbosity

How much is reported: a general level, and a level for each subsystem. The
general level sets those of the subsystems; tokens such as `delta2` set single
ones. The outcome is written as a filter text.
-/

namespace BlockDelta

/-- The parts of the program that report on their own. -/
inductive Subsystem where
  /-- The making of signatures. -/
  | genr
  /-- Matching. -/
  | delta
  /-- Sending. -/
  | send
  /-- Receiving. -/
  | recv
  /-- Access to files. -/
  | io
  deriving DecidableEq, Repr

namespace Subsystem

/-- All subsystems in the order in which they are reported. -/
def all : List Subsystem := [.genr, .delta, .send, .recv, .io]

/-- The name of a subsystem. -/
def name : Subsystem → String
  | .genr => "genr"
  | .delta => "delta"
  | .send => "send"
  | .recv => "recv"
  | .io => "io"

/-- The name of a subsystem in a filter text. -/
def target (subsystem : Subsystem) : String := "rdelta::" ++ subsystem.name

end Subsystem

/-- Why a token names no subsystem and level. -/
inductive TokenError where
  /-- There is no text. -/
  | empty
  /-- The text starts with a digit. -/
  | missingName (token : String)
  /-- What follows the name is no level. -/
  | invalidLevel (token : String)
  /-- No subsystem has this name. -/
  | unknownName (name : String)
  deriving DecidableEq, Repr

/-- The wording of each cause. -/
def TokenError.message : TokenError → String
  | .empty => "empty flag token"
  | .missingName token => s!"missing flag name in: {token}"
  | .invalidLevel token => s!"invalid level in flag: {token}"
  | .unknownName name => s!"unknown debug flag: {name}"

/-- The subsystem with a name. -/
def Subsystem.ofName (name : String) : Except TokenError Subsystem :=
  match all.find? fun subsystem => subsystem.name == name with
  | some subsystem => .ok subsystem
  | none => .error (.unknownName name)

/-- A level for each subsystem. -/
structure DebugLevels where
  /-- The level of each. -/
  level : Subsystem → Nat

namespace DebugLevels

/-- Every subsystem has the same level. -/
def uniform (level : Nat) : DebugLevels := ⟨fun _ => level⟩

/-- One subsystem gets a level. -/
def set (levels : DebugLevels) (subsystem : Subsystem) (level : Nat) : DebugLevels :=
  ⟨fun other => if other = subsystem then level else levels.level other⟩

/-- The levels in the order of the subsystems. -/
def toList (levels : DebugLevels) : List Nat := Subsystem.all.map levels.level

end DebugLevels

/-- A general level and the levels of the subsystems. -/
structure Verbosity where
  /-- The general level. -/
  verbose : Nat
  /-- The levels of the subsystems. -/
  debug : DebugLevels

namespace Verbosity

/-- Warnings only. -/
def quiet : Verbosity := ⟨0, .uniform 0⟩

/-- The verbosity of a general level. From the second on, subsystems report too. -/
def ofLevel (level : Nat) : Verbosity :=
  if level < 2 then ⟨level, .uniform 0⟩
  else if level = 2 then
    ⟨level, (((DebugLevels.uniform 0).set .genr 1).set .delta 1).set .recv 1⟩
  else if level = 3 then ⟨level, .uniform 2⟩
  else ⟨level, .uniform 3⟩

/-- The greatest level that a token can give. -/
def greatestLevel : Nat := 255

/-- A token as a name and a level; without digits the level is one. -/
def parseToken (token : String) : Except TokenError (String × Nat) :=
  let name := token.toList.takeWhile fun character => !character.isDigit
  let digits := token.toList.dropWhile fun character => !character.isDigit
  if token.isEmpty then .error .empty
  else if digits.isEmpty then .ok (token, 1)
  else if name.isEmpty then .error (.missingName token)
  else
    match Text.decimal? digits with
    | none => .error (.invalidLevel token)
    | some level =>
      if greatestLevel < level then .error (.invalidLevel token)
      else .ok (String.ofList name, level)

/-- A token sets the level of a subsystem. -/
def apply (verbosity : Verbosity) (token : String) : Except TokenError Verbosity := do
  let (name, level) ← parseToken token
  let subsystem ← Subsystem.ofName name
  return { verbosity with debug := verbosity.debug.set subsystem level }

/-- The part of the filter text for a subsystem; level zero has none. -/
def directive (verbosity : Verbosity) (subsystem : Subsystem) : String :=
  match verbosity.debug.level subsystem with
  | 0 => ""
  | 1 => "," ++ subsystem.target ++ "=debug"
  | _ => "," ++ subsystem.target ++ "=trace"

/-- The filter text. -/
def filter (verbosity : Verbosity) : String :=
  let base := if verbosity.verbose = 0 then "warn" else "info"
  base ++ String.join (Subsystem.all.map verbosity.directive)

end Verbosity

end BlockDelta
