import BlockDelta.Text.Decimal

/-!
# Words of a command line

A grammar knows options by a long name and perhaps a letter. A value follows
its option behind an equals sign, as the next word, or directly behind the
letter; letters without value may share a word. A lone `--` ends the options.
Words that do not fit make the whole command line unreadable.
-/

namespace BlockDelta.CommandLine

/-- What an option takes. -/
inductive Takes where
  /-- No value. -/
  | nothing
  /-- Any text. -/
  | text
  /-- A number up to a bound. -/
  | number (most : Nat)
  deriving DecidableEq, Repr

/-- An option. -/
structure Rule where
  /-- Its name behind two dashes. -/
  long : String
  /-- Its letter behind one dash. -/
  short : Option Char
  /-- What it takes. -/
  takes : Takes
  /-- It may be given more than once. -/
  repeatable : Bool
  deriving Repr

/-- What may stand on one side of a command. -/
structure Grammar where
  /-- The options. -/
  rules : List Rule
  /-- The words that end this side. -/
  commands : List String
  /-- How many operands there may be. -/
  operands : Nat

/-- What stands on one side of a command. -/
structure Matches where
  /-- The options by long name with their values, in order; a value not taken is empty. -/
  given : List (String × String)
  /-- The operands in order. -/
  operands : List String
  deriving DecidableEq, Repr

/-- A value is what an option takes. -/
def Takes.accepts (takes : Takes) (value : String) : Bool :=
  match takes with
  | .nothing => value.isEmpty
  | .text => true
  | .number most => (Text.signedDecimal? value.toList).any fun number => number ≤ most

namespace Matches

/-- Nothing stands there. -/
def empty : Matches := ⟨[], []⟩

/-- An option is there. -/
def has (found : Matches) (long : String) : Bool := found.given.any fun option => option.1 == long

/-- How often an option is there. -/
def count (found : Matches) (long : String) : Nat :=
  found.given.countP fun option => option.1 == long

/-- The values of an option, in order. -/
def values (found : Matches) (long : String) : List String :=
  (found.given.filter fun option => option.1 == long).map Prod.snd

/-- The value of an option that is there once. -/
def value? (found : Matches) (long : String) : Option String := (found.values long).head?

/-- The number that an option takes. -/
def number (found : Matches) (long : String) : Option Nat :=
  (found.value? long).bind fun value => Text.signedDecimal? value.toList

/-- An option is added, if it may be and its value fits. -/
def add? (found : Matches) (rule : Rule) (value : String) : Option Matches :=
  if found.has rule.long && !rule.repeatable then none
  else if rule.takes.accepts value then
    some { found with given := found.given ++ [(rule.long, value)] }
  else none

/-- An operand is added, if there is room for it; an empty word is none. -/
def addOperand? (room : Nat) (found : Matches) (word : String) : Option Matches :=
  if word.isEmpty || room ≤ found.operands.length then none
  else some { found with operands := found.operands ++ [word] }

end Matches

namespace Grammar

/-- Letters behind one dash; the last one may still need its value. -/
def letters? (grammar : Grammar) (found : Matches) :
    List Char → Option (Matches × Option Rule)
  | [] => some (found, none)
  | letter :: rest => do
    let rule ← grammar.rules.find? fun rule => rule.short == some letter
    if rule.takes = .nothing then letters? grammar (← found.add? rule "") rest
    else
      match rest with
      | [] => return (found, some rule)
      | '=' :: value => return (← found.add? rule (String.ofList value), none)
      | value => return (← found.add? rule (String.ofList value), none)

/-- A long name behind two dashes, with its value if an equals sign follows it;
without, the value may still be needed. -/
def name? (grammar : Grammar) (found : Matches) (text : List Char) :
    Option (Matches × Option Rule) := do
  let name := String.ofList (text.takeWhile (· ≠ '='))
  let rule ← grammar.rules.find? fun rule => rule.long == name
  match text.dropWhile (· ≠ '=') with
  | [] =>
    if rule.takes = .nothing then return (← found.add? rule "", none)
    else return (found, some rule)
  | _ :: value =>
    if rule.takes = .nothing then none
    else return (← found.add? rule (String.ofList value), none)

/-- The words up to the first command, which is returned with the words behind
it. An option may be waiting for its value, which does not start with a dash
unless it is a lone one. -/
def words? (grammar : Grammar) (found : Matches) (waiting : Option Rule) :
    List String → Option (Matches × Option (String × List String))
  | [] => if waiting.isNone then some (found, none) else none
  | word :: rest =>
    match waiting, word.toList with
    | some _, '-' :: _ :: _ => none
    | some rule, _ => do words? grammar (← found.add? rule word) none rest
    | none, ['-', '-'] => do
      return (← rest.foldlM (Matches.addOperand? grammar.operands) found, none)
    | none, '-' :: '-' :: text => do
      let (found, waiting) ← grammar.name? found text
      words? grammar found waiting rest
    | none, '-' :: letter :: letters => do
      let (found, waiting) ← grammar.letters? found (letter :: letters)
      words? grammar found waiting rest
    | none, _ =>
      if grammar.commands.contains word then some (found, some (word, rest))
      else do words? grammar (← found.addOperand? grammar.operands word) none rest

/-- The words of one side, and the command that ends it with the words behind it. -/
def parse? (grammar : Grammar) (words : List String) :
    Option (Matches × Option (String × List String)) :=
  grammar.words? .empty none words

end Grammar

end BlockDelta.CommandLine
