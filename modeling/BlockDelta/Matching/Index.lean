import Std.Data.HashMap
import BlockDelta.Signature.Basic

/-!
# Looking up a window among the blocks of a basis

Blocks are grouped by their rolling sum, each group in signature order. A
window matches a block when rolling sum, length and strong sum agree; of the
matching blocks the preferred one wins, otherwise the first. The strong sum of
the window is computed only when some block of the group has its length.
-/

namespace BlockDelta

/-- The blocks of a signature, grouped by rolling sum. -/
structure BlockIndex where
  /-- The length of the blocks. -/
  blockLength : BlockLength
  /-- The rule of the strong sums. -/
  spec : Strong.Spec
  /-- How many blocks there are. -/
  size : Nat
  /-- The blocks of each rolling sum, in signature order. -/
  groups : Std.HashMap UInt32 (List Block)

namespace BlockIndex

/-- The groups of a list of blocks. -/
def groupsOf (blocks : List Block) : Std.HashMap UInt32 (List Block) :=
  blocks.foldr (fun block groups => groups.insert block.weak (block :: groups.getD block.weak []))
    ∅

/-- The index of a signature. -/
def ofSignature (signature : Signature) : BlockIndex :=
  ⟨signature.layout.blockLength, signature.spec, signature.blocks.length,
    groupsOf signature.blocks⟩

/-- The blocks with a given rolling sum, in signature order. -/
def group (index : BlockIndex) (weak : UInt32) : List Block := index.groups.getD weak []

/-- How many different rolling sums the blocks have. -/
def distinctSums (index : BlockIndex) : Nat := index.groups.size

/-- The block that a window matches, among those still to be looked at: the
preferred one at once, otherwise the first one found. -/
def choose (length : Nat) (strong : Bytes) (preferred : Option UInt32) :
    Option Block → List Block → Option Block
  | first, [] => first
  | first, block :: rest =>
    if block.length = length ∧ block.strong = strong then
      if preferred = some block.number then some block
      else choose length strong preferred (first <|> some block) rest
    else choose length strong preferred first rest

/-- The block that a window of known length matches; the window itself, in two
parts, is asked for only when it matters. -/
def findWith? (index : BlockIndex) (sum : Rolling.Sum) (length : Nat)
    (window : Unit → Bytes × Bytes) (preferred : Option UInt32) : Option Block :=
  let group := index.group sum.value
  if group.any fun block => block.length == length then
    let (front, back) := window ()
    choose length (index.spec.sumParts front back) preferred none group
  else none

/-- The block that a window in two parts matches. -/
def find? (index : BlockIndex) (sum : Rolling.Sum) (front back : Bytes)
    (preferred : Option UInt32) : Option Block :=
  index.findWith? sum (front.length + back.length) (fun _ => (front, back)) preferred

/-- The number that follows the last one matched, if a 32-bit word can hold it. -/
def successor (last : Option UInt32) : Option UInt32 :=
  last.bind fun number => if number.toNat + 1 < UInt32.size then some (number + 1) else none

end BlockIndex

end BlockDelta
