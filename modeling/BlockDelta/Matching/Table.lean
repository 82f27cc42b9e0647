import BlockDelta.Matching.Index

/-!
# The index in memory

`BlockIndex` keeps every group of blocks as a list of its own. In memory the
blocks stand in one array, in signature order, and a group is the array of the
places of its blocks; the place of a block joins its group behind those of the
blocks before it. A window is looked up place by place: its strong sum is
computed for the first block that has its length, and is then known for the
others.
-/

namespace BlockDelta

/-- The blocks of a signature in their places, and the places of each rolling sum. -/
structure BlockTable where
  /-- The length of the blocks. -/
  blockLength : BlockLength
  /-- The rule of the strong sums. -/
  spec : Strong.Spec
  /-- The blocks in signature order. -/
  blocks : Array Block
  /-- The places of the blocks of each rolling sum. -/
  places : Std.HashMap UInt32 (Array (Fin blocks.size))

namespace BlockTable

/-- The block in a place. -/
def blockIn (blocks : Array Block) (place : Fin blocks.size) : Block := blocks[place]

/-- The place of a block joins those of its rolling sum. -/
def enter (blocks : Array Block) (places : Std.HashMap UInt32 (Array (Fin blocks.size)))
    (place : Fin blocks.size) : Std.HashMap UInt32 (Array (Fin blocks.size)) :=
  let weak := (blockIn blocks place).weak
  places.insert weak ((places.getD weak #[]).push place)

/-- The table of a signature: the blocks are entered one after the other. -/
def ofSignature (signature : Signature) : BlockTable :=
  let blocks := signature.blocks.toArray
  ⟨signature.layout.blockLength, signature.spec, blocks,
    (List.finRange blocks.size).foldl (enter blocks) ∅⟩

/-- The block that a window in two parts matches, among those in places still to be looked at. The
strong sum of the window may be known already; the preferred block wins at once, otherwise the first
one found. -/
def search (table : BlockTable) (front back : Bytes) (preferred : Option UInt32) :
    Option Bytes → Option Block → List (Fin table.blocks.size) → Option Block
  | _, first, [] => first
  | known, first, place :: rest =>
    let block := blockIn table.blocks place
    if block.length ≠ front.length + back.length then
      search table front back preferred known first rest
    else
      let strong := known.getD (table.spec.sumParts front back)
      if block.strong ≠ strong then search table front back preferred (some strong) first rest
      else if preferred = some block.number then some block
      else search table front back preferred (some strong) (first <|> some block) rest

/-- The block that a window in two parts matches. -/
def find? (table : BlockTable) (sum : Rolling.Sum) (front back : Bytes)
    (preferred : Option UInt32) : Option Block :=
  match table.places[sum.value]? with
  | none => none
  | some places => table.search front back preferred none none places.toList

end BlockTable

end BlockDelta
