import BlockDelta.Signature.Basic
import BlockDelta.Storage.Reader

/-!
# Making a signature

A basis in memory is cut into pieces at once; a basis behind a reader is
gathered one block at a time, so that only one block is held. Both describe
every piece in the same way and so agree wherever both succeed.
-/

namespace BlockDelta.Signature.Generator

/-- What is known of a piece of the basis. -/
def describe (generator : Generator) (offset number : Nat) (piece : Bytes) : Block :=
  ⟨Rolling.Sum.ofBytes piece, generator.spec.sum piece, UInt64.ofNat offset, UInt32.ofNat number⟩

/-- The pieces of a basis, cut into blocks of the generator's length. -/
def pieces (generator : Generator) (basis : Bytes) : List Bytes :=
  Bytes.chunks generator.blockLength.toNat generator.blockLength.positive basis

/-- The signature of a basis in memory; offsets count from a base. -/
def ofBuffer (generator : Generator) (base : Nat) (basis : Bytes) : Except Error Signature := do
  let total := basis.length
  let layout ← (Layout.ofLength total generator.blockLength).mapError .layout
  let blocks := (generator.pieces basis).mapIdx fun number piece =>
    generator.describe (base + number * generator.blockLength.toNat) number piece
  return ⟨layout, generator.spec, blocks, total⟩

/-- The blocks of what a reader delivers, behind those already described
(newest first), and the length of the whole. -/
def blocksOfReader (generator : Generator) (described : List Block) (number total : Nat)
    (reader : Reader) : Except Error (List Block × Nat) :=
  match filled : reader.fill generator.blockLength.toNat with
  | .error fault => .error (.io fault)
  | .ok (piece, rest) =>
    if nothing : piece.length = 0 then .ok (described.reverse, total)
    else if Layout.mostBlocks < number then .error (.tooManyBlocks Layout.mostBlocks)
    else
      let described := generator.describe total number piece :: described
      let total := total + piece.length
      if piece.length < generator.blockLength.toNat then .ok (described.reverse, total)
      else blocksOfReader generator described (number + 1) total rest
termination_by reader.weight
decreasing_by
  have := Reader.weight_fill filled
  omega

/-- The signature of everything a reader delivers. -/
def ofReader (generator : Generator) (reader : Reader) : Except Error Signature := do
  let (blocks, total) ← generator.blocksOfReader [] 0 0 reader
  let layout ← (Layout.ofLength total generator.blockLength).mapError .layout
  return ⟨layout, generator.spec, blocks, total⟩

end BlockDelta.Signature.Generator
