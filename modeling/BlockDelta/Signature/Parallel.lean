import BlockDelta.Signature.Generate

/-!
# Making a signature in parallel

Blocks are described independently of each other, so a basis in memory can be
shared out: it is cut behind whole blocks, again and again, as workers become
free, and the descriptions are put together in the order of the basis. Where
the cuts fall is up to the workers. Only large bases are worth the trouble.
-/

namespace BlockDelta.Signature

/-- How the blocks of a basis are shared out. -/
inductive Division where
  /-- One worker describes all blocks. -/
  | whole
  /-- So many blocks go to one side, the rest to the other. -/
  | cut (count : Nat) (front back : Division)

/-- The length from which a basis is shared out. -/
def parallelThreshold : Nat := 256 * 1024

namespace Generator

/-- The blocks of a part of the basis, the first of which has a known number. -/
def blocksOfDivision (generator : Generator) (base : Nat) :
    Division → Nat → Bytes → List Block
  | .whole, first, part =>
    (generator.pieces part).mapIdx fun number piece =>
      generator.describe (base + (first + number) * generator.blockLength.toNat) (first + number)
        piece
  | .cut count front back, first, part =>
    let place := min (count * generator.blockLength.toNat) part.length
    generator.blocksOfDivision base front first (part.take place) ++
      generator.blocksOfDivision base back (first + count) (part.drop place)

/-- The signature of a basis in memory, shared out in some way. -/
def ofBufferParallel (generator : Generator) (division : Division) (base : Nat) (basis : Bytes) :
    Except Error Signature := do
  let total := basis.length
  let layout ← (Layout.ofLength total generator.blockLength).mapError .layout
  return ⟨layout, generator.spec, generator.blocksOfDivision base division 0 basis, total⟩

/-- The signature of a basis in memory, shared out if that is worth the trouble. -/
def ofBufferAuto (generator : Generator) (division : Division) (base : Nat) (basis : Bytes) :
    Except Error Signature :=
  if parallelThreshold ≤ basis.length then generator.ofBufferParallel division base basis
  else generator.ofBuffer base basis

end Generator

end BlockDelta.Signature
