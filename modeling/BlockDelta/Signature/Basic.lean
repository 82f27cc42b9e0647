import BlockDelta.Rolling.Sum
import BlockDelta.Signature.Layout
import BlockDelta.Storage.Fault
import BlockDelta.Strong.Spec

/-!
# Signatures

The signature of a basis is its layout, the rule of its strong sums, and for
each block a rolling sum, a strong sum, the offset in the basis and a number.
Options choose block length and strong sums; together with the length of a
basis they make a generator.
-/

namespace BlockDelta

/-- What is known of one block of a basis. -/
structure Block where
  /-- The rolling sum, with the block's length. -/
  sum : Rolling.Sum
  /-- The strong sum. -/
  strong : Bytes
  /-- Where the block starts in the basis. -/
  offset : UInt64
  /-- The number of the block. -/
  number : UInt32
  deriving DecidableEq, Repr

namespace Block

/-- The rolling sum as a word. -/
def weak (block : Block) : UInt32 := block.sum.value

/-- The length of the block as a 32-bit number. -/
def length (block : Block) : Nat := block.sum.length % UInt32.size

/-- The block holds nothing. -/
def isEmpty (block : Block) : Bool := block.sum.length == 0

end Block

/-- The blocks of a basis with what they are computed by. -/
structure Signature where
  /-- The cut of the basis. -/
  layout : Layout
  /-- The rule of the strong sums. -/
  spec : Strong.Spec
  /-- The blocks in basis order. -/
  blocks : List Block
  /-- The length of the basis. -/
  total : Nat
  deriving DecidableEq

namespace Signature

/-- Why a signature cannot be made. -/
inductive Error where
  /-- The basis cannot be read. -/
  | io (fault : Fault)
  /-- The digest is narrower than the strong sums asked for. -/
  | width (error : Strong.WidthError)
  /-- The basis cannot be cut. -/
  | layout (error : Layout.Error)
  /-- The basis has more blocks than there are numbers. -/
  | tooManyBlocks (most : Nat)
  deriving DecidableEq, Repr

/-- The wording of each cause. -/
def Error.message : Error → String
  | .io fault => s!"failed to read input while generating signature: {fault.message}"
  | .width error => error.message
  | .layout error => error.message
  | .tooManyBlocks most => s!"basis describes more than {most} blocks"

/-- What can be chosen about a signature. -/
structure Options where
  /-- A forced block length. -/
  blockLength : Option Nat := none
  /-- The digest of the strong sums. -/
  algorithm : Strong.Algorithm := .md4
  /-- How many bytes of each digest are kept; all of them when nothing is said. -/
  strongLength : Option { count : Nat // 0 < count } := none
  /-- Bytes hashed behind every block. -/
  seed : Bytes := []

/-- What turns a basis into its signature. -/
structure Generator where
  /-- The length of the blocks. -/
  blockLength : BlockLength
  /-- The rule of the strong sums. -/
  spec : Strong.Spec

/-- The rule of the strong sums that is asked for. -/
def Options.spec (options : Options) : Except Error Strong.Spec :=
  let length := options.strongLength.getD
    ⟨options.algorithm.digestLength, options.algorithm.digestLength_pos⟩
  (Strong.Spec.ofParts options.algorithm length options.seed).mapError .width

/-- The cut that is asked for, of a basis of a known length. -/
def Options.layout (options : Options) (basisLength : Nat) : Except Error Layout :=
  (Layout.choose basisLength options.blockLength).mapError .layout

/-- The generator for a basis of a known length. -/
def Options.generator (options : Options) (basisLength : Nat) : Except Error Generator := do
  let spec ← options.spec
  let layout ← options.layout basisLength
  return ⟨layout.blockLength, spec⟩

end Signature

end BlockDelta
