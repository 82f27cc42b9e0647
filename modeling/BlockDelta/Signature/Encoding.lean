import BlockDelta.Signature.Basic
import BlockDelta.Storage.Field
import BlockDelta.Storage.Sink

/-!
# Signatures as byte streams

All words have their most significant byte first:

* four bytes `RDSG` and the version,
* the number of the digest, and its seed in eight bytes,
* the block length in four bytes, the strong length in one,
* the basis length in eight bytes,
* the length of the seed bytes in two bytes, and the seed bytes,
* for each block the rolling sum in four bytes and the strong sum.

The number of blocks, their offsets and their lengths follow from the basis
length and the block length. Reading stops behind the last record and returns
the bytes that follow.
-/

namespace BlockDelta.Signature

/-- The mark at the start of a signature stream. -/
def magic : Bytes := [0x52, 0x44, 0x53, 0x47]

/-- The version of the format. -/
def version : UInt8 := 1

/-- The longest seed that fits its length field. -/
def longestSeed : Nat := 65535

/-- A header whose fields contradict the format. -/
inductive HeaderFlaw where
  | blockLengthOutOfRange
  | zeroStrongLength
  | strongLengthTooWide
  | tooManyBlocks
  deriving DecidableEq, Repr

/-- The wording of each flaw. -/
def HeaderFlaw.message : HeaderFlaw → String
  | .blockLengthOutOfRange => "block length out of range"
  | .zeroStrongLength => "zero strong checksum length"
  | .strongLengthTooWide => "strong length exceeds digest width"
  | .tooManyBlocks => "too many blocks"

/-- Why a byte string is no signature stream. -/
inductive FormatError where
  /-- Reading failed or met the end. -/
  | io (fault : Fault)
  /-- The stream starts with something else. -/
  | badMagic (found : Bytes)
  /-- The version is not known. -/
  | unsupportedVersion (found : UInt8)
  /-- The number stands for no digest. -/
  | unknownAlgorithm (id : UInt8)
  /-- The header contradicts the format. -/
  | invalidHeader (flaw : HeaderFlaw)
  deriving DecidableEq, Repr

/-- The wording of each cause. -/
def FormatError.message : FormatError → String
  | .io fault => s!"signature stream I/O failed: {fault.message}"
  | .badMagic found => s!"not a signature stream (magic {Bytes.hexadecimalList found})"
  | .unsupportedVersion found => s!"unsupported signature stream version {found.toNat}"
  | .unknownAlgorithm id => s!"unknown strong checksum algorithm id {id.toNat}"
  | .invalidHeader flaw => s!"invalid signature header: {flaw.message}"

/-- The pieces of the header, in stream order. -/
def headerPieces (signature : Signature) : List Bytes :=
  let spec := signature.spec
  [magic, [version, spec.algorithm.id], Bytes.ofWord 8 spec.algorithm.seed.toNat,
    Bytes.ofWord 4 signature.layout.blockLength.toNat, Bytes.ofWord 1 spec.length,
    Bytes.ofWord 8 signature.total, Bytes.ofWord 2 spec.seed.length, spec.seed]

/-- The pieces of a block's record. -/
def recordPieces (block : Block) : List Bytes := [Bytes.ofWord 4 block.weak.toNat, block.strong]

/-- All pieces of the stream. -/
def pieces (signature : Signature) : List Bytes :=
  signature.headerPieces ++ signature.blocks.flatMap recordPieces

/-- The stream of a signature. -/
def encode (signature : Signature) : Bytes := signature.pieces.flatten

/-- A signature is written piece by piece; nothing is written when its seed does not fit. -/
def write (signature : Signature) : Writing Unit := do
  if longestSeed < signature.spec.seed.length then throw .seedTooLong
  Sink.writeEach signature.pieces

/-- A fault of reading makes a byte string no signature stream. -/
instance : FromFault FormatError := ⟨.io⟩

/-- The records of the blocks still to come, behind those already read (newest first). -/
def decodeRecords (layout : Layout) (strongLength : Nat) :
    Nat → Nat → Nat → List Block → Bytes → Except FormatError (List Block × Bytes)
  | 0, _, _, blocks, stream => .ok (blocks.reverse, stream)
  | count + 1, number, offset, blocks, stream => do
    let (weak, stream) ← Field.word 4 stream
    let (strong, stream) ← Field.bytes strongLength stream
    let length := (layout.lengthAt? number).getD 0
    let sum := Rolling.Sum.ofValue (UInt32.ofNat weak) length
    let block : Block := ⟨sum, strong, UInt64.ofNat offset, UInt32.ofNat number⟩
    decodeRecords layout strongLength count (number + 1) (offset + length) (block :: blocks) stream

/-- The signature at the start of a stream, and what follows it. -/
def decode (stream : Bytes) : Except FormatError (Signature × Bytes) := do
  let (found, stream) ← Field.bytes 4 stream
  if found ≠ magic then throw (.badMagic found)
  let (found, stream) ← Field.word 1 stream
  if found ≠ version.toNat then throw (.unsupportedVersion (UInt8.ofNat found))
  let (id, stream) ← Field.word 1 stream
  let (hashSeed, stream) ← Field.word 8 stream
  let some algorithm := Strong.Algorithm.ofId? (UInt8.ofNat id) (UInt64.ofNat hashSeed)
    | throw (.unknownAlgorithm (UInt8.ofNat id))
  let (length, stream) ← Field.word 4 stream
  if Layout.longestLength < length then throw (.invalidHeader .blockLengthOutOfRange)
  let some blockLength := BlockLength.ofNat? length
    | throw (.invalidHeader .blockLengthOutOfRange)
  let (kept, stream) ← Field.word 1 stream
  if positive : 0 < kept then
    let (total, stream) ← Field.word 8 stream
    let (seedLength, stream) ← Field.word 2 stream
    let (seed, stream) ← Field.bytes seedLength stream
    let .ok spec := Strong.Spec.ofParts algorithm ⟨kept, positive⟩ seed
      | throw (.invalidHeader .strongLengthTooWide)
    let .ok layout := Layout.ofLength total blockLength
      | throw (.invalidHeader .tooManyBlocks)
    let (blocks, stream) ← decodeRecords layout kept layout.blockCount 0 0 [] stream
    return (⟨layout, spec, blocks, total⟩, stream)
  else throw (.invalidHeader .zeroStrongLength)

end BlockDelta.Signature
