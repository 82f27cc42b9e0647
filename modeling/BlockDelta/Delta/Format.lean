import BlockDelta.Delta.Tiling
import BlockDelta.Storage.Fault

/-!
# The format of delta streams

All words have their most significant byte first: four bytes `RDDL`, the
version, then records, each behind its tag:

* tag 1, a copy: source and offset in eight bytes each, the length in four,
* tag 2, a literal: the offset in eight bytes, the length in four, the bytes,
* tag 0, the end: the length of the target in eight bytes.

A stream ends with its end record, and its deltas tile the target they
announce.
-/

namespace BlockDelta

namespace Delta

/-- The mark at the start of a delta stream. -/
def magic : Bytes := [0x52, 0x44, 0x44, 0x4c]

/-- The version of the format. -/
def version : UInt8 := 1

/-- The tag of the end record. -/
def endTag : UInt8 := 0

/-- The tag of a copy. -/
def copyTag : UInt8 := 1

/-- The tag of a literal. -/
def literalTag : UInt8 := 2

/-- Why a byte string is no delta stream. -/
inductive FormatError where
  /-- Reading failed or met the end. -/
  | io (fault : Fault)
  /-- The stream starts with something else. -/
  | badMagic (found : Bytes)
  /-- The version is not known. -/
  | unsupportedVersion (found : UInt8)
  /-- A record has a tag that stands for nothing. -/
  | unknownTag (found : UInt8)
  /-- The deltas do not tile the target. -/
  | tiling (error : TilingError)
  deriving DecidableEq, Repr

/-- The wording of each cause. -/
def FormatError.message : FormatError → String
  | .io fault => s!"delta stream I/O failed: {fault.message}"
  | .badMagic found => s!"not a delta stream (magic {Bytes.hexadecimalList found})"
  | .unsupportedVersion found => s!"unsupported delta stream version {found.toNat}"
  | .unknownTag found => s!"unknown delta record tag {found.toNat}"
  | .tiling error => s!"malformed delta stream: {error.message}"

/-- The pieces of the header, in stream order. -/
def headerPieces : List Bytes := [magic, [version]]

/-- The pieces of a delta's record. -/
def recordPieces : Delta → List Bytes
  | .copy source offset length =>
    [[copyTag], Bytes.ofWord 8 source.toNat, Bytes.ofWord 8 offset.toNat,
      Bytes.ofWord 4 length.toNat]
  | .literal offset data =>
    [[literalTag], Bytes.ofWord 8 offset.toNat, Bytes.ofWord 4 data.length, data]

/-- The pieces of the end record. -/
def endPieces (targetLength : Nat) : List Bytes := [[endTag], Bytes.ofWord 8 targetLength]

end Delta

end BlockDelta
