import BlockDelta.Delta.Format
import BlockDelta.Delta.Script
import BlockDelta.Storage.Field

/-!
# Reading delta streams

Reading stops behind the end record, accepts only deltas that tile the target
they announce, and returns the bytes that follow.
-/

namespace BlockDelta

/-- What a delta stream says. -/
structure DecodedDelta where
  /-- The deltas as they were written. -/
  script : Script
  /-- The length of the target. -/
  targetLength : Nat
  deriving DecidableEq

namespace Delta

/-- A fault of reading makes a byte string no delta stream. -/
instance : FromFault FormatError := ⟨.io⟩

/-- A record of the stream. -/
inductive Record where
  | delta (delta : Delta)
  | finish (targetLength : Nat)
  deriving DecidableEq

/-- A copy's record behind its tag. -/
def decodeCopy (stream : Bytes) : Except Fault (Delta × Bytes) := do
  let (source, stream) ← Field.word 8 stream
  let (offset, stream) ← Field.word 8 stream
  let (length, stream) ← Field.word 4 stream
  return (.copy (UInt64.ofNat source) (UInt64.ofNat offset) (UInt32.ofNat length), stream)

/-- A literal's record behind its tag; its bytes may not end early. -/
def decodeLiteral (stream : Bytes) : Except Fault (Delta × Bytes) := do
  let (offset, stream) ← Field.word 8 stream
  let (length, stream) ← Field.word 4 stream
  match Bytes.splitExactly length stream with
  | none => throw .cutRun
  | some (data, stream) => return (.literal (UInt64.ofNat offset) data, stream)

/-- The length of the target in the end record. -/
def decodeEnd (stream : Bytes) : Except Fault (Nat × Bytes) := Field.word 8 stream

/-- A record behind its tag; no record has an unknown tag. -/
def decodeRecord (tag : UInt8) (stream : Bytes) : Except Fault (Option (Record × Bytes)) :=
  if tag = endTag then
    (decodeEnd stream).map fun (targetLength, rest) => some (.finish targetLength, rest)
  else if tag = copyTag then
    (decodeCopy stream).map fun (delta, rest) => some (.delta delta, rest)
  else if tag = literalTag then
    (decodeLiteral stream).map fun (delta, rest) => some (.delta delta, rest)
  else .ok none

/-- A copy's record takes bytes from the front only. -/
theorem length_of_decodeCopy {stream rest : Bytes} {delta : Delta}
    (read : decodeCopy stream = .ok (delta, rest)) : rest.length ≤ stream.length := by
  simp only [decodeCopy, bind, Except.bind] at read
  split at read
  · cases read
  rename_i source
  split at read
  · cases read
  rename_i offset
  split at read
  · cases read
  rename_i length
  cases read
  have := Field.length_of_word source
  have := Field.length_of_word offset
  have := Field.length_of_word length
  omega

/-- A literal's record takes bytes from the front only. -/
theorem length_of_decodeLiteral {stream rest : Bytes} {delta : Delta}
    (read : decodeLiteral stream = .ok (delta, rest)) : rest.length ≤ stream.length := by
  simp only [decodeLiteral, bind, Except.bind] at read
  split at read
  · cases read
  rename_i offset
  split at read
  · cases read
  rename_i length
  split at read
  · cases read
  rename_i found
  cases read
  have := Field.length_of_word offset
  have := Field.length_of_word length
  have := congrArg List.length (Bytes.splitExactly_eq_some found).1
  simp only [List.length_append] at this
  omega

/-- A record takes bytes from the front only. -/
theorem length_of_decodeRecord {tag : UInt8} {stream rest : Bytes} {record : Record}
    (read : decodeRecord tag stream = .ok (some (record, rest))) :
    rest.length ≤ stream.length := by
  simp only [decodeRecord] at read
  split at read
  · cases found : decodeEnd stream with
    | error fault => simp [found, Except.map] at read
    | ok parts =>
      simp only [found, Except.map, Except.ok.injEq, Option.some.injEq, Prod.mk.injEq] at read
      have := Field.length_of_word found
      rw [← read.2]
      omega
  split at read
  · cases found : decodeCopy stream with
    | error fault => simp [found, Except.map] at read
    | ok parts =>
      simp only [found, Except.map, Except.ok.injEq, Option.some.injEq, Prod.mk.injEq] at read
      have := length_of_decodeCopy found
      rw [← read.2]
      omega
  split at read
  · cases found : decodeLiteral stream with
    | error fault => simp [found, Except.map] at read
    | ok parts =>
      simp only [found, Except.map, Except.ok.injEq, Option.some.injEq, Prod.mk.injEq] at read
      have := length_of_decodeLiteral found
      rw [← read.2]
      omega
  · cases read

/-- The records up to the end record, behind the deltas already read (newest
first), with the length of the target and what follows. -/
def decodeRecords (deltas : List Delta) :
    Bytes → Except FormatError (List Delta × Nat × Bytes)
  | [] => .error (.io .shortRead)
  | tag :: stream =>
    match found : decodeRecord tag stream with
    | .error fault => .error (.io fault)
    | .ok none => .error (.unknownTag tag)
    | .ok (some (.finish targetLength, rest)) => .ok (deltas.reverse, targetLength, rest)
    | .ok (some (.delta delta, rest)) =>
      have : rest.length ≤ stream.length := length_of_decodeRecord found
      decodeRecords (delta :: deltas) rest
termination_by stream => stream.length
decreasing_by simp only [List.length_cons]; omega

/-- The deltas at the start of a stream, and what follows them. -/
def decode (stream : Bytes) : Except FormatError (DecodedDelta × Bytes) := do
  let (found, stream) ← Field.bytes 4 stream
  if found ≠ magic then throw (.badMagic found)
  let (found, stream) ← Field.word 1 stream
  if found ≠ version.toNat then throw (.unsupportedVersion (UInt8.ofNat found))
  let (deltas, targetLength, stream) ← decodeRecords [] stream
  let script := Script.ofDeltas deltas
  (script.checkTiling targetLength).mapError .tiling
  return (⟨script, targetLength⟩, stream)

end Delta

end BlockDelta
