import BlockDelta.Proofs.Running
import BlockDelta.Proofs.Storage.Streams
import BlockDelta.Signature.Encoding
import Mathlib

/-!
# What stands in a signature stream

A header is a choice of values for its fields, whatever they are; which values
make sense is a matter of its own. Reading a header that is complete comes down
to the checks of its fields, in the order in which they are made, and the
records behind it are as many as the header says.
-/

namespace BlockDelta.Signature

/-- The values of the fields of a header. -/
structure Header where
  /-- The number of the digest. -/
  id : UInt8
  /-- The seed of the digest. -/
  hashSeed : UInt64
  /-- The length of a block. -/
  blockLength : UInt32
  /-- How many bytes of each digest are kept. -/
  kept : UInt8
  /-- The length of the basis. -/
  total : UInt64
  /-- The seed bytes. -/
  seed : Bytes

/-- The values of the fields of a block's record. -/
structure Record where
  /-- The rolling sum. -/
  weak : UInt32
  /-- The strong sum. -/
  strong : Bytes

/-- The values of all fields of a signature stream. -/
structure Contents where
  /-- Those of the header. -/
  header : Header
  /-- Those of the records. -/
  records : List Record

namespace Header

/-- The fields in the order of the stream: the mark `RDSG`, the version, and the values, words with
their most significant byte first and the seed bytes behind their number. -/
def bytes (header : Header) : Bytes :=
  [0x52, 0x44, 0x53, 0x47, 1, header.id] ++ (Bytes.ofWord 8 header.hashSeed.toNat ++
    (Bytes.ofWord 4 header.blockLength.toNat ++ (header.kept ::
      (Bytes.ofWord 8 header.total.toNat ++
        (Bytes.ofWord 2 header.seed.length ++ header.seed)))))

/-- The width of the digest with a number from one to four. -/
def digestWidth (header : Header) : Nat :=
  if header.id ≤ 2 then 16 else if header.id = 3 then 20 else 8

/-- The number of blocks that the header speaks of. -/
def blockCount (header : Header) : Nat := header.total.toNat ⌈/⌉ header.blockLength.toNat

/-- The values that make sense. -/
structure Valid (header : Header) : Prop where
  /-- The number stands for a digest. -/
  id : 1 ≤ header.id ∧ header.id ≤ 4
  /-- The block length is within its bounds. -/
  blockLength : 1 ≤ header.blockLength.toNat ∧ header.blockLength.toNat ≤ 131072
  /-- Something is kept of each digest, and not more than there is. -/
  kept : 1 ≤ header.kept.toNat ∧ header.kept.toNat ≤ header.digestWidth
  /-- The blocks can be numbered. -/
  blockCount : header.blockCount ≤ 2 ^ 32 - 1
  /-- The number of seed bytes fits its field. -/
  seed : header.seed.length ≤ 65535

/-- The header with the seed of its digest, zero where the digest takes none. -/
def canonical (header : Header) : Header :=
  { header with hashSeed := if header.id = 4 then header.hashSeed else 0 }

/-- The signature without its blocks that a header describes, or the first check that fails. -/
def opened (header : Header) : Except FormatError Signature :=
  match Strong.Algorithm.ofId? header.id header.hashSeed with
  | none => .error (.unknownAlgorithm header.id)
  | some algorithm =>
    if Layout.longestLength < header.blockLength.toNat then
      .error (.invalidHeader .blockLengthOutOfRange)
    else
      match BlockLength.ofNat? header.blockLength.toNat with
      | none => .error (.invalidHeader .blockLengthOutOfRange)
      | some blockLength =>
        if positive : 0 < header.kept.toNat then
          match Strong.Spec.ofParts algorithm ⟨header.kept.toNat, positive⟩ header.seed with
          | .error _ => .error (.invalidHeader .strongLengthTooWide)
          | .ok spec =>
            match Layout.ofLength header.total.toNat blockLength with
            | .error _ => .error (.invalidHeader .tooManyBlocks)
            | .ok layout => .ok ⟨layout, spec, [], header.total.toNat⟩
        else .error (.invalidHeader .zeroStrongLength)

end Header

/-- A record in a stream: the rolling sum and the strong sum. -/
def Record.bytes (record : Record) : Bytes := Bytes.ofWord 4 record.weak.toNat ++ record.strong

namespace Contents

/-- The header and the records, one behind the other. -/
def bytes (contents : Contents) : Bytes :=
  contents.header.bytes ++ contents.records.flatMap Record.bytes

/-- The header makes sense, and the records are as many and as long as it says. -/
structure Valid (contents : Contents) : Prop where
  /-- The header makes sense. -/
  header : contents.header.Valid
  /-- There is one record for each block. -/
  count : contents.records.length = contents.header.blockCount
  /-- Each strong sum has the bytes that are kept. -/
  strong : ∀ record ∈ contents.records, record.strong.length = contents.header.kept.toNat

/-- The contents with the seed of the digest, zero where the digest takes none. -/
def canonical (contents : Contents) : Contents :=
  { contents with header := contents.header.canonical }

end Contents

/-- The blocks that records are read as, with a running number and a running offset. -/
def placeFrom (layout : Layout) (number offset : Nat) : List Record → List Block
  | [] => []
  | record :: rest =>
    let length := (layout.lengthAt? number).getD 0
    ⟨.ofValue record.weak length, record.strong, UInt64.ofNat offset, UInt32.ofNat number⟩ ::
      placeFrom layout (number + 1) (offset + length) rest

/-- A header that is complete is checked, and records are read by it. -/
theorem decode_header (header : Header) (records : Bytes) (seeded : header.seed.length ≤ 65535) :
    decode (header.bytes ++ records) = (do
      let signature ← header.opened
      let (blocks, rest) ← decodeRecords signature.layout header.kept.toNat
        signature.layout.blockCount 0 0 [] records
      return ({ signature with blocks }, rest)) := by
  let behindSeed := header.seed ++ records
  let behindTotal := Bytes.ofWord 2 header.seed.length ++ behindSeed
  let behindKept := Bytes.ofWord 8 header.total.toNat ++ behindTotal
  let behindLength := header.kept :: behindKept
  let behindHash := Bytes.ofWord 4 header.blockLength.toNat ++ behindLength
  let behindId := Bytes.ofWord 8 header.hashSeed.toNat ++ behindHash
  have stream : header.bytes ++ records = magic ++ (version :: header.id :: behindId) := by
    simp [Header.bytes, magic, version, behindId, behindHash, behindLength, behindKept, behindTotal,
      behindSeed]
  -- each field is read from what stands behind the one before
  have width : magic.length = 4 := rfl
  have marked := Field.liftM_of_ok FormatError
    (Field.bytes_append magic (version :: header.id :: behindId) width)
  have versioned := Field.liftM_of_ok FormatError (Field.word_cons version (header.id :: behindId))
  have numbered := Field.liftM_of_ok FormatError (Field.word_cons header.id behindId)
  have hashed : (liftM (Field.word 8 behindId) : Except FormatError _) =
      .ok (header.hashSeed.toNat, behindHash) :=
    Field.liftM_of_ok FormatError (Field.word_append _ header.hashSeed.toNat_lt)
  have sized : (liftM (Field.word 4 behindHash) : Except FormatError _) =
      .ok (header.blockLength.toNat, behindLength) :=
    Field.liftM_of_ok FormatError (Field.word_append _ header.blockLength.toNat_lt)
  have kept : (liftM (Field.word 1 behindLength) : Except FormatError _) =
      .ok (header.kept.toNat, behindKept) :=
    Field.liftM_of_ok FormatError (Field.word_cons header.kept behindKept)
  have measured : (liftM (Field.word 8 behindKept) : Except FormatError _) =
      .ok (header.total.toNat, behindTotal) :=
    Field.liftM_of_ok FormatError (Field.word_append _ header.total.toNat_lt)
  have announced : (liftM (Field.word 2 behindTotal) : Except FormatError _) =
      .ok (header.seed.length, behindSeed) :=
    Field.liftM_of_ok FormatError (Field.word_append _ (Nat.lt_succ_of_le seeded))
  have salted : (liftM (Field.bytes header.seed.length behindSeed) : Except FormatError _) =
      .ok (header.seed, records) :=
    Field.liftM_of_ok FormatError (Field.bytes_append _ _ rfl)
  rw [stream, decode, Header.opened]
  simp only [bind, Except.bind, marked, versioned, numbered, hashed, ne_eq, not_true_eq_false,
    if_false, UInt8.ofNat_toNat, UInt64.ofNat_toNat]
  -- and each check is made of the value that was written
  cases Strong.Algorithm.ofId? header.id header.hashSeed with
  | none => rfl
  | some algorithm =>
    simp only [sized]
    by_cases wide : Layout.longestLength < header.blockLength.toNat
    · simp only [if_pos wide]
      rfl
    simp only [if_neg wide]
    cases BlockLength.ofNat? header.blockLength.toNat with
    | none => rfl
    | some blockLength =>
      simp only [kept]
      by_cases positive : 0 < header.kept.toNat
      · simp only [dif_pos positive, measured, announced, salted]
        cases Strong.Spec.ofParts algorithm ⟨header.kept.toNat, positive⟩ header.seed with
        | error _ => rfl
        | ok spec => cases Layout.ofLength header.total.toNat blockLength <;> rfl
      · simp only [dif_neg positive]
        rfl

section

variable {layout : Layout} {kept : Nat}

/-- A record is read with the length that its block has in the layout. -/
theorem decodeRecords_cons {record : Record} (long : record.strong.length = kept)
    (count number offset : Nat) (done : List Block) (rest : Bytes) :
    decodeRecords layout kept (count + 1) number offset done (record.bytes ++ rest) =
      decodeRecords layout kept count (number + 1)
        (offset + (layout.lengthAt? number).getD 0)
        (⟨.ofValue record.weak ((layout.lengthAt? number).getD 0), record.strong,
          UInt64.ofNat offset, UInt32.ofNat number⟩ :: done) rest := by
  have weak := Field.liftM_of_ok FormatError (Field.word_append (record.strong ++ rest)
    (show record.weak.toNat < 256 ^ 4 from record.weak.toNat_lt))
  have strong := Field.liftM_of_ok FormatError (Field.bytes_append record.strong rest long)
  rw [Record.bytes, List.append_assoc, decodeRecords]
  simp only [bind, Except.bind, weak, strong, UInt32.ofNat_toNat]

/-- Records whose strong sums are as long as the header says are read, whatever follows them. -/
theorem decodeRecords_append (layout : Layout) {records : List Record}
    (long : ∀ record ∈ records, record.strong.length = kept) (number offset : Nat)
    (done : List Block) (rest : Bytes) :
    decodeRecords layout kept records.length number offset done
        (records.flatMap Record.bytes ++ rest) =
      .ok (done.reverse ++ placeFrom layout number offset records, rest) := by
  induction records generalizing number offset done with
  | nil =>
    rw [placeFrom, List.append_nil]
    rfl
  | cons record others ih =>
    obtain ⟨first, later⟩ := List.forall_mem_cons.1 long
    rw [List.flatMap_cons, List.append_assoc, List.length_cons, decodeRecords_cons first,
      ih later, List.reverse_cons, List.append_assoc]
    rfl

/-- Records that are read stand at the front of the stream, as many and as long as asked for. -/
theorem exists_of_decodeRecords {count number offset : Nat} {done blocks : List Block}
    {stream rest : Bytes}
    (read : decodeRecords layout kept count number offset done stream = .ok (blocks, rest)) :
    ∃ records : List Record, records.length = count ∧
      (∀ record ∈ records, record.strong.length = kept) ∧
      stream = records.flatMap Record.bytes ++ rest := by
  induction count generalizing number offset done stream with
  | zero =>
    cases read
    exact ⟨[], rfl, by simp, rfl⟩
  | succ count ih =>
    obtain ⟨weak, behindWeak, rfl, fits, read⟩ := Field.exists_of_word read
    obtain ⟨strong, behindStrong, rfl, long, read⟩ := Field.exists_of_bytes read
    obtain ⟨records, rfl, longs, rfl⟩ := ih read
    refine ⟨⟨UInt32.ofNat weak, strong⟩ :: records, rfl, List.forall_mem_cons.2 ⟨long, longs⟩, ?_⟩
    rw [List.flatMap_cons, Record.bytes, UInt32.toNat_ofNat_of_lt' fits]
    simp only [List.append_assoc]

end

end BlockDelta.Signature
