import BlockDelta.Proofs.Signature.Choosing
import BlockDelta.Proofs.Signature.RoundTrip

/-!
# A signature stream has one written form, but for the seed of its digest

A byte string is accepted exactly when it starts with a header whose values make
sense and with as many records as the header speaks of. What is accepted is
written again as it was, except that three of the four digests take no seed: a
stream may give them one, and it is forgotten.
-/

namespace BlockDelta

namespace Strong

/-- The algorithm that a number stands for has this number, and a seed where it takes one. -/
theorem Algorithm.ofId?_eq_some {id : UInt8} {seed : UInt64} {algorithm : Algorithm}
    (chosen : ofId? id seed = some algorithm) :
    algorithm.id = id ∧ algorithm.seed = if id = 4 then seed else 0 := by
  unfold ofId? at chosen
  split_ifs at chosen with first second third fourth <;> cases chosen
  · exact ⟨first.symm, by rw [first]; rfl⟩
  · exact ⟨second.symm, by rw [second]; rfl⟩
  · exact ⟨third.symm, by rw [third]; rfl⟩
  · exact ⟨fourth.symm, by rw [if_pos fourth]; rfl⟩

/-- The numbers from one to four stand for an algorithm. -/
theorem Algorithm.exists_ofId? {id : UInt8} (range : 1 ≤ id ∧ id ≤ 4) (seed : UInt64) :
    ∃ algorithm, ofId? id seed = some algorithm := by
  have cases : id = 1 ∨ id = 2 ∨ id = 3 ∨ id = 4 := by
    simp only [UInt8.le_iff_toNat_le, ← UInt8.toNat_inj] at range ⊢
    simp at range ⊢
    omega
  rcases cases with rfl | rfl | rfl | rfl
  · exact ⟨.md4, rfl⟩
  · exact ⟨.md5, rfl⟩
  · exact ⟨.sha1, rfl⟩
  · exact ⟨.xxh64 seed, rfl⟩

/-- An algorithm has a number from one to four. -/
theorem Algorithm.id_range (algorithm : Algorithm) : 1 ≤ algorithm.id ∧ algorithm.id ≤ 4 := by
  cases algorithm <;> simp only [id] <;> decide

end Strong

namespace Signature

namespace Header

variable {header : Header} {signature : Signature}

/-- The width that the header speaks of is that of the digest. -/
theorem digestWidth_eq {algorithm : Strong.Algorithm} (number : algorithm.id = header.id) :
    header.digestWidth = algorithm.digestLength := by
  rw [digestWidth, ← number]
  cases algorithm <;> rfl

/-- The signature has what the header says, and could be made of a basis that a stream allows. -/
structure Describes (header : Header) (signature : Signature) : Prop where
  /-- The digest. -/
  id : signature.spec.algorithm.id = header.id
  /-- Its seed, where it takes one. -/
  hashSeed : signature.spec.algorithm.seed = header.canonical.hashSeed
  /-- The block length. -/
  blockLength : signature.layout.blockLength.toNat = header.blockLength.toNat
  /-- Streams allow it. -/
  narrow : signature.layout.blockLength.toNat ≤ Layout.longestLength
  /-- How much of each digest is kept. -/
  kept : signature.spec.length = header.kept.toNat
  /-- The seed bytes. -/
  seed : signature.spec.seed = header.seed
  /-- The length of the basis. -/
  total : signature.total = header.total.toNat
  /-- The layout cuts a basis of this length. -/
  cut : Layout.ofLength signature.total signature.layout.blockLength = .ok signature.layout

/-- A header that passes its checks describes what is made of it. -/
theorem describes_of_opened (opened : header.opened = .ok signature) :
    header.Describes signature := by
  unfold Header.opened at opened
  split at opened
  · cases opened
  rename_i algorithm chosen
  split at opened
  · cases opened
  rename_i narrow
  split at opened
  · cases opened
  rename_i blockLength sized
  split at opened
  · rename_i positive
    split at opened
    · cases opened
    rename_i spec ruled
    split at opened
    · cases opened
    rename_i layout cut
    cases opened
    obtain ⟨number, seeded⟩ := Strong.Algorithm.ofId?_eq_some chosen
    obtain ⟨sameAlgorithm, length, seed⟩ := Strong.Spec.ofParts_eq_ok ruled
    obtain ⟨shape, _⟩ := Layout.ofLength_eq_ok cut
    have same : layout.blockLength = blockLength := by rw [shape]
    exact {
      id := by rw [sameAlgorithm, number]
      hashSeed := by rw [sameAlgorithm, seeded]; rfl
      blockLength := by rw [same, BlockLength.ofNat?_eq_some sized]
      narrow := by rw [same, BlockLength.ofNat?_eq_some sized]; exact Nat.le_of_not_lt narrow
      kept := length
      seed := seed
      total := rfl
      cut := by rw [same]; exact cut }
  · cases opened

namespace Describes

/-- The layout counts the blocks that the header speaks of. -/
theorem blockCount (describes : header.Describes signature) :
    signature.layout.blockCount = header.blockCount := by
  obtain ⟨shape, _⟩ := Layout.ofLength_eq_ok describes.cut
  rw [shape, Header.blockCount, Nat.ceilDiv_eq_add_pred_div, describes.total, describes.blockLength]

/-- Only values that make sense describe a signature. -/
theorem valid (describes : header.Describes signature) (seeded : header.seed.length ≤ 65535) :
    header.Valid where
  id := describes.id ▸ signature.spec.algorithm.id_range
  blockLength := describes.blockLength ▸ ⟨signature.layout.blockLength.positive, describes.narrow⟩
  kept := by
    rw [digestWidth_eq describes.id, ← describes.kept]
    exact ⟨signature.spec.length_pos, signature.spec.length_le⟩
  blockCount := describes.blockCount ▸ (Layout.ofLength_eq_ok describes.cut).2
  seed := seeded

/-- The signature is written with the header that describes it, but for a seed that its digest does
not take. -/
theorem header_eq (describes : header.Describes signature) :
    signature.header = header.canonical := by
  rw [Signature.header, describes.id, describes.hashSeed, describes.blockLength, describes.kept,
    describes.seed, describes.total, UInt32.ofNat_toNat, UInt8.ofNat_toNat, UInt64.ofNat_toNat]
  rfl

end Describes

/-- Values that make sense pass the checks. -/
theorem Valid.exists_opened (valid : header.Valid) :
    ∃ signature, header.opened = .ok signature := by
  obtain ⟨algorithm, chosen⟩ := Strong.Algorithm.exists_ofId? valid.id header.hashSeed
  obtain ⟨number, _⟩ := Strong.Algorithm.ofId?_eq_some chosen
  have sized : BlockLength.ofNat? header.blockLength.toNat =
      some ⟨header.blockLength.toNat, valid.blockLength.1, header.blockLength.toNat_lt⟩ :=
    dif_pos ⟨valid.blockLength.1, header.blockLength.toNat_lt⟩
  have width : header.kept.toNat ≤ algorithm.digestLength :=
    digestWidth_eq number ▸ valid.kept.2
  have few : ¬Layout.mostBlocks <
      (header.total.toNat + header.blockLength.toNat - 1) / header.blockLength.toNat := by
    rw [← Nat.ceilDiv_eq_add_pred_div]
    exact Nat.not_lt_of_le valid.blockCount
  have positive : 0 < header.kept.toNat := valid.kept.1
  have narrow : ¬Layout.longestLength < header.blockLength.toNat :=
    Nat.not_lt_of_le valid.blockLength.2
  simp only [Header.opened, chosen, if_neg narrow, sized, dif_pos positive,
    Strong.Spec.ofParts, dif_pos width, Layout.ofLength, if_neg few]
  exact ⟨_, rfl⟩

end Header

/-- A stream that is accepted starts with a complete header. -/
theorem exists_header_of_decode {bytes rest : Bytes} {signature : Signature}
    (read : decode bytes = .ok (signature, rest)) :
    ∃ (header : Header) (records : Bytes), bytes = header.bytes ++ records ∧
      header.seed.length ≤ 65535 := by
  -- each field that was read stands in front of the next, and each check that is made was passed
  obtain ⟨mark, behindMark, rfl, -, read⟩ := Field.exists_of_bytes read
  simp only [] at read
  split at read
  · cases read
  rename_i marked
  obtain ⟨edition, behindEdition, rfl, -, read⟩ := Field.exists_of_word read
  simp only [] at read
  split at read
  · cases read
  rename_i edited
  obtain ⟨id, behindId, rfl, -, read⟩ := Field.exists_of_word read
  obtain ⟨hashSeed, behindHash, rfl, hashFits, read⟩ := Field.exists_of_word read
  simp only [] at read
  split at read
  swap
  · cases read
  obtain ⟨length, behindLength, rfl, lengthFits, read⟩ := Field.exists_of_word read
  simp only [] at read
  split at read
  · cases read
  split at read
  swap
  · cases read
  obtain ⟨kept, behindKept, rfl, -, read⟩ := Field.exists_of_word read
  simp only [] at read
  split at read
  swap
  · cases read
  obtain ⟨total, behindTotal, rfl, totalFits, read⟩ := Field.exists_of_word read
  obtain ⟨count, behindCount, rfl, countFits, read⟩ := Field.exists_of_word read
  obtain ⟨seed, records, rfl, rfl, -⟩ := Field.exists_of_bytes read
  refine ⟨⟨UInt8.ofNat id, UInt64.ofNat hashSeed, UInt32.ofNat length, UInt8.ofNat kept,
    UInt64.ofNat total, seed⟩, records, ?_, Nat.le_of_lt_succ countFits⟩
  have version : edition = 1 := Decidable.not_not.1 edited
  rw [Decidable.not_not.1 marked, version]
  simp only [Header.bytes, UInt64.toNat_ofNat_of_lt' hashFits,
    UInt32.toNat_ofNat_of_lt' lengthFits, UInt64.toNat_ofNat_of_lt' totalFits, List.append_assoc]
  rfl

/-- A stream that is accepted starts with contents that make sense. -/
theorem exists_contents_of_decode {bytes rest : Bytes} {signature : Signature}
    (read : decode bytes = .ok (signature, rest)) :
    ∃ contents : Contents, contents.Valid ∧ bytes = contents.bytes ++ rest := by
  obtain ⟨header, behind, rfl, seeded⟩ := exists_header_of_decode read
  rw [decode_header header behind seeded] at read
  obtain ⟨empty, opened, recordsOn⟩ := exists_of_bind_eq_ok read
  obtain ⟨⟨blocks, last⟩, recordsRead, made⟩ := exists_of_bind_eq_ok recordsOn
  cases made
  obtain ⟨records, count, strong, rfl⟩ := exists_of_decodeRecords recordsRead
  have describes := Header.describes_of_opened opened
  refine ⟨⟨header, records⟩, ⟨describes.valid seeded, ?_, strong⟩, ?_⟩
  · rw [count, describes.blockCount]
  · rw [Contents.bytes, List.append_assoc]

/-- Blocks are written with the records that they were read from. -/
theorem flatMap_record_placeFrom (layout : Layout) (number offset : Nat) (records : List Record) :
    (placeFrom layout number offset records).flatMap record = records.flatMap Record.bytes := by
  induction records generalizing number offset with
  | nil => rfl
  | cons first others ih =>
    have same : record ⟨.ofValue first.weak ((layout.lengthAt? number).getD 0), first.strong,
        UInt64.ofNat offset, UInt32.ofNat number⟩ = first.bytes := by
      simp [record, recordPieces, Record.bytes, Block.weak, Rolling.Sum.value_ofValue]
    rw [placeFrom, List.flatMap_cons, List.flatMap_cons, ih, same]

/-- Contents that make sense are read, whatever follows them, as a signature that is written with
the same contents, but for a seed that its digest does not take. -/
theorem Contents.Valid.exists_decode {contents : Contents} (valid : contents.Valid) :
    ∃ signature, (∀ rest, decode (contents.bytes ++ rest) = .ok (signature, rest)) ∧
      ∀ written, signature.write (.holding written) =
        .ok () (.holding (written ++ contents.canonical.bytes)) := by
  obtain ⟨empty, opened⟩ := valid.header.exists_opened
  have describes := Header.describes_of_opened opened
  let blocks := placeFrom empty.layout 0 0 contents.records
  let signature : Signature := { empty with blocks }
  refine ⟨signature, fun rest => ?_, fun written => ?_⟩
  · have read := decodeRecords_append empty.layout valid.strong 0 0 [] rest
    rw [valid.count, ← describes.blockCount] at read
    rw [Contents.bytes, List.append_assoc, decode_header _ _ valid.header.seed, opened]
    simp only [bind, Except.bind]
    rw [read]
    rfl
  · have seeded : signature.spec.seed.length ≤ longestSeed :=
      describes.seed ▸ valid.header.seed
    have small : signature.total < UInt64.size := describes.total ▸ contents.header.total.toNat_lt
    have headed : signature.header = contents.header.canonical := describes.header_eq
    rw [write_holding seeded, encode, pieces, List.flatten_append, flatten_headerPieces small,
      headed, flatten_recordPieces, flatMap_record_placeFrom]
    rfl

/-- A byte string is accepted exactly when it starts with contents that make sense, and what is
accepted is written again as it was, but for a seed that its digest does not take. -/
theorem decode_iff_and_rewritten :
    (∀ bytes, (∃ signature rest, decode bytes = .ok (signature, rest)) ↔
      ∃ (contents : Contents) (rest : Bytes), contents.Valid ∧ bytes = contents.bytes ++ rest) ∧
    (∀ bytes signature rest, decode bytes = .ok (signature, rest) →
      ∃ contents : Contents, contents.Valid ∧ bytes = contents.bytes ++ rest ∧
        ∀ written, signature.write (.holding written) =
          .ok () (.holding (written ++ contents.canonical.bytes))) := by
  constructor
  · intro bytes
    constructor
    · rintro ⟨signature, rest, read⟩
      obtain ⟨contents, valid, whole⟩ := exists_contents_of_decode read
      exact ⟨contents, rest, valid, whole⟩
    · rintro ⟨contents, rest, valid, rfl⟩
      obtain ⟨signature, read, _⟩ := valid.exists_decode
      exact ⟨signature, rest, read rest⟩
  · intro bytes signature rest read
    obtain ⟨contents, valid, rfl⟩ := exists_contents_of_decode read
    obtain ⟨same, again, rewritten⟩ := valid.exists_decode
    obtain rfl : same = signature := by
      have agree := (again rest).symm.trans read
      cases agree
      rfl
    exact ⟨contents, valid, rfl, rewritten⟩

/-- A stream that gives a seed to a digest without one, behind it a byte that is left. -/
theorem decode_iff_and_rewritten_seedless :
    let contents : Contents :=
      ⟨⟨1, 77, 2, 3, 5, [9]⟩, [⟨1, [1, 2, 3]⟩, ⟨2, [4, 5, 6]⟩, ⟨3, [7, 8, 9]⟩]⟩
    contents.canonical.header.hashSeed = 0 ∧
      ∃ signature rest, decode (contents.bytes ++ [255]) = .ok (signature, rest) ∧
        ∃ same : Contents, same.Valid ∧ contents.bytes ++ [255] = same.bytes ++ rest ∧
          signature.write .unlimited = .ok () (.holding same.canonical.bytes) := by
  intro contents
  have valid : contents.Valid := {
    header := {
      id := by decide
      blockLength := by decide
      kept := by decide
      blockCount := by decide
      seed := by decide }
    count := by decide
    strong := by simp [contents] }
  obtain ⟨signature, rest, read⟩ := (decode_iff_and_rewritten.1 _).2 ⟨contents, [255], valid, rfl⟩
  obtain ⟨same, sense, whole, rewritten⟩ := decode_iff_and_rewritten.2 _ _ _ read
  exact ⟨rfl, signature, rest, read, same, sense, whole, rewritten []⟩

end Signature

end BlockDelta
