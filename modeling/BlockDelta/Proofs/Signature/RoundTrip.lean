import BlockDelta.Proofs.Signature.Describing
import BlockDelta.Proofs.Signature.Format
import BlockDelta.Proofs.Storage.Offered

/-!
# Signature streams are read back as they were written

A stream carries the header fields and, for each block, its two sums. Lengths,
offsets and numbers are found again from the layout, which follows from the
header. So the signature of a basis is read back as it would be made with
offsets that count from the start of the basis. Two things come in between:
seed bytes that are too many to be counted are refused before anything is
written, and blocks that are longer than a stream allows are written but not
read.
-/

namespace BlockDelta.Signature

/-- The record of a block. -/
def record (block : Block) : Bytes := (recordPieces block).flatten

namespace Generator

variable {generator : Generator} {layout : Layout} {total : Nat}

/-- The record of a piece is read back with the length that its place has in the layout. -/
theorem decodeRecords_describe {piece : Bytes} {count number offset : Nat} (elsewhere : Nat)
    (done : List Block) (rest : Bytes) (length : layout.lengthAt? number = some piece.length) :
    decodeRecords layout generator.spec.length (count + 1) number offset done
        (record (generator.describe elsewhere number piece) ++ rest) =
      decodeRecords layout generator.spec.length count (number + 1) (offset + piece.length)
        (generator.describe offset number piece :: done) rest := by
  let block := generator.describe elsewhere number piece
  have stream : record block = Record.bytes ⟨block.weak, generator.spec.sum piece⟩ := by
    simp [record, recordPieces, Record.bytes, block, describe]
  have sum : Rolling.Sum.ofValue block.weak piece.length = Rolling.Sum.ofBytes piece := by
    have same := Rolling.Sum.ofValue_value (Rolling.Sum.ofBytes piece)
    rwa [Rolling.Sum.length_ofBytes] at same
  change decodeRecords _ _ _ _ _ _ (record block ++ rest) = _
  rw [stream, decodeRecords_cons (generator.spec.length_sum piece), length, Option.getD_some, sum]
  rfl

/-- The records of the pieces of a basis are read back, with offsets that count from its start. -/
theorem decodeRecords_describeFrom (cut : Layout.ofLength total generator.blockLength = .ok layout)
    {number : Nat} {basis : Bytes}
    (place : total = number * generator.blockLength.toNat + basis.length) (base : Nat)
    (done : List Block) (rest : Bytes) :
    decodeRecords layout generator.spec.length (generator.pieces basis).length number
        (number * generator.blockLength.toNat) done
        ((generator.describeFrom base number (generator.pieces basis)).flatMap record ++ rest) =
      .ok (done.reverse ++ generator.describeFrom (number * generator.blockLength.toNat) number
        (generator.pieces basis), rest) := by
  unfold pieces
  induction basis using Bytes.dropInduction generator.blockLength.toNat
    generator.blockLength.positive generalizing number base done with
  | nil => simp [describeFrom, decodeRecords]
  | cons byte later ih =>
    have something : 0 < (byte :: later).length := Nat.succ_pos _
    have length := Layout.lengthAt?_ofLength cut something place
    rw [← List.length_take] at length
    rw [Bytes.chunks_cons, List.length_cons, describeFrom, List.flatMap_cons, List.append_assoc,
      decodeRecords_describe base done _ length, describeFrom]
    by_cases last : (byte :: later).length ≤ generator.blockLength.toNat
    · rw [List.drop_of_length_le last, Bytes.chunks_nil]
      simp [describeFrom, decodeRecords]
    · have full : ((byte :: later).take generator.blockLength.toNat).length =
          generator.blockLength.toNat := List.length_take_of_le (by omega)
      have moved : number * generator.blockLength.toNat + generator.blockLength.toNat =
          (number + 1) * generator.blockLength.toNat := (Nat.succ_mul ..).symm
      have next : total = (number + 1) * generator.blockLength.toNat +
          ((byte :: later).drop generator.blockLength.toNat).length := by
        rw [List.length_drop, ← moved]
        omega
      rw [full, moved, ih next]
      simp

/-- The signature of a basis that can be cut. -/
theorem ofBuffer_eq_ok {basis : Bytes} (base : Nat)
    (cut : Layout.ofLength basis.length generator.blockLength = .ok layout) :
    generator.ofBuffer base basis =
      .ok ⟨layout, generator.spec, generator.describeFrom base 0 (generator.pieces basis),
        basis.length⟩ := by
  have blocks := generator.mapIdx_describe base 0 basis
  simp only [Nat.zero_add, Nat.zero_mul, Nat.add_zero] at blocks
  simp only [ofBuffer, cut, bind, Except.bind, Except.mapError]
  rw [← blocks]
  rfl

/-- A basis that can be cut into blocks is not too long for its length field: the blocks have
32-bit numbers, and the greatest length that they may have is a 32-bit word. -/
theorem total_lt {most : Nat} (cut : Layout.ofLength total generator.blockLength = .ok layout)
    (bounded : generator.blockLength.toNat ≤ most) (fits : most < UInt32.size := by decide) :
    total < UInt64.size := by
  obtain ⟨rfl, few⟩ := Layout.ofLength_eq_ok cut
  have positive := generator.blockLength.positive
  have whole := Nat.lt_mul_div_succ (total + generator.blockLength.toNat - 1) positive
  have numbered : generator.blockLength.toNat *
      ((total + generator.blockLength.toNat - 1) / generator.blockLength.toNat + 1) ≤
        (UInt32.size - 1) * (Layout.mostBlocks + 1) :=
    Nat.mul_le_mul (Nat.le_trans bounded (Nat.le_pred_of_lt fits)) (Nat.succ_le_succ few)
  have limit : (UInt32.size - 1) * (Layout.mostBlocks + 1) ≤ UInt64.size := by decide
  omega

end Generator

/-- The records of blocks are their pieces put together. -/
theorem flatten_recordPieces (blocks : List Block) :
    (blocks.flatMap recordPieces).flatten = blocks.flatMap record := by
  induction blocks with
  | nil => rfl
  | cons block others ih =>
    rw [List.flatMap_cons, List.flatten_append, ih]
    rfl

/-- The header of a signature's stream. -/
def header (signature : Signature) : Header :=
  ⟨signature.spec.algorithm.id, signature.spec.algorithm.seed,
    UInt32.ofNat signature.layout.blockLength.toNat, UInt8.ofNat signature.spec.length,
    UInt64.ofNat signature.total, signature.spec.seed⟩

section

variable {signature : Signature}

/-- A strong sum has a length of one byte. -/
theorem toNat_kept_header : signature.header.kept.toNat = signature.spec.length := by
  have narrow := signature.spec.length_le
  have width : signature.spec.algorithm.digestLength ≤ 20 := by
    cases signature.spec.algorithm <;> simp [Strong.Algorithm.digestLength]
  exact UInt8.toNat_ofNat_of_lt' (Nat.lt_of_le_of_lt (Nat.le_trans narrow width) (by decide))

/-- A block length is a 32-bit word. -/
theorem toNat_blockLength_header :
    signature.header.blockLength.toNat = signature.layout.blockLength.toNat :=
  UInt32.toNat_ofNat_of_lt' signature.layout.blockLength.fits

/-- The header of a basis that is not too long is written as it is. -/
theorem flatten_headerPieces (small : signature.total < UInt64.size) :
    signature.headerPieces.flatten = signature.header.bytes := by
  have one : Bytes.ofWord 1 signature.spec.length = [signature.header.kept] := by
    rw [← toNat_kept_header]
    simp [Bytes.ofWord]
  have total : signature.header.total.toNat = signature.total := UInt64.toNat_ofNat_of_lt' small
  rw [Header.bytes, toNat_blockLength_header, total]
  simp only [headerPieces, one, List.flatten_cons, List.flatten_nil, List.append_nil]
  rfl

/-- The header of a signature describes it, unless its blocks are longer than streams allow. -/
theorem opened_header (small : signature.total < UInt64.size)
    (cut : Layout.ofLength signature.total signature.layout.blockLength = .ok signature.layout) :
    signature.header.opened =
      if Layout.longestLength < signature.layout.blockLength.toNat then
        .error (.invalidHeader .blockLengthOutOfRange)
      else .ok { signature with blocks := [] } := by
  have chosen : Strong.Algorithm.ofId? signature.header.id signature.header.hashSeed =
      some signature.spec.algorithm := Strong.Algorithm.ofId?_id_seed _
  have blockLength : BlockLength.ofNat? signature.layout.blockLength.toNat =
      some signature.layout.blockLength := by
    rw [BlockLength.ofNat?,
      dif_pos ⟨signature.layout.blockLength.positive, signature.layout.blockLength.fits⟩]
  have ruled : Strong.Spec.ofParts signature.spec.algorithm
      ⟨signature.spec.length, signature.spec.length_pos⟩ signature.header.seed =
        .ok signature.spec := by
    rw [Strong.Spec.ofParts, dif_pos signature.spec.length_le]
    rfl
  have total : signature.header.total.toNat = signature.total := UInt64.toNat_ofNat_of_lt' small
  simp only [Header.opened, chosen, toNat_blockLength_header, blockLength, toNat_kept_header,
    signature.spec.length_pos, dif_pos, ruled, total, cut]

end

/-- The stream of a signature is read back, whatever follows it, as the signature that would be
made with offsets that count from the start of the basis; blocks longer than streams allow are
refused. -/
theorem decode_encode {generator : Generator} {layout : Layout} {basis : Bytes} (base : Nat)
    (rest : Bytes) (cut : Layout.ofLength basis.length generator.blockLength = .ok layout)
    (seeded : generator.spec.seed.length ≤ longestSeed) :
    decode (encode ⟨layout, generator.spec,
        generator.describeFrom base 0 (generator.pieces basis), basis.length⟩ ++ rest) =
      if Layout.longestLength < generator.blockLength.toNat then
        .error (.invalidHeader .blockLengthOutOfRange)
      else .ok (⟨layout, generator.spec, generator.describeFrom 0 0 (generator.pieces basis),
        basis.length⟩, rest) := by
  obtain ⟨shape, _⟩ := Layout.ofLength_eq_ok cut
  have length : layout.blockLength = generator.blockLength := by rw [shape]
  have count : layout.blockCount = (generator.pieces basis).length := by
    rw [shape]
    exact (Bytes.length_chunks generator.blockLength.positive basis).symm
  have place : basis.length = 0 * generator.blockLength.toNat + basis.length := by omega
  have read := Generator.decodeRecords_describeFrom cut place base [] rest
  rw [← count, Nat.zero_mul] at read
  let signature : Signature := ⟨layout, generator.spec,
    generator.describeFrom base 0 (generator.pieces basis), basis.length⟩
  have small : signature.total < UInt64.size :=
    Generator.total_lt cut (Nat.le_refl _) generator.blockLength.fits
  have opened := opened_header small (length ▸ cut)
  change decode (signature.encode ++ rest) = _
  rw [encode, pieces, List.flatten_append, flatten_recordPieces, List.append_assoc,
    flatten_headerPieces small, decode_header _ _ seeded, opened, toNat_kept_header, ← length]
  by_cases wide : Layout.longestLength < layout.blockLength.toNat
  · rw [if_pos wide, if_pos wide]
    rfl
  · rw [if_neg wide, if_neg wide]
    simp only [bind, Except.bind]
    rw [read]
    rfl

/-- A signature whose seed fits its length field is written whole into a sink without a limit. -/
theorem write_holding {signature : Signature} (seeded : signature.spec.seed.length ≤ longestSeed)
    (written : Bytes) :
    signature.write (.holding written) = .ok () (.holding (written ++ signature.encode)) := by
  unfold write
  rw [if_neg (Nat.not_lt_of_le seeded)]
  exact Sink.writeEach_holding signature.pieces written

/-- A signature whose seed does not fit its length field is not written at all. -/
theorem write_of_long {signature : Signature} (long : longestSeed < signature.spec.seed.length)
    (sink : Sink) : signature.write sink = .error .seedTooLong sink := by
  unfold write
  rw [if_pos long]
  rfl

/-- A signature whose seed fits its length field is offered to a sink as a whole. -/
theorem write_eq_offer {signature : Signature}
    (seeded : signature.spec.seed.length ≤ longestSeed) :
    signature.write = Sink.offer signature.encode := by
  unfold write
  rw [if_neg (Nat.not_lt_of_le seeded), Sink.writeEach_eq_offer]
  rfl

/-- A signature that is written is written whole. -/
theorem accepted_of_write {signature : Signature} {sink left : Sink}
    (done : signature.write sink = .ok () left) :
    left.accepted = sink.accepted ++ Bytes.toArray signature.encode := by
  by_cases seeded : signature.spec.seed.length ≤ longestSeed
  · rw [write_eq_offer seeded] at done
    exact Sink.accepted_of_offer done
  · rw [write_of_long (Nat.lt_of_not_le seeded)] at done
    cases done

/-- A basis is described only when it can be cut. -/
theorem Generator.cut_of_ofBuffer {generator : Generator} {basis : Bytes} {base : Nat}
    {signature : Signature} (made : generator.ofBuffer base basis = .ok signature) :
    ∃ layout, Layout.ofLength basis.length generator.blockLength = .ok layout := by
  obtain ⟨layout, cut, _⟩ := exists_of_bind_eq_ok made
  exact ⟨layout, eq_ok_of_mapError cut⟩

/-- A signature that is made, with offsets that count from anywhere, is written unless its seed
bytes are too many to be counted, and then nothing is. What is written is read back, whatever
follows it, as the signature that is made with offsets that count from the start of the basis,
unless its blocks are longer than a stream allows. -/
theorem write_decode_of_ofBuffer (generator : Generator) (basis : Bytes) (base : Nat)
    (signature : Signature) (made : generator.ofBuffer base basis = .ok signature) :
    ∃ original, generator.ofBuffer 0 basis = .ok original ∧
      if 65535 < generator.spec.seed.length then
        ∃ fault : Fault, fault.kind = .invalidInput ∧
          ∀ sink, signature.write sink = .error fault sink
      else
        ∃ stream,
          (∀ written, signature.write (.holding written) = .ok () (.holding (written ++ stream))) ∧
          ∀ rest, decode (stream ++ rest) =
            if generator.blockLength.toNat ≤ 131072 then .ok (original, rest)
            else .error (.invalidHeader .blockLengthOutOfRange) := by
  obtain ⟨layout, cut⟩ := Generator.cut_of_ofBuffer made
  rw [Generator.ofBuffer_eq_ok base cut] at made
  cases made
  refine ⟨_, Generator.ofBuffer_eq_ok 0 cut, ?_⟩
  by_cases long : 65535 < generator.spec.seed.length
  · rw [if_pos long]
    exact ⟨.seedTooLong, rfl, write_of_long long⟩
  · rw [if_neg long]
    have seeded : generator.spec.seed.length ≤ longestSeed := Nat.le_of_not_lt long
    have longest : Layout.longestLength = 131072 := rfl
    refine ⟨_, write_holding seeded, fun rest => ?_⟩
    rw [decode_encode base rest cut seeded, longest]
    by_cases narrow : generator.blockLength.toNat ≤ 131072
    · rw [if_pos narrow, if_neg (Nat.not_lt_of_le narrow)]
    · rw [if_neg narrow, if_pos (Nat.lt_of_not_le narrow)]

/-- Five bytes in blocks of two, with offsets from a thousand on and a part of a seeded digest, are
read back with offsets from zero on, in front of a byte that is left. -/
theorem write_decode_of_ofBuffer_remainder :
    let generator : Generator :=
      ⟨⟨2, by decide, by decide⟩, ⟨.xxh64 7, 3, [9, 9], by decide, by decide⟩⟩
    ∃ signature original stream, generator.ofBuffer 1000 [1, 2, 3, 4, 5] = .ok signature ∧
      generator.ofBuffer 0 [1, 2, 3, 4, 5] = .ok original ∧
      signature.write .unlimited = .ok () (.holding stream) ∧
      decode (stream ++ [255]) = .ok (original, [255]) := by
  intro generator
  have cut : Layout.ofLength ([1, 2, 3, 4, 5] : Bytes).length generator.blockLength =
      .ok ⟨generator.blockLength, 1, 3⟩ := by cbv
  have made := Generator.ofBuffer_eq_ok 1000 cut
  obtain ⟨original, start, kept⟩ := write_decode_of_ofBuffer generator _ 1000 _ made
  rw [if_neg (by decide)] at kept
  obtain ⟨stream, written, read⟩ := kept
  exact ⟨_, original, stream, made, start, written [], read [255]⟩

end BlockDelta.Signature
