import BlockDelta.Proofs.Delta.Canonical
import BlockDelta.Proofs.Signature.Canonical
import BlockDelta.Proofs.Storage.Incremental

/-!
# Streams that end too early

Signatures and deltas are sent one behind the other or cut off on the way. Every
field of either format is read by its length alone, so nothing but the end of
the input can be wrong with a stream that is cut, wherever it is cut.
-/

namespace BlockDelta

namespace Signature

/-- The records of a known number of blocks are read incrementally. -/
theorem incremental_decodeRecords (layout : Layout) (kept count number offset : Nat)
    (done : List Block) :
    Incremental (FromEnd FormatError.io) (decodeRecords layout kept count number offset done) := by
  induction count generalizing number offset done with
  | zero => exact fun stream more => .ok (done.reverse, stream)
  | succ count ih =>
    intro stream more
    refine (Field.incremental_word 4 stream more).lifted.bind fun weak _ => ?_
    refine (Field.incremental_bytes kept weak.2 more).lifted.bind fun strong _ => ?_
    exact ih _ _ _ strong.2 more

/-- Signature streams are read incrementally. -/
theorem incremental_decode : Incremental (FromEnd FormatError.io) decode := by
  intro stream more
  -- what is checked are values that were read, so a check passes for both streams or for neither
  refine (Field.incremental_bytes 4 stream more).lifted.bind fun mark _ => ?_
  refine .guard fun marked => ?_
  refine (Field.incremental_word 1 mark.2 more).lifted.bind fun edition _ => ?_
  refine .guard fun known => ?_
  refine (Field.incremental_word 1 edition.2 more).lifted.bind fun id _ => ?_
  refine (Field.incremental_word 8 id.2 more).lifted.bind fun hashSeed _ => ?_
  simp only [leaving]
  cases Strong.Algorithm.ofId? (UInt8.ofNat id.1) (UInt64.ofNat hashSeed.1) with
  | none => exact .error _
  | some algorithm =>
  refine (Field.incremental_word 4 hashSeed.2 more).lifted.bind fun length _ => ?_
  refine .guard fun narrow => ?_
  simp only [leaving]
  cases BlockLength.ofNat? length.1 with
  | none => exact .error _
  | some blockLength =>
  refine (Field.incremental_word 1 length.2 more).lifted.bind fun kept _ => ?_
  refine .require fun positive => ?_
  refine (Field.incremental_word 8 kept.2 more).lifted.bind fun total _ => ?_
  refine (Field.incremental_word 2 total.2 more).lifted.bind fun count _ => ?_
  refine (Field.incremental_bytes count.1 count.2 more).lifted.bind fun seed _ => ?_
  simp only [leaving]
  cases Strong.Spec.ofParts algorithm ⟨kept.1, positive⟩ seed.1 with
  | error _ => exact .error _
  | ok spec =>
  cases Layout.ofLength total.1 blockLength with
  | error _ => exact .error _
  | ok layout =>
  exact (incremental_decodeRecords layout kept.1 layout.blockCount 0 0 [] seed.2 more).bind
    fun blocks _ => .ok _

/-- A signature stream that is accepted is read alike, whatever follows it. -/
theorem exists_consumed_of_decode {bytes rest : Bytes} {signature : Signature}
    (read : decode bytes = .ok (signature, rest)) :
    ∃ consumed, bytes = consumed ++ rest ∧
      ∀ others, decode (consumed ++ others) = .ok (signature, others) := by
  obtain ⟨contents, valid, rfl⟩ := exists_contents_of_decode read
  obtain ⟨same, alike, _⟩ := valid.exists_decode
  refine ⟨contents.bytes, rfl, fun others => ?_⟩
  have agree := (alike rest).symm.trans read
  cases agree
  exact alike others

end Signature

namespace Delta

/-- A delta stream that is accepted is read alike, whatever follows it. -/
theorem exists_consumed_of_decode {bytes rest : Bytes} {decoded : DecodedDelta}
    (read : decode bytes = .ok (decoded, rest)) :
    ∃ consumed, bytes = consumed ++ rest ∧
      ∀ others, decode (consumed ++ others) = .ok (decoded, others) := by
  obtain ⟨deltas, script, rfl, checked, encodable, fits⟩ := exists_deltas_of_decode read
  refine ⟨_, rfl, fun others => ?_⟩
  rw [decode_stream others encodable fits, checked, ← script]

/-- The body of a copy's record is read incrementally. -/
theorem incremental_decodeCopy : Incremental (FromEnd id) decodeCopy := by
  intro stream more
  refine (Field.incremental_word 8 stream more).bind fun source _ => ?_
  refine (Field.incremental_word 8 source.2 more).bind fun offset _ => ?_
  exact (Field.incremental_word 4 offset.2 more).bind fun length _ => .ok _

/-- The body of a literal's record is read incrementally: its bytes may not end early either. -/
theorem incremental_decodeLiteral : Incremental (FromEnd id) decodeLiteral := by
  intro stream more
  refine (Field.incremental_word 8 stream more).bind fun offset _ => ?_
  refine (Field.incremental_word 4 offset.2 more).bind fun length _ => ?_
  simp only [leaving]
  cases split : Bytes.splitExactly length.1 length.2 with
  | none => exact .inl ⟨.cutRun, rfl, .cutRun, rfl, rfl⟩
  | some parts =>
    rw [Bytes.splitExactly_append_of_some split]
    exact .ok _

/-- The body of a record is read incrementally. -/
theorem grows_decodeRecord (tag : UInt8) (stream more : Bytes) :
    Grows (FromEnd id) (Option.map (leaving more)) (decodeRecord tag stream)
      (decodeRecord tag (stream ++ more)) := by
  unfold decodeRecord
  by_cases ended : tag = endTag
  · rw [if_pos ended, if_pos ended]
    exact (Field.incremental_word 8 stream more).map fun _ => rfl
  rw [if_neg ended, if_neg ended]
  by_cases copied : tag = copyTag
  · rw [if_pos copied, if_pos copied]
    exact (incremental_decodeCopy stream more).map fun _ => rfl
  rw [if_neg copied, if_neg copied]
  by_cases carried : tag = literalTag
  · rw [if_pos carried, if_pos carried]
    exact (incremental_decodeLiteral stream more).map fun _ => rfl
  rw [if_neg carried, if_neg carried]
  exact .ok none

/-- The records of a stream are read incrementally. -/
theorem grows_decodeRecords (done : List Delta) (stream more : Bytes) :
    Grows (FromEnd FormatError.io) (fun parts => (parts.1, leaving more parts.2))
      (decodeRecords done stream) (decodeRecords done (stream ++ more)) := by
  -- a record may take any number of bytes, so the induction is on the length of the stream
  induction count : stream.length using Nat.strongRecOn generalizing stream done with
  | ind _ ih =>
  cases stream with
  | nil =>
    rw [decodeRecords]
    exact .inl ⟨_, rfl, .shortRead, rfl, rfl⟩
  | cons tag body =>
    rw [List.cons_append, decodeRecords_cons, decodeRecords_cons]
    refine (grows_decodeRecord tag body more).lifted.bind fun read found => ?_
    cases read with
    | none => exact .error _
    | some parts =>
    obtain ⟨record, rest⟩ := parts
    cases record with
    | finish targetLength => exact .ok (done.reverse, targetLength, rest)
    | delta delta =>
      have shorter := length_of_decodeRecord (eq_ok_of_mapError found)
      rw [List.length_cons] at count
      exact ih rest.length (by omega) (delta :: done) rest rfl

/-- Delta streams are read incrementally. -/
theorem incremental_decode : Incremental (FromEnd FormatError.io) decode := by
  intro stream more
  refine (Field.incremental_bytes 4 stream more).lifted.bind fun mark _ => ?_
  refine .guard fun marked => ?_
  refine (Field.incremental_word 1 mark.2 more).lifted.bind fun edition _ => ?_
  refine .guard fun known => ?_
  refine (grows_decodeRecords [] edition.2 more).bind fun records _ => ?_
  simp only [leaving]
  cases (Script.ofDeltas records.1).checkTiling records.2.1 with
  | error error => exact .error _
  | ok _ => exact .ok _

end Delta

namespace Transfer

/-- Signature streams and delta streams are self-delimiting, and a part that is missing at the end
of either is always missed, and nothing else is. -/
theorem selfDelimiting_signature_delta :
    SelfDelimiting Signature.FormatError.io Signature.decode ∧
      SelfDelimiting Delta.FormatError.io Delta.decode :=
  ⟨Signature.incremental_decode.selfDelimiting fun _ _ _ => Signature.exists_consumed_of_decode,
    Delta.incremental_decode.selfDelimiting fun _ _ _ => Delta.exists_consumed_of_decode⟩

/-- A signature stream that is cut within its second record, and a delta stream that is cut within
the bytes of its literal. -/
theorem selfDelimiting_signature_delta_cut :
    let contents : Signature.Contents := ⟨⟨4, 7, 2, 3, 3, [9]⟩, [⟨1, [1, 2, 3]⟩, ⟨2, [4, 5, 6]⟩]⟩
    let stream := Delta.stream [.copy 9 3 2, .literal 0 [7, 8, 9]] 5
    (∃ signature, Signature.decode (contents.bytes ++ [255]) = .ok (signature, [255]) ∧
      ∃ fault, Signature.decode (contents.bytes.take 40) = .error (.io fault) ∧
        fault.kind = .endOfInput) ∧
    (∃ decoded, Delta.decode (stream ++ [255]) = .ok (decoded, [255]) ∧
      ∃ fault, Delta.decode (stream.take 40) = .error (.io fault) ∧ fault.kind = .endOfInput) := by
  intro contents stream
  constructor
  · have valid : contents.Valid := {
      header := {
        id := by decide
        blockLength := by decide
        kept := by decide
        blockCount := by decide
        seed := by decide }
      count := by decide
      strong := by simp [contents] }
    obtain ⟨signature, read, _⟩ := valid.exists_decode
    obtain ⟨consumed, whole, _, cut⟩ := selfDelimiting_signature_delta.1 _ _ _ (read [255])
    refine ⟨signature, read [255], cut _ (contents.bytes.drop 40) ?_ (by decide)⟩
    rw [← List.append_cancel_right whole, List.take_append_drop]
  · have encodable : ∀ delta ∈ [Delta.copy 9 3 2, .literal 0 [7, 8, 9]], delta.Encodable := by
      simp [Delta.Encodable, Delta.length, Delta.isLiteral, UInt32.size]
    have tiled : Delta.checkTiling [.copy 9 3 2, .literal 0 [7, 8, 9]] 5 = .ok () := by cbv
    have read := Delta.decode_stream [255] encodable (show 5 < UInt64.size by decide)
    rw [tiled] at read
    obtain ⟨consumed, whole, _, cut⟩ := selfDelimiting_signature_delta.2 _ _ _ read
    refine ⟨_, read, cut _ (stream.drop 40) ?_ (by decide)⟩
    rw [← List.append_cancel_right whole, List.take_append_drop]

end Transfer

end BlockDelta
