import BlockDelta.Delta.Decoding
import BlockDelta.Delta.Writer
import BlockDelta.Proofs.Delta.Coalescing
import BlockDelta.Proofs.Delta.Tiling
import BlockDelta.Proofs.Running
import BlockDelta.Proofs.Storage.Streams

/-!
# Delta streams are read back as they were written

A record is the tag of its delta and a body that the tag tells how to read. So
the records of a stream come back one by one, up to the end record, and what a
writer puts into a sink without a limit is a stream of the deltas written.
-/

namespace BlockDelta

namespace Delta

/-- A delta whose length fits the length field of its record. -/
def Encodable (delta : Delta) : Prop := delta.isLiteral = true → delta.length < UInt32.size

/-- The record of a delta. -/
def record (delta : Delta) : Bytes := delta.recordPieces.flatten

/-- The stream of deltas, with the length of the target that its end record announces. -/
def stream (deltas : List Delta) (targetLength : Nat) : Bytes :=
  headerPieces.flatten ++ (deltas.flatMap record ++ (endPieces targetLength).flatten)

/-- The body of a copy's record is read back. -/
theorem decodeCopy_append (source offset : UInt64) (length : UInt32) (rest : Bytes) :
    decodeCopy (Bytes.ofWord 8 source.toNat ++ (Bytes.ofWord 8 offset.toNat ++
      (Bytes.ofWord 4 length.toNat ++ rest))) = .ok (.copy source offset length, rest) := by
  simp only [decodeCopy, bind, Except.bind,
    Field.word_append _ (show source.toNat < 256 ^ 8 from source.toNat_lt),
    Field.word_append _ (show offset.toNat < 256 ^ 8 from offset.toNat_lt),
    Field.word_append _ (show length.toNat < 256 ^ 4 from length.toNat_lt)]
  rw [UInt64.ofNat_toNat, UInt64.ofNat_toNat, UInt32.ofNat_toNat]
  rfl

/-- The body of a literal's record is read back. -/
theorem decodeLiteral_append (offset : UInt64) {data : Bytes} (rest : Bytes)
    (fits : data.length < UInt32.size) :
    decodeLiteral (Bytes.ofWord 8 offset.toNat ++ (Bytes.ofWord 4 data.length ++
      (data ++ rest))) = .ok (.literal offset data, rest) := by
  simp only [decodeLiteral, bind, Except.bind,
    Field.word_append _ (show offset.toNat < 256 ^ 8 from offset.toNat_lt),
    Field.word_append _ (show data.length < 256 ^ 4 from fits), Bytes.splitExactly_append]
  rw [UInt64.ofNat_toNat]
  rfl

/-- A record is a tag and a body from which the delta is read back. -/
theorem decodeRecord_record {delta : Delta} (encodable : delta.Encodable) (rest : Bytes) :
    ∃ tag body, delta.record ++ rest = tag :: body ∧
      decodeRecord tag body = .ok (some (.delta delta, rest)) := by
  cases delta with
  | literal offset data =>
    refine ⟨literalTag, Bytes.ofWord 8 offset.toNat ++ (Bytes.ofWord 4 data.length ++
      (data ++ rest)), by simp [record, recordPieces], ?_⟩
    have read := decodeLiteral_append offset rest (encodable rfl)
    simp only [decodeRecord, literalTag, endTag, copyTag] at read ⊢
    simp only [read, Except.map]
    rfl
  | copy source offset length =>
    refine ⟨copyTag, Bytes.ofWord 8 source.toNat ++ (Bytes.ofWord 8 offset.toNat ++
      (Bytes.ofWord 4 length.toNat ++ rest)), by simp [record, recordPieces], ?_⟩
    have read := decodeCopy_append source offset length rest
    simp only [decodeRecord, copyTag, endTag] at read ⊢
    simp only [read, Except.map]
    rfl

/-- The end record is read back. -/
theorem decodeRecord_end {targetLength : Nat} (fits : targetLength < UInt64.size) (rest : Bytes) :
    ∃ body, (endPieces targetLength).flatten ++ rest = endTag :: body ∧
      decodeRecord endTag body = .ok (some (.finish targetLength, rest)) := by
  refine ⟨Bytes.ofWord 8 targetLength ++ rest, by simp [endPieces], ?_⟩
  simp only [decodeRecord, decodeEnd, if_true,
    Field.word_append _ (show targetLength < 256 ^ 8 from fits), Except.map]

/-- Records are read behind a tag, until one ends them. -/
theorem decodeRecords_cons (done : List Delta) (tag : UInt8) (body : Bytes) :
    decodeRecords done (tag :: body) = ((decodeRecord tag body).mapError .io >>= fun read =>
      match read with
      | none => .error (.unknownTag tag)
      | some (.finish targetLength, rest) => .ok (done.reverse, targetLength, rest)
      | some (.delta delta, rest) => decodeRecords (delta :: done) rest) := by
  rw [decodeRecords]
  split
  all_goals
    rename_i found
    simp only [found]
    rfl

/-- A record that holds a delta is followed by others. -/
theorem decodeRecords_of_delta {tag : UInt8} {body rest : Bytes} {delta : Delta}
    (done : List Delta) (read : decodeRecord tag body = .ok (some (.delta delta, rest))) :
    decodeRecords done (tag :: body) = decodeRecords (delta :: done) rest := by
  rw [decodeRecords_cons, read]
  rfl

/-- Nothing is read behind the end record. -/
theorem decodeRecords_of_finish {tag : UInt8} {body rest : Bytes} {targetLength : Nat}
    (done : List Delta) (read : decodeRecord tag body = .ok (some (.finish targetLength, rest))) :
    decodeRecords done (tag :: body) = .ok (done.reverse, targetLength, rest) := by
  rw [decodeRecords_cons, read]
  rfl

/-- Records are read back up to the end record. -/
theorem decodeRecords_append {deltas : List Delta} {targetLength : Nat} (done : List Delta)
    (rest : Bytes) (encodable : ∀ delta ∈ deltas, delta.Encodable)
    (fits : targetLength < UInt64.size) :
    decodeRecords done (deltas.flatMap record ++ ((endPieces targetLength).flatten ++ rest)) =
      .ok (done.reverse ++ deltas, targetLength, rest) := by
  induction deltas generalizing done with
  | nil =>
    obtain ⟨body, stream, read⟩ := decodeRecord_end fits rest
    rw [List.flatMap_nil, List.nil_append, stream, decodeRecords_of_finish done read,
      List.append_nil]
  | cons delta others ih =>
    obtain ⟨first, later⟩ := List.forall_mem_cons.1 encodable
    obtain ⟨tag, body, stream, read⟩ := decodeRecord_record first
      (others.flatMap record ++ ((endPieces targetLength).flatten ++ rest))
    rw [List.flatMap_cons, List.append_assoc, stream, decodeRecords_of_delta done read,
      ih (delta :: done) later, List.reverse_cons, List.append_assoc]
    rfl

/-- A stream is read back as the deltas it was made of, whatever follows it, or is refused with
the very error that the check of their tiling finds. -/
theorem decode_stream {deltas : List Delta} {targetLength : Nat} (rest : Bytes)
    (encodable : ∀ delta ∈ deltas, delta.Encodable) (fits : targetLength < UInt64.size) :
    decode (stream deltas targetLength ++ rest) =
      match checkTiling deltas targetLength with
      | .ok () => .ok (⟨.ofDeltas deltas, targetLength⟩, rest)
      | .error error => .error (.tiling error) := by
  let records := deltas.flatMap record ++ ((endPieces targetLength).flatten ++ rest)
  have header : stream deltas targetLength ++ rest = magic ++ version :: records := by
    simp [stream, headerPieces, records]
  have width : magic.length = 4 := rfl
  have marked := Field.liftM_of_ok FormatError (Field.bytes_append magic (version :: records) width)
  have versioned := Field.liftM_of_ok FormatError (Field.word_cons version records)
  have read := decodeRecords_append [] rest encodable fits
  have tiled : (Script.ofDeltas deltas).checkTiling targetLength =
      checkTiling deltas targetLength := by
    rw [Script.checkTiling, Script.deltas_ofDeltas]
  simp only [header, decode, bind, Except.bind, marked, versioned, ne_eq, not_true_eq_false,
    if_false]
  rw [read]
  simp only [List.reverse_nil, List.nil_append, tiled]
  cases checkTiling deltas targetLength <;> rfl

/-- Deltas that tile a target are read back, whatever follows their stream. -/
theorem decode_stream_of_tiles {deltas : List Delta} {targetLength : Nat} (rest : Bytes)
    (encodable : ∀ delta ∈ deltas, delta.Encodable) (fits : targetLength < UInt64.size)
    (tiles : Tiles 0 deltas targetLength) (something : ∀ delta ∈ deltas, delta.isEmpty = false) :
    decode (stream deltas targetLength ++ rest) =
      .ok (⟨.ofDeltas deltas, targetLength⟩, rest) := by
  rw [decode_stream rest encodable fits, tiles.checkTiling_eq something]

end Delta

namespace DeltaWriter

/-- A stream in progress whose sink has no limit and holds these bytes. -/
def holding (written : Bytes) (records : Nat) : DeltaWriter := ⟨.holding written, records⟩

/-- Pieces go to the sink one behind the other. -/
theorem writePieces_holding (pieces : List Bytes) (written : Bytes) (records : Nat) :
    writePieces pieces (holding written records) =
      .ok () (holding (written ++ pieces.flatten) records) := by
  simp only [writePieces, holding, Sink.writeEach_holding]

/-- A delta that fits its record is written and counted. -/
theorem writeDelta_holding {delta : Delta} (encodable : delta.Encodable) (written : Bytes)
    (records : Nat) :
    writeDelta delta (holding written records) =
      .ok () (holding (written ++ delta.record) (records + 1)) := by
  have short : (delta.isLiteral && decide (UInt32.size ≤ delta.length)) = false := by
    rw [Bool.and_eq_false_iff, decide_eq_false_iff_not]
    by_cases literal : delta.isLiteral = true
    · exact .inr (Nat.not_le_of_lt (encodable literal))
    · exact .inl (Bool.eq_false_iff.2 literal)
  unfold writeDelta
  simp only [short, Bool.false_eq_true, if_false]
  exact bind_of_ok (writePieces_holding delta.recordPieces written records)

end DeltaWriter

end BlockDelta
