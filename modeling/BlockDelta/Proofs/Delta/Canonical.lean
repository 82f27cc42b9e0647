import BlockDelta.Proofs.Delta.RoundTrip

/-!
# A delta stream has one written form

What is accepted as a delta stream is, up to its end record, exactly what its
deltas are written as. The end record announces the length of the target, and a
writer announces the bytes of all deltas; that these agree is not said by the
stream but follows from the tiling. So writing and reading are inverse to each
other between the deltas that tile a target and the streams that are accepted.
-/

namespace BlockDelta

namespace Delta

/-- A copy that is read has the record that it was read from. -/
theorem record_of_decodeCopy {body rest : Bytes} {delta : Delta}
    (read : decodeCopy body = .ok (delta, rest)) :
    copyTag :: body = delta.record ++ rest ∧ delta.Encodable := by
  obtain ⟨⟨source, behind⟩, sourceRead, offsetOn⟩ := exists_of_bind_eq_ok read
  obtain ⟨⟨offset, further⟩, offsetRead, lengthOn⟩ := exists_of_bind_eq_ok offsetOn
  obtain ⟨⟨length, last⟩, lengthRead, made⟩ := exists_of_bind_eq_ok lengthOn
  obtain ⟨whole, sourceFits⟩ := Field.word_eq_ok sourceRead
  obtain ⟨behindSource, offsetFits⟩ := Field.word_eq_ok offsetRead
  obtain ⟨behindOffset, lengthFits⟩ := Field.word_eq_ok lengthRead
  cases made
  refine ⟨?_, nofun⟩
  rw [whole, behindSource, behindOffset]
  simp only [record, recordPieces, UInt64.toNat_ofNat_of_lt' sourceFits,
    UInt64.toNat_ofNat_of_lt' offsetFits, UInt32.toNat_ofNat_of_lt' lengthFits]
  simp

/-- A literal that is read has the record that it was read from. -/
theorem record_of_decodeLiteral {body rest : Bytes} {delta : Delta}
    (read : decodeLiteral body = .ok (delta, rest)) :
    literalTag :: body = delta.record ++ rest ∧ delta.Encodable := by
  obtain ⟨⟨offset, behind⟩, offsetRead, lengthOn⟩ := exists_of_bind_eq_ok read
  obtain ⟨⟨length, further⟩, lengthRead, dataOn⟩ := exists_of_bind_eq_ok lengthOn
  obtain ⟨whole, offsetFits⟩ := Field.word_eq_ok offsetRead
  obtain ⟨behindOffset, lengthFits⟩ := Field.word_eq_ok lengthRead
  simp only [] at dataOn
  split at dataOn
  · cases dataOn
  · rename_i data last split
    cases dataOn
    obtain ⟨behindLength, rfl⟩ := Bytes.splitExactly_eq_some split
    refine ⟨?_, fun _ => lengthFits⟩
    rw [whole, behindOffset, behindLength]
    simp only [record, recordPieces, UInt64.toNat_ofNat_of_lt' offsetFits]
    simp

/-- An end record that is read announces the length that it was read from. -/
theorem record_of_decodeEnd {body rest : Bytes} {targetLength : Nat}
    (read : decodeEnd body = .ok (targetLength, rest)) :
    endTag :: body = (endPieces targetLength).flatten ++ rest ∧ targetLength < UInt64.size := by
  obtain ⟨rfl, fits⟩ := Field.word_eq_ok read
  exact ⟨by simp [endPieces], fits⟩

/-- The stream of a record: of a delta, or of the end. -/
def Record.written : Record → Bytes
  | .delta single => single.record
  | .finish targetLength => (endPieces targetLength).flatten

/-- What the length fields of a record can say. -/
def Record.Encodable : Record → Prop
  | .delta single => single.Encodable
  | .finish targetLength => targetLength < UInt64.size

/-- A record that is read stands at the front of the stream as it would be written. -/
theorem written_of_decodeRecord {tag : UInt8} {body rest : Bytes} {record : Record}
    (read : decodeRecord tag body = .ok (some (record, rest))) :
    tag :: body = record.written ++ rest ∧ record.Encodable := by
  unfold decodeRecord at read
  split at read
  · rename_i ended
    obtain ⟨⟨targetLength, behind⟩, found, made⟩ := exists_of_map_eq_ok read
    cases made
    exact ended ▸ record_of_decodeEnd found
  split at read
  · rename_i copied
    obtain ⟨⟨copy, behind⟩, found, made⟩ := exists_of_map_eq_ok read
    cases made
    exact copied ▸ record_of_decodeCopy found
  split at read
  · rename_i carried
    obtain ⟨⟨literal, behind⟩, found, made⟩ := exists_of_map_eq_ok read
    cases made
    exact carried ▸ record_of_decodeLiteral found
  · cases read

/-- The records that are read, up to the end record, stand at the front of the stream as they
would be written. -/
theorem records_of_decodeRecords {done deltas : List Delta} {stream rest : Bytes}
    {targetLength : Nat} (read : decodeRecords done stream = .ok (deltas, targetLength, rest)) :
    ∃ found, deltas = done.reverse ++ found ∧
      stream = found.flatMap record ++ ((endPieces targetLength).flatten ++ rest) ∧
      (∀ delta ∈ found, delta.Encodable) ∧ targetLength < UInt64.size := by
  induction count : stream.length using Nat.strongRecOn generalizing stream done with
  | ind _ ih =>
  cases stream with
  | nil =>
    rw [decodeRecords] at read
    cases read
  | cons tag body =>
    rw [decodeRecords] at read
    split at read
    · cases read
    · cases read
    · rename_i announced behind ended
      cases read
      obtain ⟨front, fits⟩ := written_of_decodeRecord ended
      exact ⟨[], (List.append_nil _).symm, front, by simp, fits⟩
    · rename_i delta behind next
      obtain ⟨front, first⟩ := written_of_decodeRecord next
      have shorter := length_of_decodeRecord next
      rw [List.length_cons] at count
      obtain ⟨found, rfl, rfl, others, fits⟩ := ih behind.length (by omega) read rfl
      refine ⟨delta :: found, by simp, ?_, List.forall_mem_cons.2 ⟨first, others⟩, fits⟩
      rw [front, List.flatMap_cons, List.append_assoc]
      rfl

/-- A stream that is accepted is that of its deltas and of the length it announces, these deltas
tile a target of that length, and all lengths fit their fields. -/
theorem exists_deltas_of_decode {bytes rest : Bytes} {decoded : DecodedDelta}
    (read : decode bytes = .ok (decoded, rest)) :
    ∃ deltas, decoded.script = .ofDeltas deltas ∧
      bytes = stream deltas decoded.targetLength ++ rest ∧
      checkTiling deltas decoded.targetLength = .ok () ∧ (∀ delta ∈ deltas, delta.Encodable) ∧
      decoded.targetLength < UInt64.size := by
  obtain ⟨mark, behindMark, rfl, -, read⟩ := Field.exists_of_bytes read
  simp only [] at read
  split at read
  · cases read
  rename_i marked
  obtain ⟨edition, behindEdition, rfl, -, read⟩ := Field.exists_of_word read
  simp only [] at read
  split at read
  · cases read
  rename_i edited
  obtain ⟨⟨deltas, targetLength, last⟩, recordsRead, checkOn⟩ := exists_of_bind_eq_ok read
  obtain ⟨found, rfl, rfl, encodable, fits⟩ := records_of_decodeRecords recordsRead
  obtain ⟨_, checked, made⟩ := exists_of_bind_eq_ok checkOn
  cases made
  refine ⟨deltas, rfl, ?_, ?_, encodable, fits⟩
  · have version : edition = 1 := Decidable.not_not.1 edited
    rw [Decidable.not_not.1 marked, version]
    simp only [stream, headerPieces, List.append_assoc]
    rfl
  · have tiled := eq_ok_of_mapError checked
    rwa [Script.checkTiling, Script.deltas_ofDeltas] at tiled

/-- A stream that is accepted is that of its deltas and of the length it announces, and these
deltas tile a target of that length. -/
theorem stream_of_decode {bytes rest : Bytes} {decoded : DecodedDelta}
    (read : decode bytes = .ok (decoded, rest)) :
    ∃ deltas, decoded.script = .ofDeltas deltas ∧
      bytes = stream deltas decoded.targetLength ++ rest ∧
      checkTiling deltas decoded.targetLength = .ok () ∧ ∀ delta ∈ deltas, delta.Encodable := by
  obtain ⟨deltas, script, whole, checked, encodable, _⟩ := exists_deltas_of_decode read
  exact ⟨deltas, script, whole, checked, encodable⟩

/-- Deltas that tile a target are together as long as the target. -/
theorem totalLength_of_checkTiling {deltas : List Delta} {targetLength : Nat}
    (checked : checkTiling deltas targetLength = .ok ()) : totalLength deltas = targetLength := by
  have tiles := (tiles_of_checkTiling checked).1.totalLength
  have ordered : totalLength (inTargetOrder deltas) = totalLength deltas :=
    totalLength_perm (perm_inTargetOrder deltas)
  omega

end Delta

namespace DeltaWriter

/-- Deltas that fit their records are written one behind the other. -/
theorem writeDeltas_holding {deltas : List Delta} (encodable : ∀ delta ∈ deltas, delta.Encodable)
    (written : Bytes) (records : Nat) :
    writeDeltas deltas (holding written records) =
      .ok () (holding (written ++ deltas.flatMap Delta.record) (records + deltas.length)) := by
  induction deltas generalizing written records with
  | nil =>
    rw [List.flatMap_nil, List.append_nil]
    rfl
  | cons delta rest ih =>
    obtain ⟨first, others⟩ := List.forall_mem_cons.1 encodable
    rw [writeDeltas, bind_of_ok (writeDelta_holding first written records), ih others,
      List.flatMap_cons, List.append_assoc, List.length_cons, Nat.add_assoc, Nat.add_comm 1]

end DeltaWriter

namespace Script

/-- A script whose deltas fit their records is written as their stream. -/
theorem write_ofDeltas {deltas : List Delta} (encodable : ∀ delta ∈ deltas, delta.Encodable) :
    (ofDeltas deltas).write (.toSink .unlimited) =
      .ok () (.holding (Delta.stream deltas (Delta.totalLength deltas)) deltas.length) := by
  let header := Delta.headerPieces.flatten
  have opened : DeltaWriter.writeHeader (.toSink .unlimited) = .ok () (.holding header 0) :=
    DeltaWriter.writePieces_holding Delta.headerPieces [] 0
  have recorded := DeltaWriter.writeDeltas_holding encodable header 0
  have closed := DeltaWriter.writePieces_holding (Delta.endPieces (Delta.totalLength deltas))
    (header ++ deltas.flatMap Delta.record) (0 + deltas.length)
  rw [write, deltas_ofDeltas, totalBytes_ofDeltas, bind_of_ok opened, bind_of_ok recorded,
    DeltaWriter.finish, closed, List.append_assoc, Nat.zero_add]
  rfl

/-- Between scripts and delta streams, writing and reading are inverse to each other. Deltas whose
literals fit their length field, and that are together no longer than a 64-bit word can say, are
written; what follows their stream does not matter, and they are read back as they are, or refused
with the very error that the check of their tiling finds. And a stream that is accepted is, up to
where reading stops, exactly what the script that was read is written as. -/
theorem write_decode_inverse :
    (∀ (deltas : List Delta) (rest : Bytes), (∀ delta ∈ deltas, delta.Encodable) →
      Delta.totalLength deltas < UInt64.size →
      let script := ofDeltas deltas
      ∃ written, script.write (.toSink .unlimited) = .ok () written ∧
        script.deltas = deltas ∧ script.totalBytes = Delta.totalLength deltas ∧
        Delta.decode (Bytes.ofArray written.sink.accepted ++ rest) =
          match script.checkTiling script.totalBytes with
          | .ok () => .ok (⟨script, script.totalBytes⟩, rest)
          | .error error => .error (.tiling error)) ∧
    (∀ (bytes rest : Bytes) (decoded : DecodedDelta),
      Delta.decode bytes = .ok (decoded, rest) →
      ∃ consumed written, bytes = consumed ++ rest ∧
        decoded.script.write (.toSink .unlimited) = .ok () written ∧
        Bytes.ofArray written.sink.accepted = consumed) := by
  constructor
  · intro deltas rest encodable fits script
    refine ⟨_, write_ofDeltas encodable, deltas_ofDeltas deltas, totalBytes_ofDeltas deltas, ?_⟩
    rw [checkTiling, deltas_ofDeltas, totalBytes_ofDeltas]
    exact Delta.decode_stream rest encodable fits
  · intro bytes rest decoded read
    obtain ⟨deltas, script, whole, checked, encodable⟩ := Delta.stream_of_decode read
    have announced := Delta.totalLength_of_checkTiling checked
    refine ⟨_, .holding (Delta.stream deltas decoded.targetLength) deltas.length, whole, ?_, rfl⟩
    rw [script, write_ofDeltas encodable, announced]

/-- Deltas out of target order are written and read back behind a byte that is left, and the script
that was read is written as the same stream. -/
theorem write_decode_inverse_unordered :
    let deltas : List Delta := [.copy 9 3 2, .literal 0 [7, 8, 9]]
    ∃ stream decoded, Delta.decode (stream ++ [255]) = .ok (decoded, [255]) ∧
      decoded.script.deltas = deltas ∧ decoded.targetLength = 5 ∧
      ∃ consumed written, stream ++ [255] = consumed ++ [255] ∧
        decoded.script.write (.toSink .unlimited) = .ok () written ∧
        Bytes.ofArray written.sink.accepted = consumed := by
  intro deltas
  have encodable : ∀ delta ∈ deltas, delta.Encodable := by
    simp [deltas, Delta.Encodable, Delta.length, Delta.isLiteral, UInt32.size]
  have tiled : (ofDeltas deltas).checkTiling (ofDeltas deltas).totalBytes = .ok () := by cbv
  obtain ⟨written, _, listed, _, decoded⟩ :=
    write_decode_inverse.1 deltas [255] encodable (by decide)
  rw [tiled] at decoded
  exact ⟨_, _, decoded, listed, rfl, write_decode_inverse.2 _ _ _ decoded⟩

end Script

end BlockDelta
