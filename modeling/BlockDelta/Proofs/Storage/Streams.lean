import BlockDelta.Proofs.Running
import BlockDelta.Proofs.Words
import BlockDelta.Storage.Field
import BlockDelta.Storage.Sink

/-!
# Writing a stream and reading it back

A sink without a limit holds everything that was written to it, piece behind
piece. A field that was written at the front of a stream is read back as it
was, whatever follows it.
-/

namespace BlockDelta

namespace Bytes

/-- Bytes brought to rest together lie one behind the other. -/
theorem toArray_append (front back : Bytes) :
    toArray (front ++ back) = toArray front ++ toArray back := by
  ext1
  simp [toArray]

/-- Bytes set in motion together lie one behind the other. -/
theorem ofArray_append (front back : ByteArray) :
    ofArray (front ++ back) = ofArray front ++ ofArray back := by
  rw [ofArray, ByteArray.data_append, Array.toList_append]
  rfl

end Bytes

namespace Sink

/-- Bytes are stored behind what is stored already. -/
theorem store_eq_append (stored : ByteArray) (piece : Bytes) :
    store stored piece = stored ++ Bytes.toArray piece := by
  unfold store
  induction piece generalizing stored with
  | nil => exact ByteArray.append_empty.symm
  | cons byte rest ih =>
    have pushed : stored.push byte = stored ++ Bytes.toArray [byte] := by
      ext1
      simp [Bytes.toArray]
    rw [List.foldl_cons, ih, pushed, ByteArray.append_assoc, ← Bytes.toArray_append]
    rfl

/-- A sink without a limit that holds these bytes. -/
def holding (written : Bytes) : Sink := ⟨Bytes.toArray written, none⟩

/-- A sink without a limit takes every piece. -/
theorem writeEach_holding (pieces : List Bytes) (written : Bytes) :
    writeEach pieces (holding written) = .ok () (holding (written ++ pieces.flatten)) := by
  induction pieces generalizing written with
  | nil => rw [List.flatten_nil, List.append_nil]; rfl
  | cons piece rest ih =>
    have stored : write piece (holding written) = .ok () (holding (written ++ piece)) := by
      rw [holding, holding, Bytes.toArray_append, ← store_eq_append]
      rfl
    simp only [writeEach, bind, EStateM.bind, stored]
    rw [ih, List.flatten_cons, List.append_assoc]

/-- A sink has room for so many bytes. -/
def HasRoom (sink : Sink) (count : Nat) : Prop := ∀ room, sink.room = some room → count ≤ room

/-- A sink that has accepted further bytes. -/
def accepting (sink : Sink) (written : ByteArray) : Sink :=
  ⟨sink.accepted ++ written, sink.room.map fun room => room - written.size⟩

section

variable {sink : Sink}

/-- A sink that accepts nothing stays. -/
theorem accepting_empty (sink : Sink) : sink.accepting .empty = sink := by
  obtain ⟨accepted, room⟩ := sink
  cases room <;> simp [accepting]

/-- Bytes are accepted one behind the other. -/
theorem accepting_accepting (sink : Sink) (front back : ByteArray) :
    (sink.accepting front).accepting back = sink.accepting (front ++ back) := by
  obtain ⟨accepted, room⟩ := sink
  cases room <;> simp [accepting, ByteArray.append_assoc, Nat.sub_sub]

/-- What is accepted takes up room, and the rest stays. -/
theorem HasRoom.accepting {written : ByteArray} {count : Nat}
    (room : sink.HasRoom (written.size + count)) : (sink.accepting written).HasRoom count := by
  intro left known
  obtain ⟨before, had, rfl⟩ := Option.map_eq_some_iff.1 known
  have enough := room before had
  omega

/-- A piece for which there is room is accepted. -/
theorem write_of_hasRoom {piece : Bytes} (room : sink.HasRoom piece.length) :
    write piece sink = .ok () (sink.accepting (Bytes.toArray piece)) := by
  obtain ⟨accepted, limit⟩ := sink
  cases limit with
  | none =>
    rw [accepting, ← store_eq_append]
    rfl
  | some left =>
    have enough : piece.length ≤ left := room left rfl
    simp only [write, if_pos enough]
    rw [accepting, ← store_eq_append]
    rfl

end

end Sink

namespace Field

/-- Bytes at the front of a stream are read back. -/
theorem bytes_append {count : Nat} (front rest : Bytes) (length : front.length = count) :
    bytes count (front ++ rest) = .ok (front, rest) := by
  subst length
  rw [bytes, Bytes.splitExactly_append]

/-- A word at the front of a stream is read back, as far as it fits its width. -/
theorem word_append {width value : Nat} (rest : Bytes) (fits : value < 256 ^ width) :
    word width (Bytes.ofWord width value ++ rest) = .ok (value, rest) := by
  rw [word, bytes_append _ _ (Bytes.length_ofWord width value)]
  simp only [Except.map, Bytes.toWord_ofWord, Nat.mod_eq_of_lt fits]

/-- A word that is read stands at the front of the stream as it would be written. -/
theorem word_eq_ok {width value : Nat} {stream rest : Bytes}
    (read : word width stream = .ok (value, rest)) :
    stream = Bytes.ofWord width value ++ rest ∧ value < 256 ^ width := by
  unfold word at read
  cases found : bytes width stream with
  | error fault => simp [found, Except.map] at read
  | ok parts =>
    obtain ⟨digits, behind⟩ := parts
    simp only [found, Except.map, Except.ok.injEq, Prod.mk.injEq] at read
    obtain ⟨rfl, rfl⟩ := read
    obtain ⟨split, rfl⟩ := bytes_eq_ok found
    exact ⟨by rw [Bytes.ofWord_toWord]; exact split, Bytes.toWord_lt digits⟩

/-- A single byte at the front of a stream is read as a word. -/
theorem word_cons (byte : UInt8) (rest : Bytes) :
    word 1 (byte :: rest) = .ok (byte.toNat, rest) := by
  have split : bytes 1 (byte :: rest) = .ok ([byte], rest) := bytes_append [byte] rest rfl
  rw [word, split]
  simp [Except.map, Bytes.toWord]

/-- A field that is read is read as part of any format. -/
theorem liftM_of_ok {α : Type} (Cause : Type) [FromFault Cause] {read : Except Fault α} {value : α}
    (done : read = .ok value) : (liftM read : Except Cause α) = .ok value := by
  rw [done]
  rfl

section

variable {Cause α : Type} {io : Fault → Cause} {value : α} {stream : Bytes}

/-- A format that begins with bytes goes on behind them. -/
theorem exists_of_bytes {count : Nat} {next : Bytes × Bytes → Except Cause α}
    (done : ((bytes count stream).mapError io >>= next) = .ok value) :
    ∃ front behind, stream = front ++ behind ∧ front.length = count ∧
      next (front, behind) = .ok value := by
  obtain ⟨⟨front, behind⟩, read, further⟩ := exists_of_bind_eq_ok done
  obtain ⟨whole, length⟩ := bytes_eq_ok (eq_ok_of_mapError read)
  exact ⟨front, behind, whole, length, further⟩

/-- A format that begins with a word goes on behind it. -/
theorem exists_of_word {width : Nat} {next : Nat × Bytes → Except Cause α}
    (done : ((word width stream).mapError io >>= next) = .ok value) :
    ∃ number behind, stream = Bytes.ofWord width number ++ behind ∧ number < 256 ^ width ∧
      next (number, behind) = .ok value := by
  obtain ⟨⟨number, behind⟩, read, further⟩ := exists_of_bind_eq_ok done
  obtain ⟨whole, fits⟩ := word_eq_ok (eq_ok_of_mapError read)
  exact ⟨number, behind, whole, fits, further⟩

end

end Field

end BlockDelta
