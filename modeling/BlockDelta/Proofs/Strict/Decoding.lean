import BlockDelta.Proofs.Delta.Canonical
import BlockDelta.Proofs.Strict.Traps

/-!
# Reading a delta stream does not go wrong

The lengths in a stream are chosen by whoever wrote it, and so are the offsets.
The totals of the deltas fit because each record takes a place in the stream: a
literal as many bytes as it announces, a copy twenty-one, which announces less
than `2 ^ 32`. So a stream shorter than `21 * 2 ^ 32` has totals that are words.
Where a delta stops is only asked for when it starts where those before it
stop, and that is no further than their lengths together.
-/

namespace BlockDelta

namespace Delta

/-- A delta announces less than `2 ^ 32` bytes for each twenty-one bytes of its record. -/
theorem length_le_record {delta : Delta} (encodable : delta.Encodable) :
    21 * delta.length ≤ (UInt32.size - 1) * delta.record.length := by
  cases delta with
  | literal offset data =>
    have fits : data.length < UInt32.size := encodable rfl
    have size : (record (.literal offset data)).length = 13 + data.length := by
      simp [record, recordPieces, Bytes.length_ofWord]
      omega
    rw [size, length]
    unfold UInt32.size at fits ⊢
    omega
  | copy source offset length =>
    have size : (record (.copy source offset length)).length = 21 := by
      simp [record, recordPieces, Bytes.length_ofWord]
    have fits := length.toNat_lt
    rw [size, Delta.length]
    unfold UInt32.size
    omega

/-- Deltas announce less than `2 ^ 32` bytes for each twenty-one bytes of their records. -/
theorem totalLength_le_records {deltas : List Delta}
    (encodable : ∀ delta ∈ deltas, delta.Encodable) :
    21 * totalLength deltas ≤ (UInt32.size - 1) * (deltas.flatMap record).length := by
  induction deltas with
  | nil => exact Nat.zero_le _
  | cons delta rest ih =>
    obtain ⟨first, others⟩ := List.forall_mem_cons.1 encodable
    have own := length_le_record first
    have further := ih others
    rw [totalLength, List.flatMap_cons, List.length_append, Nat.mul_add, Nat.mul_add]
    omega

/-- The deltas of a short stream are together no longer than a 64-bit word can say. -/
theorem totalLength_lt_of_decodeRecords {deltas : List Delta} {stream rest : Bytes}
    {targetLength : Nat} (short : stream.length < 21 * 2 ^ 32)
    (read : decodeRecords [] stream = .ok (deltas, targetLength, rest)) :
    totalLength deltas < UInt64.size := by
  obtain ⟨found, rfl, rfl, encodable, -⟩ := records_of_decodeRecords read
  have bounded := totalLength_le_records encodable
  rw [List.length_append] at short
  unfold UInt32.size at bounded
  unfold UInt64.size
  omega

end Delta

namespace Strict

open Delta

variable {deltas : List Delta}

/-- The bytes of literals and copies, added delta by delta to those before them. -/
def tally (carried copied : Nat) : List Delta → Except Trap (Nat × Nat)
  | [] => .ok (carried, copied)
  | delta :: rest =>
    if delta.isLiteral then do
      noOverflow carried delta.length
      tally (carried + delta.length) copied rest
    else do
      noOverflow copied delta.length
      tally carried (copied + delta.length) rest

/-- Deltas as a script, with the totals. -/
def ofDeltas (deltas : List Delta) : Except Trap Script := do
  let (carried, copied) ← tally 0 0 deltas
  return ⟨deltas.reverse, carried, copied⟩

/-- The length of everything a script describes. -/
def totalBytes (script : Script) : Except Trap Nat := do
  noOverflow script.literalBytes script.copyBytes
  return script.totalBytes

/-- How far deltas in target order cover the target. Where one stops is asked for when it is
neither empty nor in the wrong place. -/
def coverFrom (covered : Nat) : List Delta → Except (Halt TilingError) Nat
  | [] => .ok covered
  | delta :: rest =>
    if delta.isEmpty then .error (.failed (.empty delta.start))
    else if covered < delta.start then .error (.failed (.gap covered delta.start))
    else if delta.start < covered then .error (.failed (.overlap delta.start covered))
    else do
      checked (noOverflow delta.start delta.length)
      coverFrom delta.stop rest

/-- The deltas of a script tile a target of a known length. -/
def checkTiling (script : Script) (targetLength : Nat) : Except (Halt TilingError) Unit := do
  let covered ← coverFrom 0 (inTargetOrder script.deltas)
  if covered < targetLength then throw (.failed (.gap covered targetLength))
  else if targetLength < covered then throw (.failed (.overrun targetLength covered))
  else return ()

/-- The deltas at the start of a stream, and what follows them. Nothing is added up while the
records are read. -/
def decode (stream : Bytes) : Except (Halt FormatError) (DecodedDelta × Bytes) := do
  let (found, stream) ← reported (liftM (Field.bytes 4 stream))
  if found ≠ magic then throw (.failed (.badMagic found))
  let (found, stream) ← reported (liftM (Field.word 1 stream))
  if found ≠ version.toNat then throw (.failed (.unsupportedVersion (UInt8.ofNat found)))
  let (deltas, targetLength, stream) ← reported (decodeRecords [] stream)
  let script ← checked (ofDeltas deltas)
  (checkTiling script targetLength).mapError (Halt.map .tiling)
  return (⟨script, targetLength⟩, stream)

/-- Totals that are words at the end are words all along. -/
theorem tally_eq_ok {carried copied : Nat}
    (literals : carried + literalTotal deltas < UInt64.size)
    (copies : copied + copyTotal deltas < UInt64.size) :
    tally carried copied deltas =
      .ok (carried + literalTotal deltas, copied + copyTotal deltas) := by
  induction deltas generalizing carried copied with
  | nil => rfl
  | cons delta rest ih =>
    rw [literalTotal_cons] at literals ⊢
    rw [copyTotal_cons] at copies ⊢
    unfold tally
    by_cases literal : delta.isLiteral = true
    · simp only [literal, if_true, Nat.zero_add, ← Nat.add_assoc] at literals copies ⊢
      rw [noOverflow_eq_ok (Nat.lt_of_le_of_lt (Nat.le_add_right ..) literals)]
      exact ih literals copies
    · simp only [literal, Bool.false_eq_true, if_false, Nat.zero_add, ← Nat.add_assoc]
        at literals copies ⊢
      rw [noOverflow_eq_ok (Nat.lt_of_le_of_lt (Nat.le_add_right ..) copies)]
      exact ih literals copies

/-- The totals of deltas that are together a word are words. -/
theorem tally_of_totalLength_lt (fits : totalLength deltas < UInt64.size) :
    tally 0 0 deltas = .ok (literalTotal deltas, copyTotal deltas) := by
  have split := literalTotal_add_copyTotal deltas
  rw [tally_eq_ok (by omega) (by omega), Nat.zero_add, Nat.zero_add]

/-- A script of deltas that are together a word is made without trouble. -/
theorem ofDeltas_eq_ok (fits : totalLength deltas < UInt64.size) :
    ofDeltas deltas = .ok (Script.ofDeltas deltas) := by
  rw [ofDeltas, tally_of_totalLength_lt fits, Script.ofDeltas_eq]
  rfl

/-- What such a script describes is a word. -/
theorem totalBytes_eq_ok (fits : totalLength deltas < UInt64.size) :
    totalBytes (Script.ofDeltas deltas) = .ok (Script.ofDeltas deltas).totalBytes := by
  rw [totalBytes, noOverflow_eq_ok]
  · rfl
  · exact Script.totalBytes_ofDeltas deltas |>.trans_lt fits

/-- A delta that starts where the target is covered stops no further than the lengths of all. -/
theorem coverFrom_eq {covered : Nat} (fits : covered + totalLength deltas < UInt64.size) :
    coverFrom covered deltas = reported (Delta.coverFrom covered deltas) := by
  induction deltas generalizing covered with
  | nil => rfl
  | cons delta rest ih =>
    rw [totalLength] at fits
    unfold coverFrom Delta.coverFrom
    by_cases empty : delta.isEmpty = true
    · simp [empty]
    by_cases gap : covered < delta.start
    · simp [empty, gap]
    by_cases overlap : delta.start < covered
    · simp [empty, gap, overlap]
    · have begun : delta.start = covered := by omega
      have further : delta.stop + totalLength rest < UInt64.size := by
        unfold Delta.stop
        omega
      rw [if_neg empty, if_neg gap, if_neg overlap, if_neg empty, if_neg gap, if_neg overlap,
        noOverflow_eq_ok (by omega)]
      exact ih further

/-- Without that bound a delta may stop behind the last offset. -/
example : coverFrom (UInt64.size - 1) [.literal (UInt64.ofNat (UInt64.size - 1)) [7]] =
    .error (.trap (.overflow (UInt64.size - 1) 1)) := by rfl

/-- Whether deltas that are together a word tile a target is decided without trouble. -/
theorem checkTiling_eq (fits : totalLength deltas < UInt64.size) (targetLength : Nat) :
    checkTiling (Script.ofDeltas deltas) targetLength =
      reported ((Script.ofDeltas deltas).checkTiling targetLength) := by
  have same : totalLength (inTargetOrder deltas) = totalLength deltas :=
    totalLength_perm (perm_inTargetOrder deltas)
  rw [checkTiling, Script.checkTiling, Script.deltas_ofDeltas, Delta.checkTiling, reported_bind,
    coverFrom_eq (by omega)]
  refine bind_congr fun covered => ?_
  split
  · rfl
  split <;> rfl

/-- Reading a short stream takes no step that goes wrong. -/
theorem decode_eq {stream : Bytes} (short : stream.length < 21 * 2 ^ 32) :
    decode stream = reported (Delta.decode stream) := by
  unfold decode Delta.decode
  refine reported_bind_congr fun ⟨found, behind⟩ marked => ?_
  have front := Field.bytes_eq_ok (eq_ok_of_mapError marked)
  by_cases other : found ≠ magic
  · simp only [if_pos other]
    rfl
  simp only [if_neg other]
  refine reported_bind_congr fun ⟨edition, records⟩ versioned => ?_
  have next := Field.length_of_word (eq_ok_of_mapError versioned)
  by_cases unknown : edition ≠ version.toNat
  · simp only [if_pos unknown]
    rfl
  simp only [if_neg unknown]
  refine reported_bind_congr fun ⟨deltas, targetLength, rest⟩ read => ?_
  -- what is left for the records is shorter than the stream
  have left : records.length < 21 * 2 ^ 32 := by
    have whole := congrArg List.length front.1
    rw [List.length_append] at whole
    omega
  have fits := totalLength_lt_of_decodeRecords left read
  simp only [ofDeltas_eq_ok fits, checked_ok_bind, checkTiling_eq fits, ← reported_mapError]
  exact reported_bind_congr fun _ _ => rfl

end Strict

end BlockDelta
