import BlockDelta.Proofs.Running
import BlockDelta.Proofs.Storage.Bytewise
import BlockDelta.Rebuild.InPlace

/-!
# Moving a span within one file

A copy within a file whose source and target overlap must still deliver what
the source held before the copy began. The invariant of the piecewise move is
that the part moved so far holds original bytes and everything else is
untouched; the side from which pieces are taken keeps the part still to be
read outside the part already written.
-/

namespace BlockDelta

namespace CopySpan

/-- Where the moved part begins, within the span, when so many bytes have been moved. -/
def movedFrom (span : CopySpan) (done : Nat) : Nat :=
  if span.target < span.source then 0 else span.length - done

/-- Where the moved part ends, within the span, when so many bytes have been moved. -/
def movedTo (span : CopySpan) (done : Nat) : Nat :=
  if span.target < span.source then done else span.length

end CopySpan

namespace Rebuild

open Content

/-- So many bytes of a copy have been moved, relative to what the file held before the copy. -/
structure Moved (original : ByteArray) (span : CopySpan) (done : Nat) (content : ByteArray) :
    Prop where
  /-- The file reaches to the end of what was written. -/
  size : content.size =
    if done = 0 then original.size else max original.size (span.target + span.movedTo done)
  /-- The moved part holds the bytes of the source, everything else is as before. -/
  bytes : ∀ offset, byteAt content offset =
    if span.target + span.movedFrom done ≤ offset ∧ offset < span.target + span.movedTo done then
      byteAt original (span.source + (offset - span.target))
    else byteAt original offset

/-- Before a copy begins, nothing has been moved. -/
theorem Moved.start (original : ByteArray) (span : CopySpan) : Moved original span 0 original where
  size := rfl
  bytes offset := by
    unfold CopySpan.movedFrom CopySpan.movedTo
    rw [if_neg]
    split <;> omega

/-- A file in which bytes have been moved is no shorter than before. -/
theorem Moved.size_le {original content : ByteArray} {span : CopySpan} {done : Nat}
    (moved : Moved original span done content) : original.size ≤ content.size := by
  rw [moved.size]
  split <;> omega

/-- The next piece is read where nothing has been written yet, and extends the moved part. -/
theorem Moved.piece {original content : ByteArray} {span : CopySpan} {done count place : Nat}
    (moved : Moved original span done content) (positive : 0 < count)
    (fits : done + count ≤ span.length) (inside : span.source + span.length ≤ original.size)
    (chosen : place = if span.target < span.source then done else span.length - done - count) :
    Moved original span (done + count)
      (write content (span.target + place)
        (content.extract (span.source + place) (span.source + place + count))) := by
  have reach := moved.size_le
  have placed : place + count ≤ span.length := by
    subst chosen
    split <;> omega
  have cut : (content.extract (span.source + place) (span.source + place + count)).size = count :=
    size_extract_span (by omega)
  refine ⟨?_, fun offset => ?_⟩
  · rw [size_write _ _ _ (by omega), cut, moved.size, if_neg (by omega : done + count ≠ 0)]
    unfold CopySpan.movedTo
    split at chosen <;> simp only [*, if_true, if_false] <;> split <;> omega
  · rw [byteAt_write, cut]
    by_cases written : span.target + place ≤ offset ∧ offset < span.target + place + count
    · -- the bytes just read lie outside the part moved before
      rw [if_pos written, byteAt_extract (by omega), moved.bytes, if_neg, if_pos]
      · congr 1
        omega
      · unfold CopySpan.movedFrom CopySpan.movedTo
        split at chosen <;> simp only [*, if_true, if_false] <;> omega
      · unfold CopySpan.movedFrom CopySpan.movedTo
        split at chosen <;> simp only [*, if_true, if_false] <;> omega
    · rw [if_neg written, moved.bytes]
      have same : (span.target + span.movedFrom done ≤ offset ∧
            offset < span.target + span.movedTo done) ↔
          (span.target + span.movedFrom (done + count) ≤ offset ∧
            offset < span.target + span.movedTo (done + count)) := by
        unfold CopySpan.movedFrom CopySpan.movedTo
        split at chosen <;> simp only [*, if_true, if_false] <;> omega
      simp only [same]

/-- A span is read and written elsewhere before the work goes on. -/
theorem readSpan_writeSpan {content : ByteArray} {source target count : Nat}
    (inside : source + count ≤ content.size) (next : Editing Unit) :
    (do
      let piece ← readSpan source count
      writeSpan target piece
      next) content =
      next (write content target (content.extract source (source + count))) := by
  have done : readSpan source count content =
      .ok (content.extract source (source + count)) content := by
    simp only [readSpan, read_eq_ok inside]
  rw [bind_of_ok done]
  rfl

/-- The rest of a copy completes it. -/
theorem moveRest_moved (buffer : Buffer) {original content : ByteArray} {span : CopySpan}
    {done : Nat} (moved : Moved original span done content) (fits : done ≤ span.length)
    (inside : span.source + span.length ≤ original.size) :
    ∃ after, moveRest buffer span done content = .ok () after ∧
      Moved original span span.length after := by
  induction left : span.length - done using Nat.strongRecOn generalizing done content with
  | ind left ih =>
    have positive := buffer.positive
    unfold moveRest
    by_cases more : done < span.length
    · rw [if_pos more]
      have reach := moved.size_le
      have moves : 0 < min buffer.size (span.length - done) := by omega
      have next := moved.piece moves (by omega) inside rfl
      obtain ⟨after, ran, complete⟩ := ih _ (by omega) next (by omega) rfl
      refine ⟨after, ?_, complete⟩
      rw [← ran]
      refine readSpan_writeSpan ?_ _
      split <;> omega
    · rw [if_neg more]
      obtain rfl : done = span.length := by omega
      exact ⟨content, rfl, moved⟩

/-- A copy within a file delivers what its source held, leaves every other byte as it was, and
makes the file no longer than the copy needs. -/
theorem moveWithin_eq_ok (buffer : Buffer) {content : ByteArray} {span : CopySpan}
    (inside : span.source + span.length ≤ content.size) :
    ∃ after, moveWithin buffer span content = .ok () after ∧
      after.size = (if span.length = 0 then content.size else max content.size span.writeStop) ∧
      ∀ offset, byteAt after offset =
        if span.target ≤ offset ∧ offset < span.writeStop then
          byteAt content (span.source + (offset - span.target))
        else byteAt content offset := by
  unfold moveWithin
  by_cases idle : span.source = span.target ∨ span.length = 0
  · rw [if_pos idle]
    refine ⟨content, rfl, ?_, fun offset => ?_⟩
    · unfold CopySpan.writeStop
      split <;> omega
    · unfold CopySpan.writeStop
      split
      · congr 1
        omega
      · rfl
  · rw [if_neg idle]
    obtain ⟨after, ran, moved⟩ :=
      moveRest_moved buffer (Moved.start content span) (Nat.zero_le _) inside
    refine ⟨after, ran, ?_, fun offset => ?_⟩
    · rw [moved.size, CopySpan.movedTo, CopySpan.writeStop]
      simp only [ite_self]
    · rw [moved.bytes, CopySpan.movedFrom, CopySpan.movedTo, CopySpan.writeStop]
      simp only [ite_self, Nat.sub_self, Nat.add_zero]

end Rebuild

end BlockDelta
