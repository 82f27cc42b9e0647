import BlockDelta.Proofs.Rebuild.Moving
import BlockDelta.Proofs.Rebuild.Pointwise
import BlockDelta.Proofs.Strict.InPlace

/-!
# A copy in pieces is a copy at once

A copy could read its whole source into memory before it writes anything. One
that moves pieces through a buffer, from the side that keeps the unread part of
its source intact, leaves the same file, however source and target overlap and
however large the buffer is. So what it leaves is said without pieces: the bytes
that the source held, and around them what was there before, with zero bytes
where the file had ended.
-/

namespace BlockDelta.Rebuild

open Content

/-- A copy within the file whose source is read as a whole before it is written. -/
def moveAtOnce (span : CopySpan) : Editing Unit := do
  let piece ← readSpan span.source span.length
  writeSpan span.target piece

variable {content after : ByteArray} {span : CopySpan}

/-- A copy onto itself or of nothing leaves the file as long as it was. -/
theorem size_of_idle (inside : span.source + span.length ≤ content.size)
    (idle : span.length = 0 ∨ span.source = span.target)
    (size : after.size = if span.length = 0 then content.size
      else max content.size span.writeStop) : after.size = content.size := by
  rw [size, CopySpan.writeStop]
  split <;> omega

/-- A copy at once writes the bytes of its source where its target is. -/
theorem moveAtOnce_eq_ok (inside : span.source + span.length ≤ content.size) :
    moveAtOnce span content =
      .ok () (write content span.target
        (content.extract span.source (span.source + span.length))) := by
  have done : readSpan span.source span.length content =
      .ok (content.extract span.source (span.source + span.length)) content := by
    simp only [readSpan, read_eq_ok inside]
  unfold moveAtOnce
  rw [bind_of_ok done]
  rfl

/-- A copy in pieces of any size leaves what a copy at once leaves. -/
theorem moveWithin_eq_moveAtOnce (buffer : Buffer)
    (inside : span.source + span.length ≤ content.size) :
    moveWithin buffer span content = moveAtOnce span content := by
  obtain ⟨after, ran, size, bytes⟩ := moveWithin_eq_ok buffer inside
  have cut : (content.extract span.source (span.source + span.length)).size = span.length :=
    size_extract_span inside
  rw [ran, moveAtOnce_eq_ok inside]
  congr 1
  refine ext_byteAt ?_ fun offset _ => ?_
  · rw [size]
    split
    · rename_i nothing
      rw [write, if_pos (cut.trans nothing)]
    · rw [size_write _ _ _ (by omega), cut]
      rfl
  · rw [bytes, byteAt_write, cut]
    unfold CopySpan.writeStop
    split
    · rw [byteAt_extract (by omega)]
    · rfl

/-- A copy within a file whose source lies in the file succeeds, with a buffer of any size. The
bytes of its target are then those that its source held, wherever the two overlap, and every other
byte of the file is as before. If the target starts behind the end there are zero bytes in between.
The file is as long as it was, or reaches to the end of the target; a copy of nothing or onto itself
leaves its length alone. The same file is left by a copy at once, and by a copy that checks its
places as words, as long as the file and the end of the target are words. -/
theorem moveWithin_memmove (buffer : Buffer) (content : ByteArray) (span : CopySpan)
    (inside : span.source + span.length ≤ content.size) :
    ∃ after, moveWithin buffer span content = .ok () after ∧
      after.size = (if span.length = 0 ∨ span.source = span.target then content.size
        else max content.size (span.target + span.length)) ∧
      (∀ place < span.length, (Bytes.ofArray after)[span.target + place]? =
        (Bytes.ofArray content)[span.source + place]?) ∧
      (∀ offset < content.size, ¬(span.target ≤ offset ∧ offset < span.target + span.length) →
        (Bytes.ofArray after)[offset]? = (Bytes.ofArray content)[offset]?) ∧
      (∀ offset < after.size, content.size ≤ offset → offset < span.target →
        (Bytes.ofArray after)[offset]? = some 0) ∧
      moveAtOnce span content = .ok () after ∧
      (content.size < UInt64.size → span.target + span.length < UInt64.size →
        Strict.moveWithin buffer span content = .ok () after) := by
  obtain ⟨after, ran, size, bytes⟩ := moveWithin_eq_ok buffer inside
  have kept : content.size ≤ after.size := by
    rw [size]
    split <;> omega
  have reached : span.length = 0 ∨ span.writeStop ≤ after.size := by
    rw [size]
    split <;> omega
  unfold CopySpan.writeStop at reached
  refine ⟨after, ran, ?size, fun place short => ?_, fun offset before outside => ?_,
    fun offset within behind front => ?_, ?atOnce, fun small addressed => ?_⟩
  case size =>
    split
    · rename_i idle
      exact size_of_idle inside idle size
    · rename_i moves
      rw [size, if_neg fun nothing => moves (.inl nothing)]
      rfl
  case atOnce => rw [← moveWithin_eq_moveAtOnce buffer inside, ran]
  · rw [getElem?_ofArray (by omega), getElem?_ofArray (by omega), bytes, CopySpan.writeStop,
      if_pos (by omega), Nat.add_sub_cancel_left]
  · rw [getElem?_ofArray (by omega), getElem?_ofArray before, bytes, CopySpan.writeStop,
      if_neg outside]
  · rw [getElem?_ofArray within, bytes, if_neg fun covered => Nat.not_le_of_lt front covered.1,
      byteAt_of_size_le behind]
  · have words : span.Addressed := ⟨Nat.lt_of_le_of_lt inside small, addressed⟩
    rw [Strict.moveWithin_eq buffer words, Strict.plainly_apply, ran]

/-- Five bytes move towards the end by two, through a buffer of three: source and target overlap
across a piece, and the file gets longer. -/
theorem moveWithin_memmove_overlapping :
    ∃ after, moveWithin ⟨3, by decide⟩ ⟨1, 3, 5⟩ ⟨#[0, 1, 2, 3, 4, 5]⟩ = .ok () after ∧
      after.size = 8 ∧
      (∀ place < 5, (Bytes.ofArray after)[3 + place]? =
        (Bytes.ofArray ⟨#[0, 1, 2, 3, 4, 5]⟩)[1 + place]?) ∧
      Strict.moveWithin ⟨3, by decide⟩ ⟨1, 3, 5⟩ ⟨#[0, 1, 2, 3, 4, 5]⟩ = .ok () after ∧
      after = ⟨#[0, 1, 2, 1, 2, 3, 4, 5]⟩ := by
  obtain ⟨after, ran, size, moved, -, -, atOnce, strict⟩ :=
    moveWithin_memmove ⟨3, by decide⟩ ⟨#[0, 1, 2, 3, 4, 5]⟩ ⟨1, 3, 5⟩ (by decide)
  refine ⟨after, ran, size, moved, strict (by decide) (by decide), ?_⟩
  rw [moveAtOnce_eq_ok (by decide)] at atOnce
  injection atOnce with _ written
  rw [← written]
  decide

end BlockDelta.Rebuild
