import BlockDelta.Proofs.Rebuild.Fresh
import BlockDelta.Proofs.Rebuild.Moving
import BlockDelta.Proofs.Schedule.Order

/-!
# Placing pieces in a file

Moves and writes both put pieces into a file at their offsets and leave
everything else alone. Pieces that share no byte can be placed one group after
another, and the order of the groups does not show. When the pieces of all
deltas of a plan have been placed, cutting the file to the length of the
target leaves the target.
-/

namespace BlockDelta.Rebuild

open Content

/-- Two pieces, each with its offset, share no byte of a file. -/
def Apart (left right : Nat × ByteArray) : Prop :=
  left.1 + left.2.size ≤ right.1 ∨ right.1 + right.2.size ≤ left.1

/-- Sharing no byte does not depend on which piece is named first. -/
theorem Apart.symm {left right : Nat × ByteArray} (apart : Apart left right) : Apart right left :=
  Or.symm apart

/-- An offset lies in a piece. -/
def Covers (piece : Nat × ByteArray) (offset : Nat) : Prop :=
  piece.1 ≤ offset ∧ offset < piece.1 + piece.2.size

/-- Pieces have been put into a file, and nothing else has changed. -/
structure Placed (before : ByteArray) (pieces : List (Nat × ByteArray)) (after : ByteArray) :
    Prop where
  /-- The file has not become shorter. -/
  size : before.size ≤ after.size
  /-- The bytes of each piece stand behind its offset. -/
  inside : ∀ piece ∈ pieces, ∀ place < piece.2.size,
    byteAt after (piece.1 + place) = byteAt piece.2 place
  /-- All other bytes are as before. -/
  outside : ∀ offset, (∀ piece ∈ pieces, ¬Covers piece offset) →
    byteAt after offset = byteAt before offset

namespace Placed

variable {before between after : ByteArray} {pieces others : List (Nat × ByteArray)}

/-- Nothing has to be done to place nothing. -/
theorem nil (content : ByteArray) : Placed content [] content where
  size := Nat.le_refl _
  inside := by simp
  outside _ _ := rfl

/-- Writing a piece places it. -/
theorem write (content : ByteArray) (offset : Nat) (piece : ByteArray) :
    Placed content [(offset, piece)] (Content.write content offset piece) where
  size := size_le_write content piece offset
  inside := by
    intro written among place inside
    rw [List.mem_singleton.1 among] at inside ⊢
    rw [byteAt_write, if_pos (by simp only at inside ⊢; omega)]
    congr 1
    omega
  outside := by
    intro other elsewhere
    rw [byteAt_write]
    exact if_neg (elsewhere (offset, piece) (List.mem_singleton.2 rfl))

/-- Pieces that share no byte with those placed before leave them in place. -/
theorem append (first : Placed before pieces between) (second : Placed between others after)
    (apart : ∀ piece ∈ pieces, ∀ other ∈ others, Apart piece other) :
    Placed before (pieces ++ others) after where
  size := Nat.le_trans first.size second.size
  inside := by
    intro piece among place inside
    rcases List.mem_append.1 among with earlier | later
    · rw [second.outside, first.inside piece earlier place inside]
      intro other later covers
      have disjoint := apart piece earlier other later
      unfold Apart at disjoint
      unfold Covers at covers
      omega
    · exact second.inside piece later place inside
  outside := by
    intro offset elsewhere
    rw [second.outside offset fun piece among => elsewhere piece (List.mem_append_right _ among),
      first.outside offset fun piece among => elsewhere piece (List.mem_append_left _ among)]

/-- Pieces may be listed in any order. -/
theorem perm (placed : Placed before pieces after) (same : pieces.Perm others) :
    Placed before others after where
  size := placed.size
  inside piece among := placed.inside piece (same.mem_iff.2 among)
  outside offset elsewhere :=
    placed.outside offset fun piece among => elsewhere piece (same.mem_iff.1 among)

end Placed

/-- Pieces are written one after the other. -/
theorem writeEach_eq (pieces : List (Nat × ByteArray)) (content : ByteArray) :
    writeEach pieces content =
      .ok () (pieces.foldl (fun content piece => write content piece.1 piece.2) content) := by
  induction pieces generalizing content with
  | nil => rfl
  | cons piece rest ih =>
    obtain ⟨offset, bytes⟩ := piece
    have written : writeSpan offset bytes content = .ok () (write content offset bytes) := rfl
    rw [writeEach, bind_of_ok written, ih]
    rfl

/-- Pieces that share no byte are placed by writing them. -/
theorem placed_foldl {pieces : List (Nat × ByteArray)} (apart : pieces.Pairwise Apart)
    (content : ByteArray) :
    Placed content pieces
      (pieces.foldl (fun content piece => write content piece.1 piece.2) content) := by
  induction pieces generalizing content with
  | nil => exact .nil content
  | cons piece rest ih =>
    obtain ⟨first, others⟩ := List.pairwise_cons.1 apart
    refine (Placed.write content piece.1 piece.2).append (ih others _) fun placed among => ?_
    rw [List.mem_singleton.1 among]
    exact first

/-- What a copy within a file puts where. -/
def spanPiece (content : ByteArray) (span : CopySpan) : Nat × ByteArray :=
  (span.target, content.extract span.source (span.source + span.length))

/-- A copy within a file places its source. -/
theorem moveWithin_placed (buffer : Buffer) {content : ByteArray} {span : CopySpan}
    (inside : span.source + span.length ≤ content.size) :
    ∃ after, moveWithin buffer span content = .ok () after ∧
      Placed content [spanPiece content span] after := by
  obtain ⟨after, ran, size, bytes⟩ := moveWithin_eq_ok buffer inside
  have cut : (spanPiece content span).2.size = span.length := size_extract_span inside
  refine ⟨after, ran, ?_, fun piece among place within => ?_, fun offset elsewhere => ?_⟩
  · rw [size]
    split <;> omega
  · rw [List.mem_singleton.1 among] at within ⊢
    rw [cut] at within
    rw [bytes, spanPiece, CopySpan.writeStop, if_pos (by omega),
      byteAt_extract (by omega)]
    congr 1
    omega
  · have missed := elsewhere (spanPiece content span) (List.mem_singleton.2 rfl)
    unfold Covers at missed
    rw [cut] at missed
    rw [bytes]
    exact if_neg missed

/-- A copy that overwrites nothing that another one reads does not change what that one places. -/
theorem spanPiece_eq_of_placed {before after : ByteArray} {writer reader : CopySpan}
    (placed : Placed before [spanPiece before writer] after)
    (fits : writer.source + writer.length ≤ before.size)
    (inside : reader.source + reader.length ≤ before.size)
    (safe : writer.overwrites reader = false) :
    spanPiece after reader = spanPiece before reader := by
  have reach := placed.size
  have cut : (spanPiece before writer).2.size = writer.length := size_extract_span fits
  refine Prod.ext rfl (ext_byteAt ?_ fun offset within => ?_)
  · exact (size_extract_span (by omega)).trans (size_extract_span inside).symm
  · rw [spanPiece, size_extract_span (by omega)] at within
    rw [spanPiece, byteAt_extract (by omega), spanPiece, byteAt_extract (by omega)]
    refine placed.outside _ fun piece among covers => ?_
    rw [List.mem_singleton.1 among, Covers, cut] at covers
    have destroyed : writer.overwrites reader = true := by
      rw [CopySpan.overwrites_iff, CopySpan.readStop, CopySpan.writeStop]
      exact ⟨Nat.lt_of_le_of_lt covers.1 (by omega), Nat.lt_of_le_of_lt (by omega) covers.2⟩
    rw [destroyed] at safe
    cases safe

/-- Copies of which none destroys what a later one reads all place what their sources held at the
beginning. -/
theorem moveEach_placed (buffer : Buffer) {content : ByteArray} {spans : List CopySpan}
    (inside : ∀ span ∈ spans, span.source + span.length ≤ content.size)
    (safe : spans.Pairwise fun earlier later => earlier.overwrites later = false)
    (apart : (spans.map (spanPiece content)).Pairwise Apart) :
    ∃ after, moveEach buffer spans content = .ok () after ∧
      Placed content (spans.map (spanPiece content)) after := by
  induction spans generalizing content with
  | nil => exact ⟨content, rfl, .nil content⟩
  | cons span rest ih =>
    obtain ⟨fits, others⟩ := List.forall_mem_cons.1 inside
    obtain ⟨harmless, safe⟩ := List.pairwise_cons.1 safe
    obtain ⟨away, apart⟩ := List.pairwise_cons.1 apart
    obtain ⟨between, moved, placed⟩ := moveWithin_placed buffer fits
    have same : rest.map (spanPiece between) = rest.map (spanPiece content) :=
      List.map_congr_left fun reader later =>
        spanPiece_eq_of_placed placed fits (others reader later) (harmless reader later)
    rw [← same] at apart
    obtain ⟨after, ran, complete⟩ := ih
      (fun reader later => Nat.le_trans (others reader later) placed.size) safe apart
    rw [same] at complete
    refine ⟨after, ?_, placed.append complete fun piece among => ?_⟩
    · rw [moveEach, bind_of_ok moved, ran]
    · rw [List.mem_singleton.1 among]
      exact away

/-- The sources of copies are kept as the file holds them. -/
theorem keepEach_eq {content : ByteArray} {spans : List CopySpan}
    (inside : ∀ span ∈ spans, span.source + span.length ≤ content.size) :
    keepEach spans content = .ok (spans.map (spanPiece content)) content := by
  induction spans with
  | nil => rfl
  | cons span rest ih =>
    obtain ⟨fits, others⟩ := List.forall_mem_cons.1 inside
    have read : readSpan span.source span.length content =
        .ok (content.extract span.source (span.source + span.length)) content := by
      simp only [readSpan, read_eq_ok fits]
    rw [keepEach, bind_of_ok read, bind_of_ok (ih others)]
    rfl

end BlockDelta.Rebuild
