import BlockDelta.Bytes
import Mathlib

/-!
# Pieces of a byte string

Cutting a byte string into pieces of a size loses nothing, a short string is one
piece, and what lies behind whole pieces is cut on its own. A span is what
stands at a place of a byte string.
-/

namespace BlockDelta.Bytes

/-- Nothing has no pieces. -/
@[simp] theorem chunks_nil (size : Nat) (positive : 0 < size) : chunks size positive [] = [] := by
  simp [chunks, chunksInto]

/-- What holds of nothing, and of a byte string when it holds behind its first piece, holds of every
byte string. -/
@[elab_as_elim] theorem dropInduction {motive : Bytes → Prop} (size : Nat) (positive : 0 < size)
    (nil : motive [])
    (cons : ∀ byte rest, motive ((byte :: rest).drop size) → motive (byte :: rest))
    (bytes : Bytes) : motive bytes := by
  induction count : bytes.length using Nat.strongRecOn generalizing bytes with
  | ind _ ih =>
    cases bytes with
    | nil => exact nil
    | cons byte rest =>
      have shorter : ((byte :: rest).drop size).length < (byte :: rest).length := by
        simp only [List.length_drop, List.length_cons]
        omega
      exact cons byte rest (ih _ (count ▸ shorter) _ rfl)

/-- A short string is not cut. -/
theorem chunks_of_short (size : Nat) (positive : 0 < size) {bytes : Bytes}
    (short : bytes.length ≤ size) (filled : bytes ≠ []) :
    chunks size positive bytes = [bytes] := by
  cases bytes with
  | nil => exact absurd rfl filled
  | cons byte rest =>
    rw [chunks_cons, List.take_of_length_le short, List.drop_of_length_le short, chunks_nil]

/-- What lies behind whole pieces is cut on its own. -/
theorem chunks_append (size : Nat) (positive : 0 < size) (count : Nat) (front back : Bytes)
    (whole : front.length = count * size) :
    chunks size positive (front ++ back) =
      chunks size positive front ++ chunks size positive back := by
  induction count generalizing front with
  | zero =>
    obtain rfl : front = [] := List.length_eq_zero_iff.mp (by omega)
    simp
  | succ count ih =>
    rw [Nat.succ_mul] at whole
    cases front with
    | nil =>
      simp only [List.length_nil] at whole
      omega
    | cons byte rest =>
      have shorter : ((byte :: rest).drop size).length = count * size := by
        rw [List.length_drop]
        omega
      rw [List.cons_append, chunks_cons, chunks_cons, ← List.cons_append,
        List.take_append_of_le_length (by omega), List.drop_append_of_le_length (by omega),
        ih _ shorter, List.cons_append]

/-- The pieces of a byte string make it up. -/
theorem flatten_chunks (size : Nat) (positive : 0 < size) (bytes : Bytes) :
    (chunks size positive bytes).flatten = bytes := by
  induction bytes using dropInduction size positive with
  | nil => simp
  | cons byte rest ih => rw [chunks_cons, List.flatten_cons, ih, List.take_append_drop]

/-- Every piece that is cut holds something, and no more than its size. -/
theorem mem_chunks {size : Nat} {positive : 0 < size} {bytes piece : Bytes}
    (cut : piece ∈ chunks size positive bytes) : piece ≠ [] ∧ piece.length ≤ size := by
  induction bytes using dropInduction size positive with
  | nil => simp at cut
  | cons byte rest ih =>
    rw [chunks_cons] at cut
    rcases List.mem_cons.1 cut with rfl | later
    · refine ⟨?_, List.length_take_le ..⟩
      simp only [ne_eq, List.take_eq_nil_iff, List.cons_ne_nil, or_false]
      exact Nat.ne_of_gt positive
    · exact ih later

/-- So many bytes from an offset. -/
def span (bytes : Bytes) (offset length : Nat) : Bytes := (bytes.drop offset).take length

/-- A span that stands behind other bytes. -/
theorem span_append (front middle back : Bytes) :
    span (front ++ (middle ++ back)) front.length middle.length = middle := by
  rw [span, List.drop_left, List.take_left]

/-- A span inside a byte string has its length. -/
theorem length_span {bytes : Bytes} {offset length : Nat}
    (inside : offset + length ≤ bytes.length) :
    (span bytes offset length).length = length := by
  rw [span, List.length_take, List.length_drop]
  omega

/-- A span stands somewhere in the bytes. -/
theorem span_infix (bytes : Bytes) (offset length : Nat) : span bytes offset length <:+: bytes :=
  (List.take_prefix ..).isInfix.trans (List.drop_suffix ..).isInfix

/-- Two spans one behind the other are one. -/
theorem span_append_span (bytes : Bytes) (offset first second : Nat) :
    span bytes offset first ++ span bytes (offset + first) second =
      span bytes offset (first + second) := by
  rw [span, span, span, List.take_add, List.drop_drop]

end BlockDelta.Bytes
