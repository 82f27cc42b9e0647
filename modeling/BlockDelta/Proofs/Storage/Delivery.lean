import BlockDelta.Storage.Reader
import Mathlib

/-!
# What a reader delivers

A reader ends, or fails, behind some bytes, whatever pieces it delivers them in
and however often it asks to repeat a read. A fill takes the next of these
bytes, and fewer than were asked for only at the end.
-/

namespace BlockDelta.Reader

/-- The bytes that a reader delivers before it ends or fails. -/
def delivered : Reader → Bytes
  | [] => []
  | .interrupted :: rest => delivered rest
  | .failed _ :: _ => []
  | .data [] :: _ => []
  | .data (byte :: bytes) :: rest => byte :: bytes ++ delivered rest

/-- The failure of a reader that fails before it ends. -/
def fault? : Reader → Option Fault
  | [] => none
  | .interrupted :: rest => fault? rest
  | .failed fault :: _ => some fault
  | .data [] :: _ => none
  | .data (_ :: _) :: rest => fault? rest

/-- A fill takes the next bytes of those that are delivered and leaves the reader to end as it would
have; if they are fewer than were needed, the reader ends, and no more are delivered. -/
theorem exists_of_fillInto {gathered filled : Bytes} {need : Nat} {reader rest : Reader}
    (done : fillInto gathered need reader = .ok (filled, rest)) :
    ∃ piece, filled = gathered.reverse ++ piece ∧
      ((piece.length = need ∧ reader.delivered = piece ++ rest.delivered ∧
          reader.fault? = rest.fault?) ∨
        (piece.length < need ∧ reader.delivered = piece ∧ reader.fault? = none)) := by
  fun_induction fillInto gathered need reader with
  | case1 gathered reader =>
    cases done
    exact ⟨[], (List.append_nil _).symm, .inl ⟨rfl, rfl, rfl⟩⟩
  | case2 gathered need =>
    cases done
    exact ⟨[], (List.append_nil _).symm, .inr ⟨Nat.succ_pos _, rfl, rfl⟩⟩
  | case3 gathered need events ih => exact ih done
  | case4 => cases done
  | case5 gathered need events =>
    cases done
    exact ⟨[], (List.append_nil _).symm, .inr ⟨Nat.succ_pos _, rfl, rfl⟩⟩
  | case6 gathered need byte bytes events short ih =>
    -- the piece is too short, or just long enough, and the next ones go on from it
    obtain ⟨piece, rfl, shared⟩ := ih done
    refine ⟨byte :: bytes ++ piece, by simp, ?_⟩
    rcases shared with ⟨full, more, same⟩ | ⟨few, last, ends⟩
    · refine .inl ⟨?_, by rw [delivered, more, List.append_assoc], same⟩
      rw [List.length_append, List.length_cons, full]
      omega
    · refine .inr ⟨?_, by rw [delivered, last], ends⟩
      rw [List.length_append, List.length_cons]
      omega
  | case7 gathered need byte bytes events long =>
    cases done
    have left : ∃ next others, (byte :: bytes).drop (need + 1) = next :: others := by
      refine List.exists_cons_of_length_pos ?_
      rw [List.length_drop, List.length_cons]
      omega
    obtain ⟨next, others, split⟩ := left
    refine ⟨(byte :: bytes).take (need + 1), rfl, .inl ⟨?_, ?_, ?_⟩⟩
    · rw [List.length_take, List.length_cons]
      omega
    · rw [split, delivered, delivered, ← split, ← List.append_assoc, List.take_append_drop]
    · rw [split, fault?, fault?]

/-- A full fill takes the next bytes and leaves the reader to end as it would have; a short one
takes the last bytes of a reader that ends. -/
theorem split_of_fill {filled : Bytes} {need : Nat} {reader rest : Reader}
    (done : fill need reader = .ok (filled, rest)) :
    (filled.length = need ∧ reader.delivered = filled ++ rest.delivered ∧
        reader.fault? = rest.fault?) ∨
      (filled.length < need ∧ reader.delivered = filled ∧ reader.fault? = none) := by
  obtain ⟨piece, rfl, shared⟩ := exists_of_fillInto done
  exact shared

/-- A fill fails as the reader does, and only when the bytes in front are fewer than it needs. -/
theorem short_of_fillInto_eq_error {gathered : Bytes} {need : Nat} {reader : Reader}
    {fault : Fault} (failed : fillInto gathered need reader = .error fault) :
    reader.delivered.length < need ∧ reader.fault? = some fault := by
  fun_induction fillInto gathered need reader with
  | case1 => cases failed
  | case2 => cases failed
  | case3 gathered need events ih => exact ih failed
  | case4 gathered need fault events =>
    cases failed
    exact ⟨Nat.succ_pos _, rfl⟩
  | case5 => cases failed
  | case6 gathered need byte bytes events short ih =>
    obtain ⟨few, same⟩ := ih failed
    refine ⟨?_, same⟩
    rw [delivered, List.length_append, List.length_cons]
    omega
  | case7 => cases failed

end BlockDelta.Reader
