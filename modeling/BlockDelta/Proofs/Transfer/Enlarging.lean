import BlockDelta.Proofs.Rebuild.Fresh
import BlockDelta.Proofs.Transfer.Described

/-!
# Success is the same where there is more room

What is written to a sink depends on its limit only where that is met. So a
signature, a target that is rebuilt and a target that is described come out
the same, whenever they come out, as in a sink without a limit.
-/

namespace BlockDelta

/-- What an action does where it succeeds it does in an enlarged state too. -/
structure Enlarges {Cause State α : Type} (enlarge : State → State)
    (action : EStateM Cause State α) : Prop where
  /-- Its success is the same. -/
  onward : ∀ state value after, action state = .ok value after →
    action (enlarge state) = .ok value (enlarge after)

section

variable {Cause State α β : Type} {enlarge : State → State}

/-- Nothing is done in an enlarged state either. -/
theorem Enlarges.pure (value : α) :
    Enlarges enlarge (pure value : EStateM Cause State α) := by
  constructor
  rintro state _ _ ⟨⟩
  rfl

/-- Actions in order. -/
theorem Enlarges.bind {first : EStateM Cause State α} {next : α → EStateM Cause State β}
    (head : Enlarges enlarge first) (tail : ∀ value, Enlarges enlarge (next value)) :
    Enlarges enlarge (first >>= next) := by
  refine ⟨fun state value after done => ?_⟩
  obtain ⟨middle, between, began, ended⟩ := exists_of_run_eq_ok done
  rw [bind_of_ok (head.onward _ _ _ began)]
  exact (tail middle).onward _ _ _ ended

end

namespace Sink

/-- A sink with what it has accepted, and with room for anything. -/
def enlarge (sink : Sink) : Sink := { sink with room := none }

/-- There is room for anything. -/
theorem hasRoom_enlarge (sink : Sink) (count : Nat) : sink.enlarge.HasRoom count := by
  rintro room ⟨⟩

/-- What is offered to a sink with room for it is accepted by one with more. -/
theorem offer_enlarges (bytes : Bytes) : Enlarges enlarge (offer bytes) := by
  refine ⟨fun sink value after done => ?_⟩
  by_cases room : sink.HasRoom bytes.length
  · rw [offer_of_hasRoom room] at done
    cases done
    rw [offer_of_hasRoom (hasRoom_enlarge sink _), offered_of_hasRoom room]
    rfl
  · rw [offer_of_full room] at done
    cases done

end Sink

/-- A signature that can be written is written where there is more room. -/
theorem Signature.write_enlarges (signature : Signature) :
    Enlarges Sink.enlarge signature.write := by
  by_cases seeded : signature.spec.seed.length ≤ Signature.longestSeed
  · rw [Signature.write_eq_offer seeded]
    exact Sink.offer_enlarges _
  · refine ⟨fun sink value after done => ?_⟩
    rw [Signature.write_of_long (Nat.lt_of_not_le seeded)] at done
    cases done

namespace Rebuild

/-- A rebuild as far as it has come, with room for anything. -/
def Progress.enlarge (progress : Progress) : Progress :=
  { progress with sink := progress.sink.enlarge }

/-- What can be written is written where there is more room. -/
theorem emit_enlarges (piece : Bytes) : Enlarges Progress.enlarge (emit piece) := by
  refine ⟨fun progress value after done => ?_⟩
  unfold emit at done ⊢
  rw [Sink.write_eq_offer] at done ⊢
  cases written : Sink.offer piece progress.sink with
  | error fault sink =>
    rw [written] at done
    cases done
  | ok _ sink =>
    rw [written] at done
    cases done
    simp only [Progress.enlarge, (Sink.offer_enlarges piece).onward _ _ _ written]

/-- What can be read is read wherever it is written to. -/
theorem readNext_enlarges (basis : Basis) (count : Nat) :
    Enlarges Progress.enlarge (readNext basis count) := by
  refine ⟨fun progress value after done => ?_⟩
  unfold readNext at done ⊢
  simp only [Progress.enlarge]
  cases read : basis.read progress.position count with
  | error fault =>
    rw [read] at done
    cases done
  | ok piece =>
    rw [read] at done
    cases done
    rfl

/-- A copy that can be written is written where there is more room. -/
theorem copyNext_enlarges (buffer : Buffer) (basis : Basis) (remaining : Nat) :
    Enlarges Progress.enlarge (copyNext buffer basis remaining) := by
  induction remaining using Nat.strongRecOn with
  | ind remaining ih =>
    have positive := buffer.positive
    unfold copyNext
    by_cases nothing : remaining = 0
    · rw [if_pos nothing]
      exact .pure ()
    · rw [if_neg nothing]
      exact (readNext_enlarges ..).bind fun piece => (emit_enlarges _).bind fun _ =>
        ih _ (by omega)

/-- The basis is read from an offset next, wherever it is written to. -/
theorem seek_enlarges (offset : Nat) : Enlarges Progress.enlarge (seek offset) := by
  refine ⟨fun progress _ after done => ?_⟩
  have moved : after = if progress.lastStop = some offset then progress
      else { progress with position := offset } := by
    cases done
    rfl
  change EStateM.Result.ok () (if progress.lastStop = some offset then progress.enlarge
    else { progress.enlarge with position := offset }) = _
  rw [moved]
  split_ifs <;> rfl

/-- A delta that can be written is written where there is more room. -/
theorem emitDelta_enlarges (buffer : Buffer) (basis : Basis) (delta : Delta) :
    Enlarges Progress.enlarge (emitDelta buffer basis delta) := by
  cases delta with
  | literal offset data => exact emit_enlarges data
  | copy source offset length =>
    refine (seek_enlarges _).bind fun _ => (copyNext_enlarges ..).bind fun _ => ⟨?_⟩
    rintro progress _ _ ⟨⟩
    rfl

/-- Deltas that can be written are written where there is more room. -/
theorem emitDeltas_enlarges (buffer : Buffer) (basis : Basis) (deltas : List Delta) :
    Enlarges Progress.enlarge (emitDeltas buffer basis deltas) := by
  induction deltas with
  | nil => exact .pure ()
  | cons delta rest ih => exact (emitDelta_enlarges ..).bind fun _ => ih

/-- A target that can be written is written where there is more room. -/
theorem toSink_enlarges (buffer : Buffer) (basis : Basis) (deltas : List Delta) :
    Enlarges Sink.enlarge (toSink buffer basis deltas) := by
  refine ⟨fun sink report after done => ?_⟩
  obtain ⟨plan, ended, planned, checked, ran, reported, rfl⟩ := toSink_eq_ok_iff.1 done
  exact toSink_eq_ok_iff.2 ⟨plan, ended.enlarge, planned, checked,
    (emitDeltas_enlarges ..).onward _ _ _ ran, reported, rfl⟩

end Rebuild

/-- A target that can be described is described where there is more room. -/
theorem Transfer.describeTarget_enlarges (signature : Signature) (options : MatchOptions)
    (reader : Reader) :
    Enlarges Sink.enlarge (describeTarget (.ofSignature signature) options
      (do let _ ← Session.consume reader)) := by
  refine ⟨fun sink summary after done => ?_⟩
  obtain ⟨sound, encodable, room⟩ := of_describeTarget_eq_ok done
  rw [describeTarget_eq_ok sound encodable room] at done
  cases done
  rw [describeTarget_eq_ok sound encodable (Sink.hasRoom_enlarge sink _),
    Sink.offered_of_hasRoom room]
  rfl

end BlockDelta
