import BlockDelta.Proofs.Delta.Partition
import BlockDelta.Proofs.Rebuild.Inside
import BlockDelta.Proofs.Storage.Offered

/-!
# A rebuild into a sink that fills up

Where there is no room for all of a target, the rebuild stops in the delta that
crosses the limit, perhaps amid a piece of a copy, and has written the target
up to there.
-/

namespace BlockDelta.Rebuild

/-- A piece that is too much is written as far as there is room. -/
theorem emit_of_full (position : Nat) (lastStop : Option Nat) {sink : Sink} {piece : Bytes}
    (full : ¬sink.HasRoom piece.length) :
    emit piece ⟨position, lastStop, sink⟩ =
      .error .sinkFull ⟨position, lastStop, sink.offered piece⟩ := by
  simp only [emit, Sink.write_eq_offer, Sink.offer_of_full full]

/-- A copy that is too much is written as far as there is room, whatever the size of the buffer. -/
theorem copyNext_of_full (buffer : Buffer) {basis : ByteArray} {position remaining : Nat}
    (lastStop : Option Nat) {sink : Sink} (full : ¬sink.HasRoom remaining)
    (inside : position + remaining ≤ basis.size) :
    ∃ torn : Progress,
      torn.sink = sink.offered (Bytes.ofArray (basis.extract position (position + remaining))) ∧
      copyNext buffer (.ofContent basis) remaining ⟨position, lastStop, sink⟩ =
        .error .sinkFull torn := by
  induction remaining using Nat.strongRecOn generalizing position sink with
  | ind remaining ih =>
    have positive := buffer.positive
    have something : remaining ≠ 0 := by
      rintro rfl
      exact full fun _ _ => Nat.zero_le _
    let count := min remaining buffer.size
    have most : count ≤ remaining := Nat.min_le_left ..
    let piece := basis.extract position (position + count)
    have size : (Bytes.ofArray piece).length = count := Content.size_extract_span (by omega)
    have read : readNext (.ofContent basis) count ⟨position, lastStop, sink⟩ =
        .ok piece ⟨position + count, lastStop, sink⟩ := by
      simp only [readNext, Basis.ofContent,
        Content.read_eq_ok (show position + count ≤ basis.size by omega)]
      rfl
    have joined : Bytes.ofArray (basis.extract position (position + remaining)) =
        Bytes.ofArray piece ++
          Bytes.ofArray (basis.extract (position + count) (position + remaining)) := by
      rw [ByteArray.extract_eq_extract_append_extract (position + count) (by omega) (by omega)]
      exact Bytes.ofArray_append ..
    unfold copyNext
    rw [if_neg something, bind_of_ok read, joined]
    by_cases room : sink.HasRoom count
    · -- the piece is written, and what is left of the copy is too much
      have fits : sink.HasRoom (Bytes.ofArray piece).length := size.symm ▸ room
      have written : emit (Bytes.ofArray piece) ⟨position + count, lastStop, sink⟩ =
          .ok () ⟨position + count, lastStop, sink.offered (Bytes.ofArray piece)⟩ := by
        rw [emit_eq _ _ fits, Sink.offered_of_hasRoom fits]
      have rest : ¬(sink.offered (Bytes.ofArray piece)).HasRoom (remaining - count) := by
        intro enough
        have whole := Sink.hasRoom_add.2 ⟨fits, enough⟩
        rw [size, Nat.add_sub_cancel' most] at whole
        exact full whole
      obtain ⟨torn, taken, failed⟩ := ih (remaining - count) (by omega) rest
        (show position + count + (remaining - count) ≤ basis.size by omega)
      rw [show position + count + (remaining - count) = position + remaining by omega,
        Sink.offered_offered] at taken
      exact ⟨torn, taken, by rw [bind_of_ok written]; exact failed⟩
    · -- the piece itself is too much
      have cut : ¬sink.HasRoom (Bytes.ofArray piece).length := size.symm ▸ room
      have failed := emit_of_full (position + count) lastStop cut
      refine ⟨⟨position + count, lastStop, sink.offered (Bytes.ofArray piece)⟩, ?_, ?_⟩
      · rw [Sink.offered_of_full cut]
      · rw [bind_of_error failed]

/-- A delta that is too much is written as far as there is room. -/
theorem emitDelta_of_full (buffer : Buffer) {basis : ByteArray} {delta : Delta}
    {progress : Progress} (fits : delta.Fits basis.size)
    (full : ¬progress.sink.HasRoom delta.length) (placed : progress.Placed) :
    ∃ torn : Progress, torn.sink = progress.sink.offered (delta.pieceBytes basis) ∧
      emitDelta buffer (.ofContent basis) delta progress = .error .sinkFull torn := by
  cases delta with
  | literal offset data =>
    exact ⟨{ progress with sink := progress.sink.offered data }, rfl, emit_of_full _ _ full⟩
  | copy source offset length =>
    have long : ¬progress.sink.HasRoom length.toNat := full
    obtain ⟨torn, taken, failed⟩ := copyNext_of_full buffer progress.lastStop long fits
    refine ⟨torn, taken, ?_⟩
    simp only [emitDelta]
    rw [bind_of_ok (seek_eq source.toNat placed), bind_of_error failed]

/-- Deltas that are too much are written as far as there is room. -/
theorem emitDeltas_of_full (buffer : Buffer) {basis : ByteArray} {deltas : List Delta}
    (progress : Progress) (fits : ∀ delta ∈ deltas, delta.Fits basis.size)
    (full : ¬progress.sink.HasRoom (deltas.flatMap (Delta.pieceBytes basis)).length)
    (placed : progress.Placed) :
    ∃ torn : Progress,
      torn.sink = progress.sink.offered (deltas.flatMap (Delta.pieceBytes basis)) ∧
      emitDeltas buffer (.ofContent basis) deltas progress = .error .sinkFull torn := by
  induction deltas generalizing progress with
  | nil => exact absurd (fun _ _ => Nat.zero_le _) full
  | cons delta rest ih =>
    obtain ⟨first, others⟩ := List.forall_mem_cons.1 fits
    have length := Delta.length_pieceBytes first
    rw [List.flatMap_cons] at full ⊢
    unfold emitDeltas
    by_cases room : progress.sink.HasRoom delta.length
    · obtain ⟨middle, onwards, accepted, ran⟩ := emitDelta_eq buffer first room placed
      have taken : middle.sink = progress.sink.offered (delta.pieceBytes basis) := by
        rw [accepted, Sink.offered_of_hasRoom (length.symm ▸ room)]
        rfl
      have left : ¬middle.sink.HasRoom (rest.flatMap (Delta.pieceBytes basis)).length := by
        intro enough
        rw [taken] at enough
        rw [List.length_append] at full
        exact full (Sink.hasRoom_add.2 ⟨length.symm ▸ room, enough⟩)
      obtain ⟨torn, further, failed⟩ := ih middle others left onwards
      refine ⟨torn, ?_, by rw [bind_of_ok ran, failed]⟩
      rw [further, taken, Sink.offered_offered]
    · obtain ⟨torn, taken, failed⟩ := emitDelta_of_full buffer first room placed
      refine ⟨torn, ?_, by rw [bind_of_error failed]⟩
      rw [taken, Sink.offered_of_full (length.symm ▸ room)]

variable {deltas : List Delta} {plan : Plan} {basis : Basis} {content : ByteArray}

/-- A plan whose copies are in range writes its target as far as there is room for it, from any
basis that delivers its content, and fails when there is not enough. -/
theorem toSink_of_full (buffer : Buffer) {sink : Sink} (planned : Plan.ofDeltas deltas = .ok plan)
    (covered : ∀ delta ∈ plan.deltas, delta.Fits content.size)
    (delivers : (Basis.ofContent content).Agrees basis)
    (full : ¬sink.HasRoom (plan.deltas.flatMap (Delta.pieceBytes content)).length) :
    toSink buffer basis deltas sink = .error (.io .sinkFull)
      (sink.offered (plan.deltas.flatMap (Delta.pieceBytes content))) := by
  obtain ⟨torn, taken, failed⟩ :=
    emitDeltas_of_full buffer ⟨content.size, none, sink⟩ covered full nofun
  have checked : plan.checkCopies (Basis.ofContent content).size = .ok () :=
    Plan.checkCopiesOf_eq_ok_iff.2 covered
  have size : (Basis.ofContent content).size = content.size := rfl
  rw [toSink_congr delivers buffer planned covered sink]
  simp only [toSink, planned, bind, Except.bind, pure, Except.pure, checked]
  rw [size, failed]
  simp only [taken]

/-- The target that tiling deltas with all copies in range describe is written honestly into a sink
that fills up. -/
theorem honest_toSink (buffer : Buffer) (planned : Plan.ofDeltas deltas = .ok plan)
    (covered : ∀ delta ∈ plan.deltas, delta.Fits content.size)
    (delivers : (Basis.ofContent content).Agrees basis) :
    Sink.Honest (Sink.attempt (toSink buffer basis deltas))
      (plan.deltas.flatMap (Delta.pieceBytes content)) := by
  have tiles := (Plan.ofDeltas_eq_ok planned).2
  have length : (plan.deltas.flatMap (Delta.pieceBytes content)).length = plan.targetLength :=
    Plan.size_target tiles covered
  have checked : plan.checkCopies (Basis.ofContent content).size = .ok () :=
    Plan.checkCopiesOf_eq_ok_iff.2 covered
  refine Sink.honest_attempt (fun sink room => ⟨plan.report, ?_⟩) fun sink full =>
    ⟨_, toSink_of_full buffer planned covered delivers full⟩
  rw [toSink_congr delivers buffer planned covered sink,
    toSink_eq_ok buffer planned checked (length ▸ room), Sink.offered_of_hasRoom room]
  rfl

end BlockDelta.Rebuild
