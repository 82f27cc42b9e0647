import BlockDelta.Proofs.Delta.Coalescing
import BlockDelta.Proofs.Delta.Tiling
import BlockDelta.Proofs.Running
import BlockDelta.Proofs.Storage.Bytewise
import BlockDelta.Proofs.Storage.Streams
import BlockDelta.Rebuild.Fresh

/-!
# What a plan describes, and that a fresh rebuild writes it

The target of a plan is the bytes of its deltas, one behind the other. A
rebuild into a sink with room for them writes exactly these, whatever the size
of the buffer: the position from which the basis is read is the start of the
copy whether or not a new position is taken.
-/

namespace BlockDelta

namespace Delta

/-- The bytes of a delta: its own, or a span of the basis. -/
def piece (basis : ByteArray) : Delta → ByteArray
  | .literal _ data => Bytes.toArray data
  | .copy source _ length => basis.extract source.toNat (source.toNat + length.toNat)

/-- A delta reads nothing behind the end of a basis. -/
def Fits (basisLength : Nat) : Delta → Prop
  | .literal _ _ => True
  | .copy source _ length => source.toNat + length.toNat ≤ basisLength

/-- A delta that reads inside the basis has as many bytes as it announces. -/
theorem size_piece {basis : ByteArray} {delta : Delta} (fits : delta.Fits basis.size) :
    (delta.piece basis).size = delta.length := by
  cases delta with
  | literal offset data => exact Content.size_toArray data
  | copy source offset length => exact Content.size_extract_span fits

/-- The bytes of a delta, set in motion. -/
def pieceBytes (basis : ByteArray) (delta : Delta) : Bytes := Bytes.ofArray (delta.piece basis)

/-- A delta that reads inside the basis has as many bytes as it announces. -/
theorem length_pieceBytes {basis : ByteArray} {delta : Delta} (fits : delta.Fits basis.size) :
    (delta.pieceBytes basis).length = delta.length := size_piece fits

end Delta

namespace Rebuild

namespace Plan

/-- The bytes that a plan describes over a basis. -/
def target (plan : Plan) (basis : ByteArray) : ByteArray :=
  Bytes.toArray (plan.deltas.flatMap (Delta.pieceBytes basis))

/-- The report of a plan counts what its literals carry and what its copies take. -/
theorem report_eq (plan : Plan) :
    plan.report =
      ⟨Delta.copyTotal plan.deltas, Delta.literalTotal plan.deltas, 0, plan.targetLength⟩ := by
  unfold report
  rw [List.partition_eq_filter_filter]
  rfl

/-- The copies of a plan are in range exactly when every delta reads inside the basis. -/
theorem checkCopiesOf_eq_ok_iff {basisLength : Nat} {deltas : List Delta} :
    checkCopiesOf basisLength deltas = .ok () ↔ ∀ delta ∈ deltas, delta.Fits basisLength := by
  induction deltas with
  | nil => simp [checkCopiesOf]
  | cons delta rest ih =>
    cases delta with
    | literal offset data => simp [checkCopiesOf, Delta.Fits, ih]
    | copy source offset length =>
      unfold checkCopiesOf
      by_cases outside : basisLength < source.toNat + length.toNat
      · rw [if_pos outside]
        refine ⟨nofun, fun all => ?_⟩
        exact absurd (all _ (List.mem_cons_self ..)) (Nat.not_le_of_lt outside)
      · rw [if_neg outside, ih, List.forall_mem_cons]
        exact ⟨fun others => ⟨Nat.le_of_not_lt outside, others⟩, fun all => all.2⟩

variable {plan : Plan} {basis : ByteArray}

/-- The target is as long as the plan says. -/
theorem size_target (tiles : Delta.Tiles 0 plan.deltas plan.targetLength)
    (fits : ∀ delta ∈ plan.deltas, delta.Fits basis.size) :
    (plan.target basis).size = plan.targetLength := by
  have length := tiles.length_flatMap fun delta among => Delta.length_pieceBytes (fits delta among)
  rw [Nat.zero_add] at length
  rw [target, Content.size_toArray, length]

/-- The bytes of each delta stand where it starts in the target. -/
theorem byteAt_target (tiles : Delta.Tiles 0 plan.deltas plan.targetLength)
    (fits : ∀ delta ∈ plan.deltas, delta.Fits basis.size) :
    ∀ delta ∈ plan.deltas, ∀ place < delta.length,
      Content.byteAt (plan.target basis) (delta.start + place) =
        Content.byteAt (delta.piece basis) place := by
  intro delta among place inside
  have lengths := fun delta among => Delta.length_pieceBytes (fits delta among)
  have here := tiles.getD_flatMap lengths delta among place inside
  rw [Nat.sub_zero] at here
  rw [target, Content.byteAt_toArray, here]
  rfl

end Plan

/-- A sink with room for a piece takes it. -/
theorem emit_eq (position : Nat) (lastStop : Option Nat) {sink : Sink} {piece : Bytes}
    (room : sink.HasRoom piece.length) :
    emit piece ⟨position, lastStop, sink⟩ =
      .ok () ⟨position, lastStop, sink.accepting (Bytes.toArray piece)⟩ := by
  simp only [emit, Sink.write_of_hasRoom room]

/-- A copy arrives whole where there is room for it, whatever the size of the buffer. -/
theorem copyNext_eq (buffer : Buffer) {basis : ByteArray} {position remaining : Nat}
    (lastStop : Option Nat) {sink : Sink} (room : sink.HasRoom remaining)
    (inside : position + remaining ≤ basis.size) :
    copyNext buffer (.ofContent basis) remaining ⟨position, lastStop, sink⟩ =
      .ok () ⟨position + remaining, lastStop,
        sink.accepting (basis.extract position (position + remaining))⟩ := by
  induction remaining using Nat.strongRecOn generalizing position sink with
  | ind remaining ih =>
    have positive := buffer.positive
    unfold copyNext
    by_cases nothing : remaining = 0
    · subst nothing
      rw [if_pos rfl, Nat.add_zero, ByteArray.extract_same, Sink.accepting_empty]
      rfl
    · rw [if_neg nothing]
      let count := min remaining buffer.size
      have most : count ≤ remaining := Nat.min_le_left ..
      let piece := basis.extract position (position + count)
      have size : piece.size = count := Content.size_extract_span (by omega)
      have read : readNext (.ofContent basis) count ⟨position, lastStop, sink⟩ =
          .ok piece ⟨position + count, lastStop, sink⟩ := by
        simp only [readNext, Basis.ofContent,
          Content.read_eq_ok (show position + count ≤ basis.size by omega)]
        rfl
      have written : emit (Bytes.ofArray piece) ⟨position + count, lastStop, sink⟩ =
          .ok () ⟨position + count, lastStop, sink.accepting piece⟩ :=
        emit_eq _ _ fun limit known =>
          Nat.le_trans (Nat.le_trans (Nat.le_of_eq size) most) (room limit known)
      have left : (sink.accepting piece).HasRoom (remaining - count) := by
        refine Sink.HasRoom.accepting fun limit known => ?_
        rw [size, Nat.add_sub_cancel' most]
        exact room limit known
      have joined : basis.extract position (position + remaining) =
          piece ++ basis.extract (position + count) (position + remaining) :=
        ByteArray.extract_eq_extract_append_extract _ (by omega) (by omega)
      have rest := ih (remaining - count) (by omega) left
        (show position + count + (remaining - count) ≤ basis.size by omega)
      rw [show position + count + (remaining - count) = position + remaining by omega,
        Sink.accepting_accepting, ← joined] at rest
      rw [bind_of_ok read, bind_of_ok written]
      exact rest

/-- Where the last copy ended the basis is read next. -/
def Progress.Placed (progress : Progress) : Prop :=
  ∀ stop, progress.lastStop = some stop → progress.position = stop

/-- The basis is read from the start of a copy next, also where that needs no new position. -/
theorem seek_eq (offset : Nat) {progress : Progress} (placed : progress.Placed) :
    seek offset progress = .ok () { progress with position := offset } := by
  change EStateM.Result.ok () (if progress.lastStop = some offset then progress
    else { progress with position := offset }) = _
  by_cases continued : progress.lastStop = some offset
  · rw [if_pos continued]
    obtain ⟨position, lastStop, sink⟩ := progress
    obtain rfl : position = offset := placed offset continued
    rfl
  · rw [if_neg continued]

/-- A delta that reads inside the basis is written behind what was written. -/
theorem emitDelta_eq (buffer : Buffer) {basis : ByteArray} {delta : Delta} {progress : Progress}
    (fits : delta.Fits basis.size) (room : progress.sink.HasRoom delta.length)
    (placed : progress.Placed) :
    ∃ after : Progress, after.Placed ∧ after.sink = progress.sink.accepting (delta.piece basis) ∧
      emitDelta buffer (.ofContent basis) delta progress = .ok () after := by
  cases delta with
  | literal offset data =>
    exact ⟨{ progress with sink := progress.sink.accepting (Bytes.toArray data) }, placed, rfl,
      emit_eq _ _ room⟩
  | copy source offset length =>
    have long : progress.sink.HasRoom length.toNat := room
    refine ⟨⟨source.toNat + length.toNat, some (source.toNat + length.toNat),
      progress.sink.accepting (basis.extract source.toNat (source.toNat + length.toNat))⟩,
      ?_, rfl, ?_⟩
    · rintro stop ⟨⟩
      rfl
    · simp only [emitDelta]
      rw [bind_of_ok (seek_eq source.toNat placed), bind_of_ok (copyNext_eq buffer _ long fits)]
      rfl

/-- Deltas that read inside the basis are written one behind the other. -/
theorem emitDeltas_eq (buffer : Buffer) {basis : ByteArray} {deltas : List Delta}
    (progress : Progress) (fits : ∀ delta ∈ deltas, delta.Fits basis.size)
    (room : progress.sink.HasRoom (Delta.totalLength deltas)) (placed : progress.Placed) :
    ∃ after : Progress,
      after.sink = progress.sink.accepting
        (Bytes.toArray (deltas.flatMap (Delta.pieceBytes basis))) ∧
      emitDeltas buffer (.ofContent basis) deltas progress = .ok () after := by
  induction deltas generalizing progress with
  | nil =>
    refine ⟨progress, ?_, rfl⟩
    rw [List.flatMap_nil]
    exact (Sink.accepting_empty _).symm
  | cons delta rest ih =>
    obtain ⟨first, others⟩ := List.forall_mem_cons.1 fits
    obtain ⟨middle, placed', accepted, ran⟩ := emitDelta_eq buffer first
      (fun limit known => Nat.le_trans (Nat.le_add_right ..) (room limit known)) placed
    have left : middle.sink.HasRoom (Delta.totalLength rest) := by
      rw [accepted]
      refine Sink.HasRoom.accepting ?_
      rw [Delta.size_piece first]
      exact room
    obtain ⟨after, written, completed⟩ := ih middle others left placed'
    refine ⟨after, ?_, ?_⟩
    · rw [written, accepted, Sink.accepting_accepting, List.flatMap_cons, Bytes.toArray_append]
      rfl
    · unfold emitDeltas
      rw [bind_of_ok ran, completed]

/-- A fresh rebuild that succeeds has carried out a plan. -/
theorem toSink_eq_ok_iff {buffer : Buffer} {basis : Basis} {deltas : List Delta} {report : Report}
    {sink torn : Sink} :
    toSink buffer basis deltas sink = .ok report torn ↔
      ∃ plan after, Plan.ofDeltas deltas = .ok plan ∧ plan.checkCopies basis.size = .ok () ∧
        emitDeltas buffer basis plan.deltas ⟨basis.size, none, sink⟩ = .ok () after ∧
        report = plan.report ∧ torn = after.sink := by
  unfold toSink
  constructor
  · intro done
    simp only [bind, Except.bind, pure, Except.pure] at done
    cases planned : Plan.ofDeltas deltas with
    | error error =>
      rw [planned] at done
      cases done
    | ok plan =>
    rw [planned] at done
    cases checked : plan.checkCopies basis.size with
    | error error =>
      simp only [checked] at done
      cases done
    | ok _ =>
    simp only [checked] at done
    cases ran : emitDeltas buffer basis plan.deltas ⟨basis.size, none, sink⟩ with
    | error fault failed =>
      rw [ran] at done
      cases done
    | ok _ after =>
      rw [ran] at done
      cases done
      exact ⟨plan, after, rfl, checked, ran, rfl, rfl⟩
  · rintro ⟨plan, after, planned, checked, ran, rfl, rfl⟩
    simp only [planned, checked, bind, Except.bind, pure, Except.pure, ran]

/-- A plan whose copies are in range is carried out where there is room: its target is written. -/
theorem toSink_eq_ok (buffer : Buffer) {basis : ByteArray} {deltas : List Delta} {plan : Plan}
    {sink : Sink} (planned : Plan.ofDeltas deltas = .ok plan)
    (checked : plan.checkCopies basis.size = .ok ()) (room : sink.HasRoom plan.targetLength) :
    toSink buffer (.ofContent basis) deltas sink =
      .ok plan.report (sink.accepting (plan.target basis)) := by
  have total : Delta.totalLength plan.deltas = plan.targetLength := by
    rw [← (Plan.ofDeltas_eq_ok planned).2.totalLength, Nat.zero_add]
  obtain ⟨after, written, ran⟩ := emitDeltas_eq buffer ⟨basis.size, none, sink⟩
    (Plan.checkCopiesOf_eq_ok_iff.1 checked) (total ▸ room) nofun
  exact toSink_eq_ok_iff.2 ⟨plan, after, planned, checked, ran, rfl, written.symm⟩

/-- Behind what a sink without a limit holds already, the target of a plan is written when its
copies are in range. -/
theorem fromContent_of_plan (buffer : Buffer) (written : ByteArray) {basis : ByteArray}
    {deltas : List Delta} {plan : Plan} (planned : Plan.ofDeltas deltas = .ok plan)
    (checked : plan.checkCopies basis.size = .ok ()) :
    fromContent buffer basis deltas ⟨written, none⟩ =
      .ok plan.report ⟨written ++ plan.target basis, none⟩ := by
  have room : (⟨written, none⟩ : Sink).HasRoom plan.targetLength := by
    rintro limit ⟨⟩
  rw [fromContent, toSink_eq_ok buffer planned checked room]
  rfl

/-- A plan whose copies are in range is carried out: its target is written. -/
theorem fromContent_eq_ok (buffer : Buffer) {basis : ByteArray} {deltas : List Delta} {plan : Plan}
    (planned : Plan.ofDeltas deltas = .ok plan) (checked : plan.checkCopies basis.size = .ok ()) :
    fromContent buffer basis deltas .unlimited = .ok plan.report ⟨plan.target basis, none⟩ := by
  rw [Sink.unlimited, fromContent_of_plan buffer .empty planned checked, ByteArray.empty_append]

/-- A fresh rebuild that succeeds, into a sink without a limit, has followed a plan whose copies are
in range. -/
theorem exists_plan_of_fromContent {buffer : Buffer} {basis written : ByteArray}
    {deltas : List Delta} {report : Report} {after : Sink}
    (rebuilt : fromContent buffer basis deltas ⟨written, none⟩ = .ok report after) :
    ∃ plan, Plan.ofDeltas deltas = .ok plan ∧ plan.checkCopies basis.size = .ok () ∧
      report = plan.report ∧ after = ⟨written ++ plan.target basis, none⟩ := by
  obtain ⟨plan, -, planned, checked, -⟩ := toSink_eq_ok_iff.1 rebuilt
  rw [fromContent_of_plan buffer written planned checked] at rebuilt
  cases rebuilt
  exact ⟨plan, planned, checked, rfl, rfl⟩

end Rebuild

end BlockDelta
