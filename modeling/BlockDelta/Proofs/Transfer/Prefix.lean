import BlockDelta.Proofs.Rebuild.Limited
import BlockDelta.Proofs.Transfer.Enlarging
import BlockDelta.Proofs.Transfer.Recording

/-!
# All output is an honest prefix

Signatures, delta streams and rebuilt targets are written piece by piece, and
the sink may fill up in any of the pieces. What it then holds is what the whole
begins with, up to its last byte of room, also when a delta stream is recorded
while the target goes on being matched behind the cut.
-/

namespace BlockDelta

namespace Signature

/-- A signature whose seed fits its length field is written honestly into a sink that fills up. -/
theorem honest_write {signature : Signature}
    (seeded : signature.spec.seed.length ≤ longestSeed) :
    Sink.Honest (Sink.attempt signature.write) signature.encode := by
  rw [write_eq_offer seeded]
  exact Sink.honest_attempt (fun sink room => ⟨(), Sink.offer_of_hasRoom room⟩)
    fun sink full => ⟨.sinkFull, Sink.offer_of_full full⟩

end Signature

namespace Transfer

open Session (Request)

/-- A target is matched while its delta stream is written: the header, the deltas as requests bring
them up and the target ends, whether or not these requests fail, and the end record. Says whether
all of that succeeded. -/
def record (index : BlockIndex) (options : MatchOptions) (requests : List Request) (sink : Sink) :
    Bool × DeltaWriter :=
  match DeltaWriter.writeHeader (.toSink sink) with
  | .error _ writer => (false, writer)
  | .ok () writer =>
    match Session.start index options [DeltaWriter.listener] writer with
    | .error _ => (false, writer)
    | .ok session =>
      let (fine, ended) := Session.requestAll (requests ++ [.finalize]) session
      DeltaWriter.conclude fine (DeltaWriter.finish ended.matcher.consumed) ended.world

variable {options : MatchOptions} {requests : List Request}

/-- What a recording leaves: the sink was offered the whole stream, all steps succeeded exactly when
there is room for it, and the records counted are those that end inside the sink. -/
theorem record_eq (signature : Signature) (narrow : options.maxLiteral < UInt32.size)
    (feed : ∀ request ∈ requests, request.Feeds) (sink : Sink) :
    let target := requests.flatMap Request.bytes
    let deltas := Reference.deltas signature options target
    let recorded := record (.ofSignature signature) options requests sink
    recorded.2.sink = sink.offered (Delta.stream deltas target.length) ∧
      (recorded.1 = true ↔ sink.HasRoom (Delta.stream deltas target.length).length) ∧
      recorded.2.records = Delta.complete sink Delta.headerPieces.flatten.length deltas := by
  intro target deltas recorded
  let header := Delta.headerPieces.flatten
  let ending := (Delta.endPieces target.length).flatten
  rw [Delta.hasRoom_stream]
  by_cases begun : sink.HasRoom header.length
  · have opened : DeltaWriter.writeHeader (.toSink sink) = .ok () ⟨sink.offered header, 0⟩ :=
      DeltaWriter.writePieces_of_hasRoom begun
    have encodable := Reference.encodable_of_narrow signature target narrow
    obtain ⟨session, started, written, consumed, fine⟩ :=
      Session.requestAll_listened signature options feed ⟨sink.offered header, 0⟩
    have world := written encodable
    let told := deltas.foldl DeltaWriter.after ⟨sink.offered header, 0⟩
    have taken : told.sink = (sink.offered header).offered (deltas.flatMap Delta.record) :=
      DeltaWriter.sink_foldl_after ..
    have counted : told.records = Delta.complete sink header.length deltas :=
      (DeltaWriter.records_foldl_after sink header 0 deltas).trans (Nat.zero_add _)
    -- whatever became of the records, the end record is offered behind them
    have finished : recorded =
        ((Session.requestAll (requests ++ [.finalize]) session).1 &&
          decide (told.sink.HasRoom ending.length),
          { told with sink := told.sink.offered ending }) := by
      simp only [recorded, record, opened, started, world, consumed]
      exact DeltaWriter.conclude_writePieces ..
    rw [finished, Delta.offered_stream, ← taken, Bool.and_eq_true, fine, and_iff_right encodable,
      decide_eq_true_iff]
    exact ⟨rfl, (and_iff_right begun).symm, counted⟩
  · have failed : DeltaWriter.writeHeader (.toSink sink) =
        .error .sinkFull ⟨sink.offered header, 0⟩ := DeltaWriter.writePieces_of_full begun
    have cut : recorded = (false, ⟨sink.offered header, 0⟩) := by
      simp only [recorded, record, failed]
    rw [cut, Delta.stream, Sink.offered_of_full begun]
    refine ⟨rfl, ⟨fun fine => ?_, fun all => absurd all.1 begun⟩,
      (Delta.complete_of_full begun deltas).symm⟩
    cases fine

/-- Whatever is written to a sink that fills up is an honest prefix of what is written without a
limit: a signature whose seed fits its length field; the delta stream of a target that is fed in any
way to a session to which the writer alone listens, its literals fitting their length field, where
the requests go on behind a failure and the writer counts just the records that were accepted to
their last byte; and the target of deltas that tile it with all copies in range, from any basis that
delivers its content. -/
theorem honest_output :
    (∀ signature : Signature, signature.spec.seed.length ≤ Signature.longestSeed →
      Sink.Honest (Sink.attempt signature.write) signature.encode) ∧
    (∀ (signature : Signature) (options : MatchOptions) (requests : List Request),
      options.maxLiteral < UInt32.size → (∀ request ∈ requests, request.Feeds) →
        let target := requests.flatMap Request.bytes
        let deltas := Reference.deltas signature options target
        let recorded := record (.ofSignature signature) options requests
        Sink.Honest (fun sink => ((recorded sink).1, (recorded sink).2.sink))
            (Delta.stream deltas target.length) ∧
          ∀ room, (recorded (.ofLimit (some room))).2.records =
            Delta.complete (.ofLimit (some room)) Delta.headerPieces.flatten.length deltas) ∧
    ∀ (buffer : Rebuild.Buffer) (basis : Rebuild.Basis) (content : ByteArray)
      (deltas : List Delta), (Rebuild.Basis.ofContent content).Agrees basis →
        Delta.Tileable deltas →
        (∀ delta ∈ deltas, delta.isEmpty = false → delta.Fits content.size) →
        Sink.Honest (Sink.attempt (Rebuild.toSink buffer basis deltas))
          ((Delta.inTargetOrder (deltas.filter fun delta => !delta.isEmpty)).flatMap
            (Delta.pieceBytes content)) := by
  refine ⟨fun signature => Signature.honest_write, ?_, ?_⟩
  · intro signature options requests narrow feed target deltas recorded
    have outcome := record_eq signature narrow feed
    exact ⟨Sink.honest_of_offered (fun sink => (outcome sink).1) fun sink => (outcome sink).2.1,
      fun room => (outcome _).2.2⟩
  · intro buffer basis content deltas delivers tileable ranged
    obtain ⟨plan, planned⟩ := (Rebuild.Plan.exists_ofDeltas_iff deltas).2 tileable
    have ordered : plan.deltas =
        Delta.inTargetOrder (deltas.filter fun delta => !delta.isEmpty) := by
      obtain ⟨_, -, made⟩ := exists_of_bind_eq_ok planned
      cases made
      rfl
    have covered : ∀ delta ∈ plan.deltas, delta.Fits content.size := by
      intro delta among
      obtain ⟨listed, something⟩ := List.mem_filter.1
        ((Rebuild.Plan.ofDeltas_eq_ok planned).1.mem_iff.1 among)
      exact ranged delta listed (by simpa using something)
    rw [← ordered]
    exact Rebuild.honest_toSink buffer planned covered delivers

/-- A signature is cut in its digest's seed; of a target of three bytes the header and the only
record are accepted but for the record's last byte, and then to its last byte; a copy is cut between
its two bytes. -/
theorem honest_output_cut :
    let signature : Signature := ⟨⟨⟨2, by decide, by decide⟩, 0, 0⟩, .standard, [], 0⟩
    let requests : List Request := [.feed (.byte 7), .read [.data [8], .interrupted, .data [9]]]
    let recorded := record (.ofSignature signature) {} requests
    let deltas : List Delta := [.copy 1 3 2, .literal 0 [7, 8, 9]]
    let rebuilt := Sink.attempt (Rebuild.toSink ⟨1, by decide⟩ (.ofContent ⟨#[1, 2, 3, 4]⟩) deltas)
    (signature.spec.seed.length ≤ Signature.longestSeed ∧
      (Sink.attempt signature.write (.ofLimit (some 7))).2.accepted =
        ⟨#[0x52, 0x44, 0x53, 0x47, 1, 1, 0]⟩) ∧
    ((∀ request ∈ requests, request.Feeds) ∧ (recorded (.ofLimit (some 20))).2.records = 0 ∧
      (recorded (.ofLimit (some 21))).2.records = 1 ∧
      (recorded (.ofLimit (some 21))).2.sink.accepted = Bytes.toArray
        ([0x52, 0x44, 0x44, 0x4c, 1] ++ [2, 0, 0, 0, 0, 0, 0, 0, 0, 0, 0, 0, 3, 7, 8, 9]) ∧
      (recorded (.ofLimit (some 21))).1 = false) ∧
    Delta.Tileable deltas ∧ (rebuilt (.ofLimit (some 4))).2.accepted = ⟨#[7, 8, 9, 2]⟩ := by
  intro signature requests recorded deltas rebuilt
  obtain ⟨written, streamed, copied⟩ := honest_output
  have feed : ∀ request ∈ requests, request.Feeds := by
    simp [requests, Request.Feeds, Reader.fault?]
  have tiles : Delta.Tiles 0 [.literal 0 [7, 8, 9], .copy 1 3 2] 5 := ⟨rfl, rfl, rfl⟩
  have tileable : Delta.Tileable deltas :=
    ⟨5, by decide, (Delta.Tiles.partition tiles).perm (List.Perm.swap ..)⟩
  have ranged : ∀ delta ∈ deltas, delta.isEmpty = false → delta.Fits 4 := by
    simp [deltas, Delta.Fits]
  have seeded : signature.spec.seed.length ≤ Signature.longestSeed := by decide
  obtain ⟨stream, records⟩ := streamed signature {} requests (by decide) feed
  have target := copied ⟨1, by decide⟩ (.ofContent ⟨#[1, 2, 3, 4]⟩) _ deltas
    ⟨rfl, fun _ _ _ => rfl⟩ tileable ranged
  refine ⟨⟨seeded, ?_⟩, ⟨feed, ?_, ?_, ?_, ?_⟩, tileable, ?_⟩
  · rw [(written signature seeded).accepted]
    cbv
  · rw [records]
    cbv
  · rw [records]
    cbv
  · rw [stream.accepted]
    cbv
  · rw [← Bool.not_eq_true, stream.succeeds]
    cbv
  · rw [target.accepted]
    cbv

end Transfer

end BlockDelta
