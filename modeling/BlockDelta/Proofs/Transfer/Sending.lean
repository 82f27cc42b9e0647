import BlockDelta.Proofs.Delta.RoundTrip
import BlockDelta.Proofs.Matching.Soundness
import BlockDelta.Proofs.Matching.StreamedTarget
import BlockDelta.Proofs.Signature.Choosing
import BlockDelta.Proofs.Signature.RoundTrip

/-!
# What is sent is received

A signature arrives as it was made. A writer that listens to a matcher takes
every delta whose literal fits its record; so the stream that is sent for a
target holds the deltas of the naive policy, and these are what is received.
-/

namespace BlockDelta

namespace DeltaWriter

/-- A writer into a sink without a limit takes all deltas that fit their records and reports
nothing. -/
theorem deliverAll_listener {deltas : List Delta} (encodable : ∀ delta ∈ deltas, delta.Encodable)
    (written : Bytes) (records : Nat) (failures : List ListenerFailure) :
    Listener.deliverAll [listener] deltas failures (holding written records) =
      (failures, holding (written ++ deltas.flatMap Delta.record) (records + deltas.length)) := by
  induction deltas generalizing written records with
  | nil =>
    rw [List.flatMap_nil, List.append_nil]
    rfl
  | cons delta rest ih =>
    obtain ⟨first, others⟩ := List.forall_mem_cons.1 encodable
    have received : listener.receive delta (holding written records) =
        (none, holding (written ++ delta.record) (records + 1)) := by
      simp only [listener, writeDelta_holding first]
    have delivered : Listener.deliver delta 0 [listener] failures (holding written records) =
        (failures, holding (written ++ delta.record) (records + 1)) := by
      simp only [Listener.deliver, received]
    have step : Listener.deliverAll [listener] (delta :: rest) failures (holding written records) =
        Listener.deliverAll [listener] rest failures
          (holding (written ++ delta.record) (records + 1)) := by
      rw [Listener.deliverAll, List.foldl_cons, delivered]
      rfl
    rw [step, ih others, List.flatMap_cons, List.append_assoc, List.length_cons, Nat.add_assoc,
      Nat.add_comm 1]

end DeltaWriter

namespace Session

variable {World : Type}

/-- Feeding pieces is calling with one chunk after the other. -/
theorem updateEach_eq_performAll (pieces : List Bytes) :
    (updateEach pieces : Feeding World Unit) = performAll (pieces.map .chunk) := by
  induction pieces with
  | nil => rfl
  | cons piece rest ih =>
    rw [updateEach, ih]
    rfl

end Session

namespace Reference

/-- A literal among literals carries one of their pieces. -/
theorem length_le_of_mem_literals {bound start : Nat} {pieces : List Bytes}
    (short : ∀ piece ∈ pieces, piece.length ≤ bound) :
    ∀ delta ∈ literals start pieces, delta.length ≤ bound := by
  induction pieces generalizing start with
  | nil => exact nofun
  | cons piece rest ih =>
    obtain ⟨first, others⟩ := List.forall_mem_cons.1 short
    exact List.forall_mem_cons.2 ⟨first, ih others⟩

/-- A literal of the naive policy is no longer than its bound. -/
theorem length_le_of_mem_layOut {options : MatchOptions} {start : Nat} {run : Bytes}
    {rest : List Step} :
    ∀ delta ∈ layOut options start run rest, delta.isLiteral = true →
      delta.length ≤ options.maxLiteral := by
  have short (start : Nat) (run : Bytes) :
      ∀ delta ∈ literals start (Bytes.chunks options.maxLiteral options.positive run),
        delta.length ≤ options.maxLiteral :=
    length_le_of_mem_literals fun piece among => (Bytes.mem_chunks among).2
  induction rest generalizing start run with
  | nil => exact fun delta among _ => short start run delta among
  | cons step rest ih =>
    cases step with
    | passed byte => exact ih
    | copied block length =>
      intro delta among literal
      rcases List.mem_append.1 among with before | behind
      · exact short start run delta before
      · rcases List.mem_cons.1 behind with rfl | further
        · cases literal
        · exact ih delta further literal

/-- The deltas of any target fit their records when the bound on literals does. -/
theorem encodable_of_narrow (signature : Signature) {options : MatchOptions} (target : Bytes)
    (narrow : options.maxLiteral < UInt32.size) :
    ∀ delta ∈ deltas signature options target, delta.Encodable :=
  fun delta among literal =>
    Nat.lt_of_le_of_lt (length_le_of_mem_layOut delta among literal) narrow

/-- The stream of the naive policy is read back as its deltas and the length of the target. -/
theorem decode_stream_deltas {signature : Signature} {options : MatchOptions} {target : Bytes}
    (small : target.length < UInt64.size)
    (encodable : ∀ delta ∈ deltas signature options target, delta.Encodable) :
    Delta.decode (Delta.stream (deltas signature options target) target.length) =
      .ok (⟨.ofDeltas (deltas signature options target), target.length⟩, []) := by
  obtain ⟨tiles, describe⟩ := deltas_describe signature options small
  have decoded := Delta.decode_stream_of_tiles [] encodable small tiles
    fun delta among => (describe delta among).isEmpty_eq
  rw [List.append_nil] at decoded
  exact decoded

end Reference

namespace Transfer

/-- However a target is cut into pieces, the stream that is sent for it holds the deltas of the
naive policy and its length. -/
theorem sendDelta_eq_ok (signature : Signature) {options : MatchOptions} (pieces : List Bytes)
    (narrow : options.maxLiteral < UInt32.size) :
    sendDelta (BlockIndex.ofSignature signature) options pieces =
      .ok (Session.summaryOf signature options pieces.flatten,
        Bytes.toArray (Delta.stream (Reference.deltas signature options pieces.flatten)
          pieces.flatten.length)) := by
  let deltas := Reference.deltas signature options pieces.flatten
  let header := Delta.headerPieces.flatten
  have encodable := Reference.encodable_of_narrow signature pieces.flatten narrow
  have opened : DeltaWriter.writeHeader (.toSink .unlimited) = .ok () (.holding header 0) :=
    DeltaWriter.writePieces_holding Delta.headerPieces [] 0
  obtain ⟨session, started, begun⟩ :=
    Session.start_fed signature options [DeltaWriter.listener] (DeltaWriter.holding header 0)
  obtain ⟨told, fed, performed⟩ := begun.performAll (pieces.map .chunk)
  have bytes : (pieces.map Session.Call.chunk).flatMap Session.Call.bytes = pieces.flatten := by
    rw [List.flatMap_map]
    exact List.flatMap_id'
  rw [List.nil_append, bytes] at fed
  rw [List.nil_append] at fed performed
  obtain ⟨ended, left, whole, reached, _, finished⟩ := fed.finalize
  -- the writer takes what it is told before the end, and what it is told at the end
  have encodableTold : ∀ delta ∈ told, delta.Encodable := fun delta among =>
    encodable delta (whole ▸ List.mem_append_left _ among)
  have ran := performed (congrArg Prod.fst (DeltaWriter.deliverAll_listener encodableTold ..))
  have summed := finished (congrArg Prod.fst (DeltaWriter.deliverAll_listener encodable ..))
  have world : ended.world = DeltaWriter.holding (header ++ deltas.flatMap Delta.record)
      (0 + deltas.length) :=
    reached.trans (congrArg Prod.snd (DeltaWriter.deliverAll_listener encodable ..))
  rw [← Session.updateEach_eq_performAll] at ran
  have closed := DeltaWriter.writePieces_holding (Delta.endPieces pieces.flatten.length)
    (header ++ deltas.flatMap Delta.record) (0 + deltas.length)
  unfold sendDelta describeTarget
  simp only [opened, started]
  rw [bind_of_ok ran, summed]
  have length : (Session.summaryOf signature options pieces.flatten).targetLength =
      pieces.flatten.length := rfl
  simp only [world, DeltaWriter.finish, length, closed]
  rw [List.append_assoc]
  rfl

/-- The stream that is sent for a target is received as the deltas of the naive policy. -/
theorem receiveDelta_eq_ok (signature : Signature) {options : MatchOptions} {target : Bytes}
    (narrow : options.maxLiteral < UInt32.size) (small : target.length < UInt64.size) :
    receiveDelta (Bytes.toArray
        (Delta.stream (Reference.deltas signature options target) target.length)) =
      .ok ⟨.ofDeltas (Reference.deltas signature options target), target.length⟩ := by
  have decoded := Reference.decode_stream_deltas small
    (Reference.encodable_of_narrow signature target narrow)
  unfold receiveDelta
  have bytes (moving : Bytes) : Bytes.ofArray (Bytes.toArray moving) = moving := rfl
  rw [bytes, decoded]
  rfl

/-- The signature of a basis arrives as it was made. -/
theorem sendSignature_eq_ok {generator : Signature.Generator} {layout : Layout} {basis : Bytes}
    (cut : Layout.ofLength basis.length generator.blockLength = .ok layout)
    (narrow : generator.blockLength.toNat ≤ Layout.longestLength)
    (seeded : generator.spec.seed.length ≤ Signature.longestSeed) :
    ∃ signature stream, generator.ofBuffer 0 basis = .ok signature ∧
      sendSignature signature = .ok (stream, signature) ∧
      signature.spec = generator.spec ∧
      signature.blocks = generator.describeFrom 0 0 (generator.pieces basis) := by
  let signature : Signature := ⟨layout, generator.spec,
    generator.describeFrom 0 0 (generator.pieces basis), basis.length⟩
  have written : signature.write .unlimited = .ok () (.holding signature.encode) :=
    Signature.write_holding seeded []
  have decoded := Signature.decode_encode 0 [] cut seeded
  rw [List.append_nil, if_neg (Nat.not_lt_of_le narrow)] at decoded
  refine ⟨signature, Bytes.toArray signature.encode, Signature.Generator.ofBuffer_eq_ok 0 cut, ?_,
    rfl, rfl⟩
  have bytes : Bytes.ofArray (Sink.holding signature.encode).accepted = signature.encode := rfl
  simp only [sendSignature, written, bytes]
  rw [decoded]
  rfl

end Transfer

end BlockDelta
