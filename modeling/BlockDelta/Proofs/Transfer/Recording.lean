import BlockDelta.Proofs.Matching.Histories
import BlockDelta.Proofs.Storage.Offered
import BlockDelta.Proofs.Transfer.Sending

/-!
# A writer that fills up while a target is matched

A writer listens to a session and writes a record of each delta. Where its sink
ends the record is cut, the session is told so, and goes on. Every later record
fails as well, and none of its bytes are taken, so the sink keeps a prefix of
the stream; the records that are counted are those that end inside it.
-/

namespace BlockDelta

namespace Delta

/-- A record has at least its tag. -/
theorem record_ne_nil (delta : Delta) : delta.record ≠ [] := by
  cases delta <;> simp [record, recordPieces]

/-- How many records of deltas, written behind so many bytes, are complete in a sink: those for
which it has room up to their ends. -/
def complete (sink : Sink) (before : Nat) : List Delta → Nat
  | [] => 0
  | delta :: rest =>
    let stop := before + delta.record.length
    (if sink.HasRoom stop then 1 else 0) + complete sink stop rest

/-- Behind what was too much already, no record is complete. -/
theorem complete_of_full {sink : Sink} {before : Nat} (full : ¬sink.HasRoom before)
    (deltas : List Delta) : complete sink before deltas = 0 := by
  induction deltas generalizing before with
  | nil => rfl
  | cons delta rest ih =>
    have further : ¬sink.HasRoom (before + delta.record.length) := fun room =>
      full (room.of_le (Nat.le_add_right ..))
    rw [complete, if_neg further, ih further]

/-- A stream is offered as its header, its records and its end record. -/
theorem offered_stream (sink : Sink) (deltas : List Delta) (targetLength : Nat) :
    sink.offered (stream deltas targetLength) =
      ((sink.offered headerPieces.flatten).offered (deltas.flatMap record)).offered
        (endPieces targetLength).flatten := by
  rw [Sink.offered_offered, Sink.offered_offered]
  rfl

/-- There is room for a stream if there is for its header, then for its records and then for its end
record. -/
theorem hasRoom_stream {sink : Sink} {deltas : List Delta} {targetLength : Nat} :
    sink.HasRoom (stream deltas targetLength).length ↔
      sink.HasRoom headerPieces.flatten.length ∧
        (sink.offered headerPieces.flatten).HasRoom (deltas.flatMap record).length ∧
        ((sink.offered headerPieces.flatten).offered (deltas.flatMap record)).HasRoom
          (endPieces targetLength).flatten.length := by
  rw [stream, List.length_append, List.length_append, Sink.hasRoom_add, Sink.hasRoom_add]

end Delta

namespace DeltaWriter

/-- A stream in progress after a record was offered to its sink. -/
def after (writer : DeltaWriter) (delta : Delta) : DeltaWriter :=
  ⟨writer.sink.offered delta.record,
    writer.records + if writer.sink.HasRoom delta.record.length then 1 else 0⟩

variable {writer : DeltaWriter}

/-- Pieces for which there is room are written. -/
theorem writePieces_of_hasRoom {pieces : List Bytes}
    (room : writer.sink.HasRoom pieces.flatten.length) :
    writePieces pieces writer =
      .ok () { writer with sink := writer.sink.offered pieces.flatten } := by
  rw [writePieces, Sink.writeEach_eq_offer, Sink.offer_of_hasRoom room]

/-- Pieces that are too much are written as far as there is room. -/
theorem writePieces_of_full {pieces : List Bytes}
    (full : ¬writer.sink.HasRoom pieces.flatten.length) :
    writePieces pieces writer =
      .error .sinkFull { writer with sink := writer.sink.offered pieces.flatten } := by
  rw [writePieces, Sink.writeEach_eq_offer, Sink.offer_of_full full]

/-- Whether a last step succeeds, where the others did or did not, and the writer that it leaves. -/
def conclude (fine : Bool) (step : EStateM Fault DeltaWriter Unit) (writer : DeltaWriter) :
    Bool × DeltaWriter :=
  match step writer with
  | .ok () left => (fine, left)
  | .error _ left => (false, left)

/-- The last pieces are offered to the sink whatever became of the others. -/
theorem conclude_writePieces (fine : Bool) (pieces : List Bytes) (writer : DeltaWriter) :
    conclude fine (writePieces pieces) writer =
      (fine && decide (writer.sink.HasRoom pieces.flatten.length),
        { writer with sink := writer.sink.offered pieces.flatten }) := by
  by_cases room : writer.sink.HasRoom pieces.flatten.length
  · rw [conclude, writePieces_of_hasRoom room, decide_eq_true room, Bool.and_true]
  · rw [conclude, writePieces_of_full room, decide_eq_false room, Bool.and_false]

/-- A delta that fits its record is written as its record, and then counted. -/
theorem writeDelta_of_encodable {delta : Delta} (encodable : delta.Encodable) :
    writeDelta delta = (do
      writePieces delta.recordPieces
      modify fun writer => { writer with records := writer.records + 1 }) := by
  have short : (delta.isLiteral && decide (UInt32.size ≤ delta.length)) = false := by
    rw [Bool.and_eq_false_iff, decide_eq_false_iff_not]
    by_cases literal : delta.isLiteral = true
    · exact .inr (Nat.not_le_of_lt (encodable literal))
    · exact .inl (Bool.eq_false_iff.2 literal)
  unfold writeDelta
  simp only [short, Bool.false_eq_true, if_false]

/-- A listening writer offers the record of a delta to its sink, and reports when that is full. -/
theorem receive_listener {delta : Delta} (encodable : delta.Encodable) (writer : DeltaWriter) :
    listener.receive delta writer =
      (if writer.sink.HasRoom delta.record.length then none else some Fault.sinkFull.message,
        writer.after delta) := by
  by_cases room : writer.sink.HasRoom delta.record.length
  · have written : writeDelta delta writer =
        .ok () ⟨writer.sink.offered delta.record, writer.records + 1⟩ := by
      rw [writeDelta_of_encodable encodable, bind_of_ok (writePieces_of_hasRoom room)]
      rfl
    rw [if_pos room, listener, after, if_pos room]
    simp only [written]
  · have cut : writeDelta delta writer =
        .error .sinkFull ⟨writer.sink.offered delta.record, writer.records⟩ := by
      rw [writeDelta_of_encodable encodable, bind_of_error (writePieces_of_full room)]
      rfl
    rw [if_neg room, listener, after, if_neg room]
    simp only [cut]
    rfl

/-- A literal that is too long for its record is refused, and nothing of it is written. -/
theorem receive_listener_of_long {delta : Delta} (long : ¬delta.Encodable) (writer : DeltaWriter) :
    listener.receive delta writer = (some Fault.literalTooLong.message, writer) := by
  obtain ⟨literal, most⟩ := Classical.not_imp.1 long
  have refused : writeDelta delta writer = .error .literalTooLong writer := by
    unfold writeDelta
    simp only [literal, Nat.not_lt.1 most, decide_true, Bool.and_self, if_true]
    rfl
  simp only [listener, refused]

/-- A writer alone that is told of a delta offers its record, and reports when that is too much. -/
theorem deliver_of_encodable {delta : Delta} (encodable : delta.Encodable) (writer : DeltaWriter) :
    Listener.deliverAll [listener] [delta] [] writer =
      (if writer.sink.HasRoom delta.record.length then []
        else [⟨0, delta.start, Fault.sinkFull.message⟩], writer.after delta) := by
  simp only [Listener.deliverAll, List.foldl_cons, List.foldl_nil, Listener.deliver,
    receive_listener encodable]
  by_cases room : writer.sink.HasRoom delta.record.length <;> simp only [room, if_true, if_false]

/-- A writer alone that is told of a delta has offered its record. -/
theorem tell_of_encodable {delta : Delta} (encodable : delta.Encodable) (writer : DeltaWriter) :
    Listener.tellAll [listener] [delta] writer = writer.after delta :=
  congrArg Prod.snd (deliver_of_encodable encodable writer)

/-- A writer alone reports nothing of a delta exactly when that fits its record and there is room
for it. -/
theorem deliver_eq_nil_iff (delta : Delta) (writer : DeltaWriter) :
    (Listener.deliverAll [listener] [delta] [] writer).1 = [] ↔
      delta.Encodable ∧ writer.sink.HasRoom delta.record.length := by
  by_cases encodable : delta.Encodable
  · rw [deliver_of_encodable encodable]
    by_cases room : writer.sink.HasRoom delta.record.length <;> simp [room, encodable]
  · simp only [Listener.deliverAll, List.foldl_cons, List.foldl_nil, Listener.deliver,
      receive_listener_of_long encodable]
    simp [encodable]

/-- A writer alone that is told of deltas offers one record after the other. -/
theorem tellAll_listener {deltas : List Delta} (encodable : ∀ delta ∈ deltas, delta.Encodable)
    (writer : DeltaWriter) :
    Listener.tellAll [listener] deltas writer = deltas.foldl after writer := by
  induction deltas generalizing writer with
  | nil => rfl
  | cons delta rest ih =>
    obtain ⟨first, others⟩ := List.forall_mem_cons.1 encodable
    have split : delta :: rest = [delta] ++ rest := rfl
    rw [split, Listener.tellAll_append, tell_of_encodable first, ih others]
    rfl

/-- A writer alone reports nothing of deltas exactly when all of them fit their records and there is
room for all. -/
theorem deliverAll_eq_nil_iff (deltas : List Delta) (writer : DeltaWriter) :
    (Listener.deliverAll [listener] deltas [] writer).1 = [] ↔
      (∀ delta ∈ deltas, delta.Encodable) ∧
        writer.sink.HasRoom (deltas.flatMap Delta.record).length := by
  induction deltas generalizing writer with
  | nil => exact ⟨fun _ => ⟨nofun, fun _ _ => Nat.zero_le _⟩, fun _ => rfl⟩
  | cons delta rest ih =>
    have split : delta :: rest = [delta] ++ rest := rfl
    rw [split, Listener.failures_append, List.append_eq_nil_iff, ih, deliver_eq_nil_iff, ← split,
      List.forall_mem_cons, List.flatMap_cons, List.length_append, Sink.hasRoom_add]
    by_cases encodable : delta.Encodable
    · rw [tell_of_encodable encodable, after]
      tauto
    · tauto

/-- The sink of a writer takes the records as one offer. -/
theorem sink_foldl_after (deltas : List Delta) (writer : DeltaWriter) :
    (deltas.foldl after writer).sink = writer.sink.offered (deltas.flatMap Delta.record) := by
  induction deltas generalizing writer with
  | nil => exact (Sink.offered_nil _).symm
  | cons delta rest ih =>
    rw [List.foldl_cons, ih, List.flatMap_cons, ← Sink.offered_offered]
    rfl

/-- The records that a writer counts are those that end inside its sink. -/
theorem records_foldl_after (sink : Sink) (before : Bytes) (records : Nat) (deltas : List Delta) :
    (deltas.foldl after ⟨sink.offered before, records⟩).records =
      records + Delta.complete sink before.length deltas := by
  induction deltas generalizing before records with
  | nil => rfl
  | cons delta rest ih =>
    have tagged := List.length_pos_iff.2 delta.record_ne_nil
    have next : after ⟨sink.offered before, records⟩ delta =
        ⟨sink.offered (before ++ delta.record),
          records + if sink.HasRoom (before.length + delta.record.length) then 1 else 0⟩ := by
      simp only [after, Sink.offered_offered, Sink.hasRoom_offered tagged]
    rw [List.foldl_cons, next, ih, List.length_append, Delta.complete, Nat.add_assoc]

end DeltaWriter

namespace Session

variable {World : Type}

/-- A request feeds a part of the target, and its reader, if it has one, does not fail. -/
def Request.Feeds : Request → Prop
  | .feed _ => True
  | .read reader => reader.fault? = none
  | _ => False

/-- Requests are made one after the other, and failures are passed over; says whether there were
none. -/
def requestAll : List Request → Session World → Bool × Session World
  | [], session => (true, session)
  | request :: rest, session =>
    let (fine, left) := requestAll rest (after request.perform session)
    ((refusal? request.perform session).isNone && fine, left)

/-- Requests are made in one go or in two. -/
theorem requestAll_append (front back : List Request) (session : Session World) :
    requestAll (front ++ back) session =
      ((requestAll front session).1 && (requestAll back (requestAll front session).2).1,
        (requestAll back (requestAll front session).2).2) := by
  induction front generalizing session with
  | nil => rfl
  | cons request rest ih =>
    simp only [List.cons_append, requestAll, ih, Bool.and_assoc]

variable {signature : Signature} {options : MatchOptions} {history : History}
variable {listeners : List (Listener World)} {world : World} {fed : Bytes} {told : List Delta}
variable {session : Session World}

/-- A session that has been fed stands where that ended. -/
theorem Fed.reached (begun : Fed signature options listeners world fed told session) :
    Reached signature options ⟨fed, told, false⟩ session :=
  ⟨begun.quiet, Or.inl ⟨rfl, begun.between⟩⟩

/-- A request whose reader does not fail is refused for the failures of those it told, and for
nothing else while the target goes on. -/
theorem Reached.refusal?_eq_none_iff (reached : Reached signature options history session)
    (request : Request) (may : request.admitted history.ended) (sound : request.fault? = none) :
    refusal? request.perform session = none ↔
      (Listener.deliverAll session.matcher.listeners (request.handedOut session) []
        session.world).1 = [] := by
  have admitted : request.admitted session.isFinalized = true := by
    rw [reached.stands.isFinalized_eq]
    exact may
  rw [reached.refusal?_perform, if_pos admitted, sound, verdict]
  split_ifs with silent
  · exact ⟨fun _ => List.reverse_eq_nil_iff.1 silent, fun _ => rfl⟩
  · refine ⟨fun quiet => ?_, fun nothing => absurd (List.reverse_eq_nil_iff.2 nothing) silent⟩
    cases quiet

/-- A request that feeds leaves a session that has been fed, and fails only for its listeners. -/
theorem Fed.request (begun : Fed signature options listeners world fed told session)
    (request : Request) (feeds : request.Feeds) :
    Fed signature options listeners world (fed ++ request.bytes)
        (told ++ request.handedOut session) (Session.after request.perform session) ∧
      (refusal? request.perform session = none ↔
        (Listener.deliverAll listeners (request.handedOut session) []
          (Listener.tellAll listeners told world)).1 = []) := by
  have ends : request.ends = false ∧ request.fault? = none ∧ request ≠ .reset ∧
      request.admitted false = true := by
    cases request with
    | feed call => exact ⟨rfl, rfl, nofun, rfl⟩
    | read reader => exact ⟨rfl, feeds, nofun, rfl⟩
    | finalize => exact feeds.elim
    | reset => exact feeds.elim
  obtain ⟨goesOn, sound, other, may⟩ := ends
  have added : History.extend ⟨fed, told, false⟩ session request =
      ⟨fed ++ request.bytes, told ++ request.handedOut session, false⟩ := by
    rw [History.extend, if_pos may, ← goesOn]
    cases request with
    | reset => exact absurd rfl other
    | _ => rfl
  have left := begun.reached.perform request
  rw [added] at left
  have world' := begun.reached.world_perform request
  have refused := begun.reached.refusal?_eq_none_iff request may sound
  rw [begun.registered, begun.world] at world' refused
  refine ⟨⟨?_, (begun.reached.listeners_perform request).trans begun.registered, left.quiet, ?_⟩,
    refused⟩
  · rcases left.stands with ⟨-, between⟩ | ⟨closed, -⟩
    · exact between
    · cases closed
  · rw [world', Listener.tellAll_append]
    rfl

/-- Requests that feed leave a session that has been fed, and fail only for its listeners. -/
theorem Fed.requestAll (begun : Fed signature options listeners world fed told session)
    {requests : List Request} (feed : ∀ request ∈ requests, request.Feeds) :
    ∃ deltas, Fed signature options listeners world (fed ++ requests.flatMap Request.bytes)
        (told ++ deltas) (requestAll requests session).2 ∧
      ((requestAll requests session).1 = true ↔
        (Listener.deliverAll listeners deltas [] (Listener.tellAll listeners told world)).1 =
          []) := by
  induction requests generalizing session fed told with
  | nil =>
    refine ⟨[], ?_, fun _ => rfl, fun _ => rfl⟩
    rw [List.flatMap_nil, List.append_nil, List.append_nil]
    exact begun
  | cons request rest ih =>
    obtain ⟨feeds, others⟩ := List.forall_mem_cons.1 feed
    obtain ⟨middle, first⟩ := begun.request request feeds
    obtain ⟨back, ended, further⟩ := ih middle others
    refine ⟨request.handedOut session ++ back, ?_, ?_⟩
    · rw [List.flatMap_cons, ← List.append_assoc, ← List.append_assoc]
      exact ended
    · rw [Session.requestAll, Bool.and_eq_true, Option.isNone_iff_eq_none, first, further,
        Listener.failures_append, List.append_eq_nil_iff, ← Listener.tellAll_append, and_comm]

/-- Ending a session that has been fed tells the listeners of what is left for the naive policy, and
fails only for them. -/
theorem Fed.ended (begun : Fed signature options listeners world fed told session) :
    ∃ deltas, told ++ deltas = Reference.deltas signature options fed ∧
      (Session.after Request.finalize.perform session).world =
        Listener.tellAll listeners (Reference.deltas signature options fed) world ∧
      (Session.after Request.finalize.perform session).matcher.consumed = fed.length ∧
      (refusal? Request.finalize.perform session = none ↔
        (Listener.deliverAll listeners deltas [] (Listener.tellAll listeners told world)).1 =
          []) := by
  have refused := begun.reached.refusal?_eq_none_iff .finalize rfl rfl
  have world' := begun.reached.world_perform .finalize
  rw [begun.registered, begun.world] at refused world'
  have left : Reached signature options
      ⟨fed ++ [], told ++ Request.finalize.handedOut session, true⟩ _ :=
    begun.reached.perform .finalize
  rw [List.append_nil] at left
  rcases left.stands with ⟨goesOn, -⟩ | ⟨-, ended, whole⟩
  · cases goesOn
  · refine ⟨_, whole, ?_, ?_, refused⟩
    · rw [← whole, Listener.tellAll_append, world']
      rfl
    · rw [StreamMatcher.consumed, ended.totals]
      rfl

/-- A target that is fed to a session to which a writer listens alone is written record by record if
all of these fit; all requests succeed exactly when they do and there is room for all of them. -/
theorem requestAll_listened (signature : Signature) (options : MatchOptions)
    {requests : List Request} (feed : ∀ request ∈ requests, request.Feeds) (writer : DeltaWriter) :
    let target := requests.flatMap Request.bytes
    let deltas := Reference.deltas signature options target
    ∃ session, start (.ofSignature signature) options [DeltaWriter.listener] writer = .ok session ∧
      ((∀ delta ∈ deltas, delta.Encodable) →
        (requestAll (requests ++ [.finalize]) session).2.world =
          deltas.foldl DeltaWriter.after writer) ∧
      (requestAll (requests ++ [.finalize]) session).2.matcher.consumed = target.length ∧
      ((requestAll (requests ++ [.finalize]) session).1 = true ↔
        (∀ delta ∈ deltas, delta.Encodable) ∧
          writer.sink.HasRoom (deltas.flatMap Delta.record).length) := by
  intro target deltas
  obtain ⟨session, started, begun⟩ := start_fed signature options [DeltaWriter.listener] writer
  obtain ⟨front, fed, fine⟩ := begun.requestAll feed
  rw [List.nil_append, List.nil_append] at fed
  obtain ⟨back, whole, world, consumed, closed⟩ := fed.ended
  refine ⟨session, started, ?_⟩
  rw [requestAll_append]
  refine ⟨fun encodable => world.trans (DeltaWriter.tellAll_listener encodable writer), consumed,
    ?_⟩
  -- nothing is reported before the end of the target, nor at its end
  have last : requestAll [.finalize] (requestAll requests session).2 =
      ((refusal? Request.finalize.perform (requestAll requests session).2).isNone && true,
        after Request.finalize.perform (requestAll requests session).2) := rfl
  rw [last, Bool.and_true, Bool.and_eq_true, Option.isNone_iff_eq_none, fine, closed,
    ← DeltaWriter.deliverAll_eq_nil_iff]
  have all : deltas = front ++ back := whole.symm
  rw [all, Listener.failures_append, List.append_eq_nil_iff, and_comm]
  rfl

end Session

end BlockDelta
