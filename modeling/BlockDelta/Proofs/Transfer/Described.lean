import BlockDelta.Proofs.Transfer.Recording

/-!
# When a target is described

A target is described while it is read: its delta stream is complete exactly
when the reader comes to its end, all literals fit their records and there is
room for the whole stream. Nothing else decides, and nothing else is written.
-/

namespace BlockDelta

namespace Session

variable {World : Type}

/-- An action that is not refused succeeds. -/
theorem eq_ok_of_refusal? {action : Feeding World Unit} {session : Session World}
    (accepted : refusal? action session = none) :
    action session = .ok () (after action session) := by
  unfold refusal? at accepted
  unfold after
  split at accepted
  · rename_i done
    rw [done]
  · cases accepted

/-- An action that succeeds is not refused. -/
theorem refusal?_of_ok {action : Feeding World Unit} {session reached : Session World}
    (done : action session = .ok () reached) : refusal? action session = none := by
  rw [refusal?, done]

/-- A reader is fed to a session, and its target ends. -/
def readAll (reader : Reader) : Feeding World Summary := do
  Request.perform (.read reader)
  finalize

variable {signature : Signature} {options : MatchOptions} {listeners : List (Listener World)}
variable {world : World} {session : Session World} {reader : Reader}

/-- A reader that fails ends the reading. -/
theorem Fed.readAll_of_fault (begun : Fed signature options listeners world [] [] session)
    {fault : Fault} (failed : reader.fault? = some fault) :
    ∃ error torn, readAll reader session = .error error torn := by
  have refused := begun.reached.refusal?_perform (.read reader)
  have admitted : Request.admitted (.read reader) session.isFinalized = true := by
    rw [begun.reached.stands.isFinalized_eq]
    rfl
  have own : Request.fault? (.read reader) = some fault := failed
  rw [if_pos admitted, own, refusal?] at refused
  unfold readAll
  cases performed : Request.perform (.read reader) session with
  | ok _ reached =>
    rw [performed] at refused
    cases refused
  | error error torn => exact ⟨error, torn, bind_of_error performed⟩

/-- A reader that does not fail is taken to its end, and then the target ends, exactly when no
listener reports anything of its deltas. -/
theorem Fed.readAll (begun : Fed signature options listeners world [] [] session)
    (sound : reader.fault? = none) :
    let deltas := Reference.deltas signature options reader.delivered
    ((Listener.deliverAll listeners deltas [] world).1 = [] →
      ∃ ended, readAll reader session = .ok (summaryOf signature options reader.delivered) ended ∧
        ended.world = Listener.tellAll listeners deltas world) ∧
    ∀ summary ended, readAll reader session = .ok summary ended →
      (Listener.deliverAll listeners deltas [] world).1 = [] := by
  intro deltas
  obtain ⟨fed, accepted⟩ := begun.request (.read reader) sound
  obtain ⟨back, whole, -, -, closed⟩ := fed.ended
  obtain ⟨last, _, -, reached, -, finished⟩ := fed.finalize
  have all : deltas = ([] ++ Request.handedOut (.read reader) session) ++ back := whole.symm
  have silent : (Listener.deliverAll listeners deltas [] world).1 = [] ↔
      refusal? Request.finalize.perform (after (Request.perform (.read reader)) session) = none ∧
        refusal? (Request.perform (.read reader)) session = none := by
    rw [all, Listener.failures_append, List.append_eq_nil_iff, closed, accepted]
    rfl
  constructor
  · intro quiet
    have taken := eq_ok_of_refusal? (silent.1 quiet).2
    refine ⟨last, ?_, reached⟩
    unfold Session.readAll
    rw [bind_of_ok taken]
    exact finished quiet
  · intro summary ended done
    obtain ⟨_, between, taken, ran⟩ := exists_of_run_eq_ok done
    have left : after (Request.perform (.read reader)) session = between := by
      rw [after, taken]
    have ending : Request.finalize.perform between = .ok () ended := by
      rw [Request.perform, bind_of_ok ran]
      rfl
    exact silent.2 ⟨left ▸ refusal?_of_ok ending, refusal?_of_ok taken⟩

end Session

namespace Transfer

open Session (summaryOf)

variable {signature : Signature} {options : MatchOptions} {reader : Reader} {sink torn : Sink}

/-- The reading of a target between the header of its stream and the end record. -/
theorem describeTarget_of_opened {session : Session DeltaWriter}
    (begun : sink.HasRoom Delta.headerPieces.flatten.length)
    (started : Session.start (.ofSignature signature) options [DeltaWriter.listener]
      ⟨sink.offered Delta.headerPieces.flatten, 0⟩ = .ok session) :
    describeTarget (.ofSignature signature) options (do let _ ← Session.consume reader) sink =
      match Session.readAll reader session with
      | .error error failed => .error (.matching error) failed.world.sink
      | .ok summary ended =>
        match DeltaWriter.finish summary.targetLength ended.world with
        | .error fault writer => .error (.writing fault) writer.sink
        | .ok () writer => .ok summary writer.sink := by
  have opened : DeltaWriter.writeHeader (.toSink sink) =
      .ok () ⟨sink.offered Delta.headerPieces.flatten, 0⟩ :=
    DeltaWriter.writePieces_of_hasRoom begun
  simp only [describeTarget, opened, started]
  rfl

/-- A target that a reader delivers is described when the reader does not fail, all literals fit
their records and there is room for its delta stream; and then this stream is what is written. -/
theorem describeTarget_eq_ok (sound : reader.fault? = none)
    (encodable : ∀ delta ∈ Reference.deltas signature options reader.delivered, delta.Encodable)
    (room : sink.HasRoom (Delta.stream (Reference.deltas signature options reader.delivered)
      reader.delivered.length).length) :
    describeTarget (.ofSignature signature) options (do let _ ← Session.consume reader) sink =
      .ok (summaryOf signature options reader.delivered)
        (sink.offered (Delta.stream (Reference.deltas signature options reader.delivered)
          reader.delivered.length)) := by
  let header := Delta.headerPieces.flatten
  obtain ⟨begun, recorded, closed⟩ := Delta.hasRoom_stream.1 room
  obtain ⟨session, started, fed⟩ :=
    Session.start_fed signature options [DeltaWriter.listener] ⟨sink.offered header, 0⟩
  obtain ⟨ended, read, told⟩ := (fed.readAll sound).1
    ((DeltaWriter.deliverAll_eq_nil_iff _ _).2 ⟨encodable, recorded⟩)
  rw [DeltaWriter.tellAll_listener encodable] at told
  have taken : ended.world.sink = (sink.offered header).offered
      ((Reference.deltas signature options reader.delivered).flatMap Delta.record) := by
    rw [told]
    exact DeltaWriter.sink_foldl_after ..
  have enough :
      ended.world.sink.HasRoom (Delta.endPieces reader.delivered.length).flatten.length := by
    rw [taken]
    exact closed
  have length : (summaryOf signature options reader.delivered).targetLength =
      reader.delivered.length := rfl
  rw [describeTarget_of_opened begun started, read]
  simp only [DeltaWriter.finish, length, DeltaWriter.writePieces_of_hasRoom enough]
  rw [taken, ← Delta.offered_stream]

/-- Nothing but such a target is described. -/
theorem of_describeTarget_eq_ok {summary : Summary}
    (done : describeTarget (.ofSignature signature) options (do let _ ← Session.consume reader)
      sink = .ok summary torn) :
    reader.fault? = none ∧
      (∀ delta ∈ Reference.deltas signature options reader.delivered, delta.Encodable) ∧
      sink.HasRoom (Delta.stream (Reference.deltas signature options reader.delivered)
        reader.delivered.length).length := by
  let header := Delta.headerPieces.flatten
  by_cases begun : sink.HasRoom header.length
  · obtain ⟨session, started, fed⟩ :=
      Session.start_fed signature options [DeltaWriter.listener] ⟨sink.offered header, 0⟩
    rw [describeTarget_of_opened begun started] at done
    cases fault : reader.fault? with
    | some fault =>
      obtain ⟨error, failed, read⟩ := fed.readAll_of_fault fault
      rw [read] at done
      cases done
    | none =>
    cases read : Session.readAll reader session with
    | error error failed =>
      rw [read] at done
      cases done
    | ok reached ended =>
    obtain ⟨complete, quiet⟩ := fed.readAll fault
    have silent := quiet reached ended read
    obtain ⟨encodable, recorded⟩ := (DeltaWriter.deliverAll_eq_nil_iff _ _).1 silent
    refine ⟨rfl, encodable, Delta.hasRoom_stream.2 ⟨begun, recorded, ?_⟩⟩
    -- all but the end record has been written, so it is the end record that would fail
    obtain ⟨last, again, told⟩ := complete silent
    rw [DeltaWriter.tellAll_listener encodable] at told
    by_contra full
    rw [← DeltaWriter.sink_foldl_after _ ⟨sink.offered header, 0⟩, ← told] at full
    have length : (summaryOf signature options reader.delivered).targetLength =
        reader.delivered.length := rfl
    rw [again] at done
    simp only [DeltaWriter.finish, length, DeltaWriter.writePieces_of_full full] at done
    cases done
  · have failed : DeltaWriter.writeHeader (.toSink sink) =
        .error .sinkFull ⟨sink.offered header, 0⟩ := DeltaWriter.writePieces_of_full begun
    simp only [describeTarget, failed] at done
    cases done

end Transfer

end BlockDelta
