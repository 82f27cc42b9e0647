import BlockDelta.Proofs.Matching.Requests

/-!
# What a session has been through

Listeners are added and requests are made in any order, and failures are passed
over. The history of a session is what it consumed and handed out since its
target began. Wherever it is, a session stands between two bytes of its target
or at the end of it (`Stands`), and no failure is left to report (`Reached`).
-/

namespace BlockDelta

open Reference

variable {World Other : Type}

namespace Session

/-- What has gone into a session and come out of it since its target began. -/
structure History where
  /-- The bytes consumed. -/
  consumed : Bytes
  /-- The deltas handed out. -/
  told : List Delta
  /-- Whether the target has ended. -/
  ended : Bool

/-- The history of a target that has not begun. -/
def History.empty : History := ⟨[], [], false⟩

/-- A request adds its bytes and these deltas; a new target forgets the old one. -/
def History.add (history : History) (deltas : List Delta) : Request → History
  | .reset => .empty
  | request => ⟨history.consumed ++ request.bytes, history.told ++ deltas, request.ends⟩

/-- A request adds to the history, unless the target has ended before it. -/
def History.extend (history : History) (session : Session World) (request : Request) : History :=
  if request.admitted history.ended then history.add (request.handedOut session) request
  else history

variable {signature : Signature} {options : MatchOptions} {history : History}
variable {session : Session World}

/-- A session stands between two bytes of its target, or at the end of it. -/
def Stands (signature : Signature) (options : MatchOptions) (history : History)
    (session : Session World) : Prop :=
  (history.ended = false ∧
      ∃ content, Open signature options history.consumed history.told content session) ∨
    (history.ended = true ∧ Ended signature options history.consumed session ∧
      history.told = Reference.deltas signature options history.consumed)

/-- Where a session stands does not depend on who listens. -/
theorem Stands.of_overheard {other : Session Other}
    (stands : Stands signature options history session)
    (same : other.overheard = session.overheard) : Stands signature options history other := by
  rcases stands with ⟨goesOn, content, between⟩ | ⟨closed, ended, told⟩
  · have alone : Open signature options history.consumed history.told content session.overheard :=
      { between with }
    rw [← same] at alone
    exact Or.inl ⟨goesOn, content, { alone with }⟩
  · have alone : Ended signature options history.consumed session.overheard := { ended with }
    rw [← same] at alone
    exact Or.inr ⟨closed, { alone with }, told⟩

/-- The target has ended if its history says so. -/
theorem Stands.isFinalized_eq (stands : Stands signature options history session) :
    session.isFinalized = history.ended := by
  rcases stands with ⟨goesOn, content, between⟩ | ⟨closed, ended, -⟩
  · rw [goesOn, isFinalized, between.accumulating]
    rfl
  · rw [closed, isFinalized, ended.finalized]
    rfl

/-- What is handed out is told, whether or not the request is admitted. -/
theorem Stands.told_extend (stands : Stands signature options history session) {request : Request}
    (goesOn : request ≠ .reset) :
    (history.extend session request).told = history.told ++ request.handedOut session := by
  rw [History.extend, ← stands.isFinalized_eq]
  split
  · cases request with
    | reset => exact absurd rfl goesOn
    | _ => rfl
  · rename_i refused
    have unchanged : request.perform session.overheard = .error .finalized session.overheard :=
      Request.perform_of_refused (Bool.eq_false_iff.mpr refused)
    rw [Request.handedOut, after, unchanged]
    exact (List.append_nil _).symm

/-- A session counts the deltas handed out. -/
theorem Stands.deltas_eq (stands : Stands signature options history session) :
    session.matcher.summary.deltas = history.told.length := by
  rcases stands with ⟨-, content, between⟩ | ⟨-, ended, told⟩
  · rw [between.totals]
    exact Nat.zero_add _
  · rw [ended.totals, told]
    exact Nat.zero_add _

/-- A new target begins with nothing fed. -/
theorem open_reset {content : Bytes}
    (index : session.matcher.index = BlockIndex.ofSignature signature)
    (bound : session.matcher.options = options)
    (window : session.matcher.window.Holds signature.layout.blockLength.toNat content) :
    Open signature options [] [] [] (after Session.reset session) := by
  have begun := open_empty window.clear options session.matcher.listeners [] session.world
  rw [← index, ← bound] at begun
  rw [← bound]
  exact begun

/-- What a scribe is told it writes down. -/
theorem Tells.world_eq {reached : Session (List Delta)} {deltas : List Delta}
    (tells : Tells session.overheard reached deltas) : reached.world = deltas := by
  have told := tells.told
  rw [Session.overheard, Listener.deliverAll_scribe] at told
  exact congrArg Prod.snd told

/-- A request that is admitted succeeds in its part, and is added to the history. -/
theorem Stands.body (stands : Stands signature options history session) {request : Request}
    (may : request.admitted session.isFinalized) :
    ∃ last, request.body session.overheard = .ok () last ∧
      Stands signature options (history.add last.world request) last := by
  have alone : Stands signature options history session.overheard := stands.of_overheard rfl
  rcases alone with ⟨goesOn, content, between⟩ | ⟨closed, ended, -⟩
  · have taken (bytes : Bytes) :
        ∃ last, Session.feed bytes session.overheard = .ok () last ∧
          Stands signature options
            ⟨history.consumed ++ bytes, history.told ++ last.world, false⟩ last := by
      obtain ⟨last, deltas, left, fed, tells, still⟩ := between.feed bytes
      rw [← tells.world_eq] at still
      exact ⟨last, fed, Or.inl ⟨rfl, left, still⟩⟩
    cases request with
    | feed call => exact taken call.bytes
    | read reader => exact taken reader.delivered
    | finalize =>
      obtain ⟨last, deltas, closed, tells, whole, ended⟩ := between.close
      rw [← tells.world_eq] at whole
      refine ⟨last, ?_, Or.inr ⟨rfl, ?_, ?_⟩⟩
      · rw [Request.body, bind_of_ok closed]
        rfl
      · change Ended signature options (history.consumed ++ []) last
        rw [List.append_nil]
        exact ended
      · change _ = Reference.deltas signature options (history.consumed ++ [])
        rw [List.append_nil]
        exact whole
    | reset =>
      exact ⟨_, rfl, Or.inl ⟨rfl, [], open_reset between.index between.bound between.window⟩⟩
  · cases request with
    | reset => exact ⟨_, rfl, Or.inl ⟨rfl, [], open_reset ended.index ended.bound ended.window⟩⟩
    | _ =>
      rw [stands.isFinalized_eq, closed] at may
      cases may

/-- A session as its requests leave it. -/
structure Reached (signature : Signature) (options : MatchOptions) (history : History)
    (session : Session World) : Prop where
  /-- No failure is left to report. -/
  quiet : session.matcher.failures = []
  /-- The session stands where its history says. -/
  stands : Stands signature options history session

variable (reached : Reached signature options history session) (request : Request)

include reached

/-- A request does to a session what it does to the overheard one; the listeners
hear what it hands out, and nothing is left to report. -/
theorem Reached.after_perform :
    after request.perform session =
      (session.hear (after request.perform session.overheard)).settled := by
  cases may : request.admitted session.isFinalized with
  | true =>
    -- Both sessions reach the same end of the request's part, one of them through the scribe.
    obtain ⟨last, done, -⟩ := reached.stands.body may
    have heard : (session.hear session.overheard).hear last =
        session.hear (session.overheard.hear last) := hear_hear session rfl last
    rw [Request.after_of_body reached.quiet may done, (Request.handedOut_of_body may done).1]
    exact congrArg Session.settled heard
  | false =>
    have alone : request.perform session.overheard = .error .finalized session.overheard :=
      Request.perform_of_refused may
    rw [after, Request.perform_of_refused may, after, alone]
    change session = ⟨{ session.matcher with failures := [] }, session.world⟩
    rw [← reached.quiet]

/-- A request leaves those who listen. -/
theorem Reached.listeners_perform :
    (after request.perform session).matcher.listeners = session.matcher.listeners := by
  rw [reached.after_perform]
  rfl

/-- A request changes the world as the listeners do who are told of its deltas. -/
theorem Reached.world_perform :
    (after request.perform session).world =
      (Listener.deliverAll session.matcher.listeners (request.handedOut session) []
        session.world).2 := by
  rw [reached.after_perform, ← reached.quiet]
  rfl

/-- What is overheard after a request does not depend on who listened. -/
theorem Reached.overheard_perform :
    (after request.perform session).overheard =
      (after request.perform session.overheard).overheard := by
  rw [reached.after_perform]
  rfl

/-- A request that is not admitted is refused; one that is reports the failure
of its reader, or else those of the listeners it told. -/
theorem Reached.refusal?_perform :
    refusal? request.perform session =
      if request.admitted session.isFinalized then
        verdict (Listener.deliverAll session.matcher.listeners (request.handedOut session) []
          session.world).1.reverse request.fault?
      else some .finalized := by
  split
  · rename_i may
    obtain ⟨last, done, -⟩ := reached.stands.body may
    rw [Request.refusal?_of_body reached.quiet may done, (Request.handedOut_of_body may done).2]
  · rename_i refused
    rw [refusal?, Request.perform_of_refused (Bool.eq_false_iff.mpr refused)]

/-- A request leaves a session that stands where its history says, with nothing to report. -/
theorem Reached.perform :
    Reached signature options (history.extend session request)
      (after request.perform session) := by
  rw [History.extend, ← reached.stands.isFinalized_eq]
  split
  · rename_i may
    obtain ⟨last, done, stands⟩ := reached.stands.body may
    rw [Request.after_of_body reached.quiet may done, (Request.handedOut_of_body may done).2]
    exact ⟨rfl, stands.of_overheard rfl⟩
  · rename_i refused
    rw [after, Request.perform_of_refused (Bool.eq_false_iff.mpr refused)]
    exact reached

omit reached

/-- Something that is done with a session. -/
inductive Act (World : Type) where
  /-- A listener is added. -/
  | listen (listener : Listener World)
  /-- A request is made, and its failure is passed over. -/
  | request (request : Request)

/-- The session that an act leaves. -/
def Act.perform : Act World → Session World → Session World
  | .listen listener => after (addListener listener)
  | .request request => after request.perform

/-- An act goes on with a history. -/
def Act.extend (history : History) (session : Session World) : Act World → History
  | .listen _ => history
  | .request request => history.extend session request

/-- The session that acts leave. -/
def actAll (acts : List (Act World)) (session : Session World) : Session World :=
  acts.foldl (fun reached act => act.perform reached) session

/-- Acts go on with a history. -/
def History.through (history : History) : List (Act World) → Session World → History
  | [], _ => history
  | act :: rest, session => (act.extend history session).through rest (act.perform session)

/-- An act leaves a session that stands where its history says, with nothing to report. -/
theorem Reached.act (reached : Reached signature options history session) (act : Act World) :
    Reached signature options (act.extend history session) (act.perform session) := by
  cases act with
  | listen listener => exact ⟨reached.quiet, reached.stands.of_overheard rfl⟩
  | request request => exact reached.perform request

/-- Acts leave a session that stands where its history says, with nothing to report. -/
theorem Reached.through (reached : Reached signature options history session)
    (acts : List (Act World)) :
    Reached signature options (history.through acts session) (actAll acts session) := by
  induction acts generalizing history session with
  | nil => exact reached
  | cons act rest ih => exact ih (reached.act act)

/-- A session starts with nothing fed and nobody listening. -/
theorem start_reached (signature : Signature) (options : MatchOptions) (world : World) :
    ∃ session, start (BlockIndex.ofSignature signature) options [] world = .ok session ∧
      Reached signature options .empty session ∧ session.matcher.listeners = [] := by
  obtain ⟨session, started, fed⟩ := start_fed signature options [] world
  exact ⟨session, started, ⟨fed.quiet, Or.inl ⟨rfl, fed.between⟩⟩, fed.registered⟩

end Session

end BlockDelta
