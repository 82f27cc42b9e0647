import BlockDelta.Proofs.Matching.Renewal

/-!
# A reader that fails interrupts nothing

Draining a reader is feeding the bytes that it delivers, in whatever pieces and
with however many repeated reads. When it ends, the call is answered as an
update with these bytes; when it fails, that failure is the answer and those of
listeners are dropped, but the session is left as by the update. As failures of
listeners never steer matching, whatever was fed before the failure and
whatever is fed behind it come to what all of it comes to when it is fed at
once.
-/

namespace BlockDelta

open Reference

variable {World : Type}

namespace Session

/-- The session that bytes leave, with the failures of its listeners dropped. -/
def absorb (bytes : Bytes) (session : Session World) : Session World :=
  (after (feed bytes) session).settled

/-- An impartial action leaves what the listeners make of the overheard one. -/
theorem ImpartialAction.after_eq {α : Type} {action : (World : Type) → Feeding World α}
    (impartial : ImpartialAction action) (session : Session World) :
    after (action World) session =
      session.hear (after (action (List Delta)) session.overheard) := by
  rw [after, after, impartial]
  cases action (List Delta) session.overheard <;> rfl

/-- Failures noted before are dropped with those noted behind them. -/
theorem settled_hear (session : Session World) (heard : Session (List Delta)) :
    (session.settled.hear heard).settled = (session.hear heard).settled := by
  have told (failures : List ListenerFailure) :
      (Listener.deliverAll session.matcher.listeners heard.world failures session.world).2 =
        Listener.tellAll session.matcher.listeners heard.world session.world := by
    rw [Listener.deliverAll_eq]
  simp only [hear, settled, told]

/-- Dropping failures before bytes are absorbed makes no difference. -/
theorem absorb_settled (bytes : Bytes) (session : Session World) :
    session.settled.absorb bytes = session.absorb bytes := by
  have alike : session.settled.overheard = session.overheard := rfl
  rw [absorb, absorb, (feed_impartial bytes).after_eq session.settled,
    (feed_impartial bytes).after_eq session, alike, settled_hear]

/-- A reader that ends is drained as an update with what it delivers, which is then counted. -/
theorem consume_of_ends {reader : Reader} (ends : reader.fault? = none) :
    (consume reader : Feeding World Nat) = do
      update reader.delivered
      return reader.delivered.length := by
  simp only [consume, drain_eq, ends, update, bind_assoc, pure_bind, Nat.zero_add]

/-- Making something of a result leaves the same session. -/
theorem after_bind_pure {α β : Type} (action : Feeding World α) (make : α → β)
    (session : Session World) :
    after (action >>= fun value => pure (make value)) session = after action session := by
  simp only [after, bind, EStateM.bind]
  cases action session <;> rfl

/-- The session that an act's answer comes with is the one that the act leaves. -/
theorem snd_reply_answer (act : Act World) (session : Session World) :
    (reply act.answer session).2 = act.perform session := by
  have left : (reply act.answer session).2 = after act.answer session := by
    rw [reply, after]
    cases act.answer session <;> rfl
  rw [left]
  cases act with
  | listen listener => exact after_bind_pure ..
  | request request =>
    cases request with
    | feed call => exact after_bind_pure ..
    | read reader => exact (after_bind_pure ..).trans (after_bind_pure ..).symm
    | finalize => exact (after_bind_pure ..).trans (after_bind_pure ..).symm
    | reset => exact after_bind_pure ..

/-- The deltas that acts hand out are those of the first act and those of the others. -/
theorem flatMap_told_observe_cons (act : Act World) (rest : List (Act World))
    (session : Session World) :
    (observe (act :: rest) session).flatMap Sight.told =
      act.handedOut session ++ (observe rest (act.perform session)).flatMap Sight.told := by
  rw [← snd_reply_answer act session]
  rfl

/-- A request supplies a part of the target; its reader, if it has one, may fail behind that. -/
def Request.Supplies : Request → Prop
  | .feed _ => True
  | .read _ => True
  | _ => False

variable {signature : Signature} {options : MatchOptions} {history : History}
variable {session : Session World}

/-- Who listens to a session makes no difference to what it has been through. -/
theorem Reached.overheard (reached : Reached signature options history session) :
    Reached signature options history session.overheard :=
  ⟨rfl, reached.stands.of_overheard rfl⟩

/-- A session accumulates as long as its target goes on. -/
theorem Reached.accumulating_iff (reached : Reached signature options history session) :
    session.matcher.phase = .accumulating ↔ history.ended = false := by
  rcases reached.stands with ⟨goesOn, content, between⟩ | ⟨closed, ended, -⟩
  · exact ⟨fun _ => goesOn, fun _ => between.accumulating⟩
  · rw [ended.finalized, closed]
    exact ⟨nofun, nofun⟩

/-- While the target goes on, bytes are taken. -/
theorem Reached.exists_feed (reached : Reached signature options history session)
    (goesOn : history.ended = false) (bytes : Bytes) :
    ∃ left, feed bytes session = .ok () left := by
  rcases reached.stands with ⟨-, content, between⟩ | ⟨closed, -⟩
  · obtain ⟨left, deltas, content, fed, -⟩ := between.feed bytes
    exact ⟨left, fed⟩
  · rw [goesOn] at closed
    cases closed

/-- Bytes are absorbed in one go or in two: that failures are dropped in between is not noticed. -/
theorem Reached.absorb_append (reached : Reached signature options history session)
    (goesOn : history.ended = false) (front back : Bytes) :
    session.absorb (front ++ back) = (session.absorb front).absorb back := by
  obtain ⟨middle, fed⟩ := reached.exists_feed goesOn front
  have first : session.absorb front = middle.settled := by rw [absorb, after, fed]
  have both : after (feed (front ++ back)) session = after (feed back) middle := by
    rw [after, feed_append, bind_of_ok fed, after]
  rw [first, absorb_settled, absorb, both, absorb]

/-- While the target goes on, a request that supplies a part of it, whether or not its reader fails
behind that, leaves the session that has absorbed the part. -/
theorem Reached.after_supply (reached : Reached signature options history session)
    (goesOn : history.ended = false) {request : Request} (supplies : request.Supplies) :
    after request.perform session = session.absorb request.bytes := by
  have part : (request.body : Feeding World Unit) = feed request.bytes ∧
      request.admitted false = true := by
    cases request with
    | feed call => exact ⟨rfl, rfl⟩
    | read reader => exact ⟨rfl, rfl⟩
    | finalize => exact supplies.elim
    | reset => exact supplies.elim
  obtain ⟨supplied, may⟩ := part
  have admitted : request.gate session = .ok () session := by
    rw [Request.gate_eq, reached.stands.isFinalized_eq, goesOn, if_pos may]
  obtain ⟨left, fed⟩ := reached.exists_feed goesOn request.bytes
  have settled := after_conclude request.fault? left
  rw [absorb, after, Request.perform_eq, bind_of_ok admitted, supplied, bind_of_ok fed, after, fed]
  exact settled

/-- While the target goes on, the failure of a reader is reported alone, and the session has
absorbed what was delivered before it. -/
theorem Reached.consume_of_fails (reached : Reached signature options history session)
    (goesOn : history.ended = false) {reader : Reader} {fault : Fault}
    (fails : reader.fault? = some fault) :
    consume reader session = .error (.io fault) (session.absorb reader.delivered) := by
  have opened : ensureOpen session = .ok () session := by
    have admitted := (Request.read reader).gate_eq session
    rwa [reached.stands.isFinalized_eq, goesOn] at admitted
  obtain ⟨left, fed⟩ := reached.exists_feed goesOn reader.delivered
  rw [consume, bind_of_ok opened, drain_eq, fails, bind_assoc, bind_of_ok fed, absorb, after, fed]
  rfl

/-- The part that a request supplies is added to the history, and the target goes on. -/
theorem Reached.supply (reached : Reached signature options history session)
    (goesOn : history.ended = false) {request : Request} (supplies : request.Supplies) :
    Reached signature options
      ⟨history.consumed ++ request.bytes, history.told ++ request.handedOut session, false⟩
      (after request.perform session) := by
  have left := reached.perform request
  rw [History.extend, goesOn] at left
  cases request with
  | feed call => exact left
  | read reader => exact left
  | finalize => exact supplies.elim
  | reset => exact supplies.elim

/-- Requests that supply the same part hand out the same deltas. -/
theorem Reached.handedOut_supply (reached : Reached signature options history session)
    (goesOn : history.ended = false) {request other : Request} (supplies : request.Supplies)
    (too : other.Supplies) (same : request.bytes = other.bytes) :
    request.handedOut session = other.handedOut session := by
  rw [Request.handedOut, Request.handedOut, reached.overheard.after_supply goesOn supplies,
    reached.overheard.after_supply goesOn too, same]

/-- Requests that supply parts of the target, failing readers among them, leave the session that has
absorbed all parts. -/
theorem Reached.actAll_supply (reached : Reached signature options history session)
    (goesOn : history.ended = false) {requests : List Request}
    (supply : ∀ request ∈ requests, request.Supplies) :
    actAll (requests.map .request) session = session.absorb (requests.flatMap Request.bytes) := by
  induction requests generalizing session history with
  | nil =>
    have settled : session.absorb [] = ⟨{ session.matcher with failures := [] }, session.world⟩ :=
      rfl
    rw [List.flatMap_nil, settled, ← reached.quiet]
    rfl
  | cons request rest ih =>
    obtain ⟨supplies, others⟩ := List.forall_mem_cons.1 supply
    have further := ih (reached.supply goesOn supplies) rfl others
    rw [List.flatMap_cons, reached.absorb_append goesOn, ← reached.after_supply goesOn supplies]
    exact further

/-- However the rest of a target is supplied, when it ends the deltas handed out behind those before
are those of the naive policy for the whole. -/
theorem Reached.told_supply (reached : Reached signature options history session)
    (goesOn : history.ended = false) {requests : List Request}
    (supply : ∀ request ∈ requests, request.Supplies) :
    history.told ++ (observe (requests.map .request ++ [.request .finalize]) session).flatMap
        Sight.told =
      Reference.deltas signature options
        (history.consumed ++ requests.flatMap Request.bytes) := by
  induction requests generalizing session history with
  | nil =>
    have ended := (reached.perform .finalize).stands
    have added : history.extend session .finalize =
        ⟨history.consumed ++ [], history.told ++ Request.finalize.handedOut session, true⟩ := by
      rw [History.extend, goesOn]
      rfl
    rw [added] at ended
    rcases ended with ⟨impossible, -⟩ | ⟨-, -, whole⟩
    · cases impossible
    · rw [List.map_nil, List.nil_append, flatMap_told_observe_cons]
      exact (congrArg (history.told ++ ·) (List.append_nil _)).trans whole
  | cons request rest ih =>
    obtain ⟨supplies, others⟩ := List.forall_mem_cons.1 supply
    have further := ih (reached.supply goesOn supplies) rfl others
    rw [List.map_cons, List.cons_append, flatMap_told_observe_cons, List.flatMap_cons,
      ← List.append_assoc, ← List.append_assoc]
    exact further

/-- While the target of a session goes on, a reader is drained as an update with the bytes that it
delivers, whatever pieces they come in and however often a read is to be repeated: the same deltas
are handed out. If the reader ends, the update's answer is given, with the number of bytes for its
success, and the session is left as by the update. If it fails, that is the answer, and the session
is left as by the update all the same, open and with no failure to report; when the rest of the
target is supplied in any way, with further failures of readers, the session is the one that an
update with all of it leaves, and at the end the same deltas have been handed out. -/
theorem consume_eq_update (signature : Signature) (options : MatchOptions)
    (acts : List (Act World)) (world : World) (reader : Reader) :
    ∃ session, start (BlockIndex.ofSignature signature) options [] world = .ok session ∧
      let before := actAll acts session
      let delivered := reader.delivered
      before.matcher.phase = .accumulating →
      (Request.read reader).handedOut before =
          (Request.feed (.chunk delivered)).handedOut before ∧
        (reader.fault? = none → consume reader before =
          (do update delivered; return delivered.length : Feeding World Nat) before) ∧
        ∀ fault, reader.fault? = some fault →
          let left := after (update delivered) before
          consume reader before = .error (.io fault) left ∧
            left.matcher.phase = .accumulating ∧ left.matcher.failures = [] ∧
            ∀ later : List Request, (∀ request ∈ later, request.Supplies) →
              let whole := delivered ++ later.flatMap Request.bytes
              let interrupted := .request (.read reader) :: later.map .request
              actAll interrupted before = after (update whole) before ∧
                (observe (interrupted ++ [.request .finalize]) before).flatMap Sight.told =
                  (observe [.request (.feed (.chunk whole)), .request .finalize] before).flatMap
                    Sight.told := by
  obtain ⟨session, started, begun, -⟩ := start_reached signature options world
  refine ⟨session, started, ?_⟩
  intro before delivered accumulating
  have reached := begun.through acts
  have goesOn := reached.accumulating_iff.1 accumulating
  refine ⟨reached.handedOut_supply goesOn trivial trivial rfl,
    fun ends => congrFun (consume_of_ends ends) before, fun fault fails => ?_⟩
  intro left
  have supplies (bytes : Bytes) : (Request.feed (.chunk bytes)).Supplies := trivial
  have updated (bytes : Bytes) : after (update bytes) before = before.absorb bytes :=
    reached.after_supply goesOn (supplies bytes)
  have still := reached.supply goesOn (supplies delivered)
  have reported : consume reader before = .error (.io fault) left :=
    (reached.consume_of_fails goesOn fails).trans (by rw [← updated])
  refine ⟨reported, still.accumulating_iff.2 rfl, still.quiet, fun later supply => ?_⟩
  intro whole interrupted
  have supplied : ∀ request ∈ Request.read reader :: later, request.Supplies :=
    List.forall_mem_cons.2 ⟨trivial, supply⟩
  have atOnce : ∀ request ∈ [Request.feed (.chunk whole)], request.Supplies :=
    List.forall_mem_singleton.2 (supplies whole)
  refine ⟨(reached.actAll_supply goesOn supplied).trans (updated whole).symm, ?_⟩
  -- behind the same history both runs complete the deltas of the naive policy for the same target
  have told := reached.told_supply goesOn supplied
  have toldAtOnce := reached.told_supply goesOn atOnce
  rw [List.flatMap_singleton] at toldAtOnce
  exact List.append_cancel_left (told.trans toldAtOnce.symm)

/-- A listener fails at the literal that a reader completes. If the reader then ends, that failure
is reported; if it fails in turn, its own is, and behind it the literals go on as if nothing had
happened. -/
theorem consume_eq_update_gone :
    let signature : Signature := ⟨⟨⟨2, by decide, by decide⟩, 0, 0⟩, .standard, [], 0⟩
    let full : Listener Nat := ⟨fun _ count => (some "full", count + 1)⟩
    let acts : List (Act Nat) := [.listen full, .request (.feed (.byte 7))]
    let front : Reader := [.data [8], .interrupted, .data [9, 10]]
    let failing : Reader := front ++ [.failed (.device "gone")]
    ∃ session, start (BlockIndex.ofSignature signature) ⟨2, by decide⟩ [] 0 = .ok session ∧
      let before := actAll acts session
      before.matcher.phase = .accumulating ∧
        refusal? (consume front) before = some (.listeners [⟨0, 0, "full"⟩]) ∧
        refusal? (consume failing) before = some (.io (.device "gone")) ∧
        (observe [.request (.read failing), .request (.feed (.byte 11)), .request .finalize]
            before).flatMap Sight.told =
          [.literal 0 [7, 8], .literal 2 [9, 10], .literal 4 [11]] := by
  intro signature full acts front failing
  obtain ⟨session, started, same⟩ := consume_eq_update signature ⟨2, by decide⟩ acts 0 front
  obtain ⟨_, startedAgain, alike⟩ :=
    consume_eq_update signature ⟨2, by decide⟩ acts 0 failing
  obtain rfl := Except.ok.inj started
  obtain rfl := Except.ok.inj startedAgain
  obtain ⟨-, ended, -⟩ := same (by cbv)
  obtain ⟨-, -, failed⟩ := alike (by cbv)
  obtain ⟨reported, -, -, onwards⟩ := failed (.device "gone") rfl
  obtain ⟨-, told⟩ := onwards [.feed (.byte 11)] (List.forall_mem_singleton.2 trivial)
  refine ⟨_, started, by cbv, ?_, ?_, told.trans ?_⟩
  · rw [refusal?, ended rfl]
    cbv
  · rw [refusal?, reported]
  · simp only [observe, List.flatMap_cons, List.flatMap_nil]
    cbv

end Session

end BlockDelta
