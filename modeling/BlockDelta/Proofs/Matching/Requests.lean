import BlockDelta.Proofs.Matching.Impartiality
import BlockDelta.Proofs.Storage.Delivery

/-!
# Whatever is asked of a session

Bytes, chunks and whole readers are fed, the target is ended, and a new one is
begun, in any order. Every request but the last first makes sure that the
target has not ended, then does its part, whoever listens, and then reports:
the failure of its reader alone, or else all failures of its listeners.
-/

namespace BlockDelta

variable {World : Type}

namespace Session

/-- Why an action fails, if it does. -/
def refusal? {α : Type} (action : Feeding World α) (session : Session World) :
    Option StreamError :=
  match action session with
  | .ok _ _ => none
  | .error cause _ => some cause

/-- The failure of a reader is reported alone; otherwise the failures of listeners are. -/
def conclude : Option Fault → Feeding World Unit
  | some fault => do
    dropFailures
    throw (.io fault)
  | none => takeFailures

/-- What is reported when these failures of listeners were noted, in order. -/
def verdict (failures : List ListenerFailure) : Option Fault → Option StreamError
  | some fault => some (.io fault)
  | none => if failures = [] then none else some (.listeners failures)

/-- No failure is left behind. -/
theorem after_conclude (fault? : Option Fault) (session : Session World) :
    after (conclude fault?) session = session.settled := by
  cases fault? with
  | some fault => rfl
  | none =>
    rw [after, conclude, takeFailures_eq]
    split_ifs <;> rfl

/-- Failures of listeners are reported in the order in which they were noted. -/
theorem refusal?_conclude (fault? : Option Fault) (session : Session World) :
    refusal? (conclude fault?) session = verdict session.matcher.failures.reverse fault? := by
  cases fault? with
  | some fault => rfl
  | none =>
    rw [refusal?, conclude, takeFailures_eq, verdict]
    simp only [List.reverse_eq_nil_iff]
    split_ifs <;> rfl

/-- Bytes are fed in one go or in two. -/
theorem feed_append (front back : Bytes) :
    (feed (front ++ back) : Feeding World Unit) = feed front >>= fun _ => feed back := by
  induction front with
  | nil => exact (pure_bind ..).symm
  | cons byte rest ih => rw [List.cons_append, feed, feed, ih, bind_assoc]

/-- Draining a reader is feeding what it delivers; a failure drops those of listeners. -/
theorem drain_eq (reader : Reader) (total : Nat) :
    (drain total reader : Feeding World Nat) =
      feed reader.delivered >>= fun _ =>
        match reader.fault? with
        | some fault => do
          dropFailures
          throw (.io fault)
        | none => return total + reader.delivered.length := by
  induction reader generalizing total with
  | nil => exact (pure_bind ..).symm
  | cons event rest ih =>
    match event with
    | .interrupted => exact ih total
    | .failed fault => exact (pure_bind ..).symm
    | .data [] => exact (pure_bind ..).symm
    | .data (byte :: bytes) =>
      rw [drain, ih, Reader.delivered, feed_append, bind_assoc, Reader.fault?]
      simp only [List.length_append, List.length_cons, Nat.add_assoc]

/-- The target of a session has ended. -/
def isFinalized (session : Session World) : Bool := session.matcher.phase == .finalized

/-- What can be asked of a session. -/
inductive Request where
  /-- A byte or a chunk is fed. -/
  | feed (call : Call)
  /-- Everything a reader delivers is fed. -/
  | read (reader : Reader)
  /-- The target ends. -/
  | finalize
  /-- A new target begins. -/
  | reset

namespace Request

/-- A request is made; what it returns on success is not looked at. -/
def perform : Request → Feeding World Unit
  | .feed call => call.perform
  | .read reader => do
    let _ ← consume reader
  | .finalize => do
    let _ ← Session.finalize
  | .reset => Session.reset

/-- The bytes that a request feeds. -/
def bytes : Request → Bytes
  | .feed call => call.bytes
  | .read reader => reader.delivered
  | .finalize => []
  | .reset => []

/-- The failure of a request's reader. -/
def fault? : Request → Option Fault
  | .read reader => reader.fault?
  | _ => none

/-- The target ends with this request. -/
def ends : Request → Bool
  | .finalize => true
  | _ => false

/-- Once the target has ended, only a new one may begin. -/
def admitted : Request → Bool → Bool
  | .reset, _ => true
  | _, ended => !ended

/-- Where a request is let in or refused. -/
def gate : Request → Feeding World Unit
  | .reset => pure ()
  | _ => ensureOpen

/-- A request between its admission and its report. -/
def body : Request → Feeding World Unit
  | .feed call => Session.feed call.bytes
  | .read reader => Session.feed reader.delivered
  | .finalize => do
    let _ ← close
  | .reset => Session.reset

/-- A request is admitted, does its part and reports. -/
theorem perform_eq (request : Request) :
    (request.perform : Feeding World Unit) =
      request.gate >>= fun _ => request.body >>= fun _ => conclude request.fault? := by
  cases request with
  | feed call =>
    cases call with
    | byte byte =>
      simp only [perform, Call.perform, updateByte, gate, body, Call.bytes, Session.feed,
        bind_assoc, pure_bind]
      rfl
    | chunk chunk => rfl
  | read reader =>
    simp only [perform, consume, drain_eq, gate, body, fault?, bind_assoc]
    cases reader.fault? with
    | some fault => rfl
    | none => simp only [pure_bind, conclude, bind_pure_unit]
  | finalize =>
    simp only [perform, finalize_eq, gate, body, fault?, conclude, bind_assoc, pure_bind,
      bind_pure_unit]
  | reset => rfl

/-- A request that is not admitted is told that the target has ended. -/
theorem gate_eq (request : Request) (session : Session World) :
    request.gate session =
      if request.admitted session.isFinalized then .ok () session
      else .error .finalized session := by
  cases request with
  | reset => rfl
  | _ =>
    change ensureOpen session = _
    rw [ensureOpen_eq, isFinalized]
    cases session.matcher.phase <;> rfl

/-- A request that is not admitted changes nothing. -/
theorem perform_of_refused {request : Request} {session : Session World}
    (refused : request.admitted session.isFinalized = false) :
    request.perform session = .error .finalized session := by
  have shut : request.gate session = .error .finalized session := by
    rw [gate_eq, refused]
    rfl
  rw [perform_eq, bind_of_error shut]

/-- A request does its part whoever listens, unless failures were left behind. -/
theorem body_impartial (request : Request) {session : Session World}
    (quiet : session.matcher.failures = []) :
    request.body session = session.heardIn (request.body session.overheard) := by
  have closed : ImpartialAction fun World => ((do let _ ← close) : Feeding World Unit) :=
    close_impartial.bind fun _ => .pure ()
  cases request with
  | feed call => exact feed_impartial call.bytes World session
  | read reader => exact feed_impartial reader.delivered World session
  | finalize => exact closed World session
  | reset =>
    change EStateM.Result.ok () _ = EStateM.Result.ok () (Session.mk
      { session.matcher.reset with failures := session.matcher.failures } session.world)
    rw [quiet]
    rfl

/-- The deltas that a request hands out, as a scribe alone would write them down. -/
def handedOut (request : Request) (session : Session World) : List Delta :=
  (after request.perform session.overheard).world

/-- A request that is admitted and does its part reports what its listeners did. -/
theorem perform_of_body {request : Request} {session : Session World}
    {last : Session (List Delta)} (quiet : session.matcher.failures = [])
    (may : request.admitted session.isFinalized)
    (done : request.body session.overheard = .ok () last) :
    request.perform session = conclude request.fault? (session.hear last) := by
  have admitted : request.gate session = .ok () session := by
    rw [gate_eq, if_pos may]
  have performed := request.body_impartial quiet
  rw [done] at performed
  rw [perform_eq, bind_of_ok admitted, bind_of_ok performed]

/-- What a request hands out is what its part hands out. -/
theorem handedOut_of_body {request : Request} {session : Session World}
    {last : Session (List Delta)} (may : request.admitted session.isFinalized)
    (done : request.body session.overheard = .ok () last) :
    after request.perform session.overheard = (session.overheard.hear last).settled ∧
      request.handedOut session = last.world := by
  have performed : request.perform session.overheard =
      conclude request.fault? (session.overheard.hear last) := perform_of_body rfl may done
  have left : after request.perform session.overheard = (session.overheard.hear last).settled := by
    rw [after, performed]
    exact after_conclude _ _
  refine ⟨left, ?_⟩
  rw [handedOut, left]
  change (Listener.deliverAll [.scribe] last.world [] []).2 = _
  rw [Listener.deliverAll_scribe]
  rfl

/-- A request leaves its listeners with what they heard, and nothing to report. -/
theorem after_of_body {request : Request} {session : Session World}
    {last : Session (List Delta)} (quiet : session.matcher.failures = [])
    (may : request.admitted session.isFinalized)
    (done : request.body session.overheard = .ok () last) :
    after request.perform session = (session.hear last).settled := by
  rw [after, perform_of_body quiet may done]
  exact after_conclude _ _

/-- A request reports the failures of those who heard what it handed out. -/
theorem refusal?_of_body {request : Request} {session : Session World}
    {last : Session (List Delta)} (quiet : session.matcher.failures = [])
    (may : request.admitted session.isFinalized)
    (done : request.body session.overheard = .ok () last) :
    refusal? request.perform session =
      verdict (Listener.deliverAll session.matcher.listeners last.world [] session.world).1.reverse
        request.fault? := by
  have noted : (session.hear last).matcher.failures =
      (Listener.deliverAll session.matcher.listeners last.world [] session.world).1 := by
    rw [← quiet]
    rfl
  rw [refusal?, perform_of_body quiet may done, ← noted]
  exact refusal?_conclude _ _

end Request

end Session

end BlockDelta
