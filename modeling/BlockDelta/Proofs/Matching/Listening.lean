import BlockDelta.Proofs.Matching.Histories

/-!
# Every listener hears every delta once

A request hands its deltas out one after the other, each one to all listeners
in the order in which they were added. What listeners do with them changes
their own world and the report of that request, and nothing else: two sessions
of which the same was asked agree in all that matching depends on, whoever
listens to them and whoever fails.
-/

namespace BlockDelta

variable {World Other : Type}

/-- A listener is told of a delta. -/
structure Hearing (World : Type) where
  /-- The listener's number, in the order of registration. -/
  number : Nat
  /-- Who is told. -/
  listener : Listener World
  /-- What is told. -/
  delta : Delta

namespace Hearing

/-- All listeners are told of a delta, the first one having a known number. -/
def ofDelta (number : Nat) (listeners : List (Listener World)) (delta : Delta) :
    List (Hearing World) :=
  (listeners.zipIdx number).map fun (listener, number) => ⟨number, listener, delta⟩

/-- All listeners are told of each delta before the next one. -/
def ofDeltas (listeners : List (Listener World)) (deltas : List Delta) : List (Hearing World) :=
  deltas.flatMap (ofDelta 0 listeners)

/-- A hearing changes the world, and its failure is noted behind the others. -/
def occur (noted : List ListenerFailure × World) (hearing : Hearing World) :
    List ListenerFailure × World :=
  let (report, world) := hearing.listener.receive hearing.delta noted.2
  (noted.1 ++ report.toList.map (⟨hearing.number, hearing.delta.start, ·⟩), world)

/-- The failures of hearings in the order in which they occur, and the world they leave. -/
def occurAll (hearings : List (Hearing World)) (world : World) : List ListenerFailure × World :=
  hearings.foldl occur ([], world)

end Hearing

namespace Listener

/-- A delta that is delivered is heard by each listener once, in order. -/
theorem deliver_eq_hearings (delta : Delta) (number : Nat) (listeners : List (Listener World))
    (failures : List ListenerFailure) (world : World) :
    ((deliver delta number listeners failures world).1.reverse,
        (deliver delta number listeners failures world).2) =
      (Hearing.ofDelta number listeners delta).foldl Hearing.occur (failures.reverse, world) := by
  induction listeners generalizing number failures world with
  | nil => rfl
  | cons listener rest ih =>
    have step : (Hearing.ofDelta number (listener :: rest) delta).foldl Hearing.occur
          (failures.reverse, world) =
        (Hearing.ofDelta (number + 1) rest delta).foldl Hearing.occur
          (Hearing.occur (failures.reverse, world) ⟨number, listener, delta⟩) := rfl
    rw [step, deliver, Hearing.occur]
    cases received : listener.receive delta world with
    | mk report reached =>
      cases report with
      | none =>
        simp only [Option.toList_none, List.map_nil, List.append_nil]
        exact ih ..
      | some report =>
        simp only [Option.toList_some, List.map_cons, List.map_nil, ← List.reverse_cons]
        exact ih ..

/-- Deltas that are delivered are heard by each listener once, one delta after the other. -/
theorem deliverAll_eq_hearings (listeners : List (Listener World)) (deltas : List Delta)
    (failures : List ListenerFailure) (world : World) :
    ((deliverAll listeners deltas failures world).1.reverse,
        (deliverAll listeners deltas failures world).2) =
      (Hearing.ofDeltas listeners deltas).foldl Hearing.occur (failures.reverse, world) := by
  induction deltas generalizing failures world with
  | nil => rfl
  | cons delta rest ih =>
    have step : deliverAll listeners (delta :: rest) failures world =
        deliverAll listeners rest (deliver delta 0 listeners failures world).1
          (deliver delta 0 listeners failures world).2 := rfl
    rw [Hearing.ofDeltas, List.flatMap_cons, List.foldl_append, ← deliver_eq_hearings, step]
    exact ih ..

end Listener

/-- Two matchers agree in all but their listeners and the failures of these. -/
structure StreamMatcher.Agrees (one : StreamMatcher World) (other : StreamMatcher Other) :
    Prop where
  /-- The blocks are the same. -/
  index : one.index = other.index
  /-- The bound is the same. -/
  options : one.options = other.options
  /-- The windows are the same. -/
  window : one.window = other.window
  /-- The same bytes are pending. -/
  pending : one.pending = other.pending
  /-- They are counted alike. -/
  pendingLength : one.pendingLength = other.pendingLength
  /-- The deltas describe as much. -/
  emitted : one.emitted = other.emitted
  /-- The last block matched is the same. -/
  last : one.last = other.last
  /-- The totals are the same. -/
  summary : one.summary = other.summary
  /-- The lives of both are as far. -/
  phase : one.phase = other.phase

namespace Session

/-- Sessions that are the same once overheard agree. -/
theorem agrees_of_overheard {one : Session World} {other : Session Other}
    (same : one.overheard = other.overheard) : one.matcher.Agrees other.matcher :=
  ⟨congrArg (·.matcher.index) same, congrArg (·.matcher.options) same,
    congrArg (·.matcher.window) same, congrArg (·.matcher.pending) same,
    congrArg (·.matcher.pendingLength) same, congrArg (·.matcher.emitted) same,
    congrArg (·.matcher.last) same, congrArg (·.matcher.summary) same,
    congrArg (·.matcher.phase) same⟩

/-- Sessions start the same but for their worlds. -/
theorem overheard_start {index : BlockIndex} {options : MatchOptions} {world : World}
    {elsewhere : Other} {session : Session World} {twin : Session Other}
    (started : start index options [] world = .ok session)
    (begun : start index options [] elsewhere = .ok twin) :
    twin.overheard = session.overheard := by
  rw [start, StreamMatcher.ofIndex] at started begun
  cases admitted : Rolling.Window.ofCapacity index.blockLength.toNat with
  | error error =>
    rw [admitted] at started
    cases started
  | ok window =>
    rw [admitted] at started begun
    cases started
    cases begun
    rfl

/-- The listener that an act adds. -/
def Act.listener? : Act World → Option (Listener World)
  | .listen added => some added
  | .request _ => none

/-- The request that an act makes. -/
def Act.request? : Act World → Option Request
  | .listen _ => none
  | .request asked => some asked

variable {signature : Signature} {options : MatchOptions} {history : History}
variable {session : Session World}

/-- Those who listen are those who were added, in order. -/
theorem Reached.listeners_actAll (reached : Reached signature options history session)
    (acts : List (Act World)) :
    (actAll acts session).matcher.listeners =
      session.matcher.listeners ++ acts.filterMap Act.listener? := by
  induction acts generalizing history session with
  | nil => exact (List.append_nil _).symm
  | cons act rest ih =>
    have further := ih (reached.act act)
    cases act with
    | listen listener =>
      have added : (Act.perform (.listen listener) session).matcher.listeners =
          session.matcher.listeners ++ [listener] := rfl
      rw [added, List.append_assoc] at further
      exact further
    | request request =>
      have kept : (Act.perform (.request request) session).matcher.listeners =
          session.matcher.listeners := reached.listeners_perform request
      rw [kept] at further
      exact further

/-- What is overheard depends on the requests alone. -/
theorem Reached.overheard_actAll (reached : Reached signature options history session)
    (acts : List (Act World)) :
    (actAll acts session).overheard =
      (acts.filterMap Act.request?).foldl
        (fun alone request => (after request.perform alone).overheard) session.overheard := by
  induction acts generalizing history session with
  | nil => rfl
  | cons act rest ih =>
    have further := ih (reached.act act)
    cases act with
    | listen listener => exact further
    | request request =>
      have same : (Act.perform (.request request) session).overheard =
          (after request.perform session.overheard).overheard := reached.overheard_perform request
      rw [same] at further
      exact further

/-- What a request hands out is what it counts. -/
theorem Reached.deltas_perform (reached : Reached signature options history session)
    {request : Request} (goesOn : request ≠ .reset) :
    (after request.perform session).matcher.summary.deltas =
      session.matcher.summary.deltas + (request.handedOut session).length := by
  rw [(reached.perform request).stands.deltas_eq, reached.stands.told_extend goesOn,
    List.length_append, reached.stands.deltas_eq]

/-- Whatever was done with a session, and whoever fails: the deltas that a
request hands out are heard by each listener once, in order, one delta after the
other; a session elsewhere of which the same was asked, say one in which nobody
fails, agrees in all that matching depends on and hands out the same deltas; an
admitted request reports the failure of its reader, or else exactly the failures
of these hearings, in order; and none is left to report. -/
theorem heard_once_and_reported (signature : Signature) (options : MatchOptions)
    (acts : List (Act World)) (world : World) (others : List (Act Other)) (elsewhere : Other)
    (same : others.filterMap Act.request? = acts.filterMap Act.request?) (request : Request) :
    ∃ session twin,
      start (BlockIndex.ofSignature signature) options [] world = .ok session ∧
      start (BlockIndex.ofSignature signature) options [] elsewhere = .ok twin ∧
      let before := actAll acts session
      let left := after request.perform before
      let deltas := request.handedOut before
      let listeners := acts.filterMap Act.listener?
      let heard := Hearing.occurAll (Hearing.ofDeltas listeners deltas) before.world
      (left.world = heard.2 ∧ (request ≠ .reset →
        left.matcher.summary.deltas = before.matcher.summary.deltas + deltas.length)) ∧
      (before.matcher.Agrees (actAll others twin).matcher ∧
        left.matcher.Agrees (after request.perform (actAll others twin)).matcher ∧
        request.handedOut (actAll others twin) = deltas) ∧
      refusal? request.perform before =
        (if request.admitted before.isFinalized then verdict heard.1 request.fault?
        else some .finalized) ∧
      before.matcher.failures = [] ∧ left.matcher.failures = [] := by
  obtain ⟨session, started, begun, nobody⟩ := start_reached signature options world
  obtain ⟨twin, startedElsewhere, begunElsewhere, -⟩ := start_reached signature options elsewhere
  refine ⟨session, twin, started, startedElsewhere, ?_⟩
  intro before left deltas listeners heard
  have reached := begun.through acts
  have reachedElsewhere := begunElsewhere.through others
  have registered : before.matcher.listeners = listeners := by
    rw [begun.listeners_actAll acts, nobody, List.nil_append]
  have told : heard =
      ((Listener.deliverAll before.matcher.listeners deltas [] before.world).1.reverse,
        (Listener.deliverAll before.matcher.listeners deltas [] before.world).2) := by
    rw [registered]
    exact (Listener.deliverAll_eq_hearings listeners deltas [] before.world).symm
  -- Both runs are overheard alike, as what is overheard depends on the requests alone.
  have alike : before.overheard = (actAll others twin).overheard := by
    rw [begun.overheard_actAll acts, begunElsewhere.overheard_actAll others, same,
      overheard_start started startedElsewhere]
  have leftAlike : left.overheard = (after request.perform (actAll others twin)).overheard := by
    rw [reachedElsewhere.overheard_perform request, ← alike]
    exact reached.overheard_perform request
  refine ⟨⟨?_, fun goesOn => reached.deltas_perform goesOn⟩,
    ⟨agrees_of_overheard alike, agrees_of_overheard leftAlike, ?_⟩, ?_, reached.quiet,
    (reached.perform request).quiet⟩
  · rw [told]
    exact reached.world_perform request
  · rw [Request.handedOut, ← alike]
    rfl
  · rw [told]
    exact reached.refusal?_perform request

/-- A byte is left for the end of the target; of two listeners the first one
fails, the other one counts all the same, and the failure is reported. -/
theorem heard_once_and_reported_full :
    let signature : Signature := ⟨⟨⟨2, by decide, by decide⟩, 0, 0⟩, .standard, [], 0⟩
    let full : Listener Nat := ⟨fun _ count => (some "full", count)⟩
    let counting : Listener Nat := ⟨fun _ count => (none, count + 1)⟩
    let acts : List (Act Nat) := [.listen full, .request (.feed (.byte 7)), .listen counting]
    let others : List (Act Unit) := [.request (.feed (.byte 7))]
    others.filterMap Act.request? = acts.filterMap Act.request? ∧
      ∃ session, start (BlockIndex.ofSignature signature) {} [] 0 = .ok session ∧
        refusal? Request.finalize.perform (actAll acts session) =
          some (.listeners [⟨0, 0, "full"⟩]) ∧
        (after Request.finalize.perform (actAll acts session)).world = 1 := by
  intro signature full counting acts others
  obtain ⟨session, _, started, -, ⟨world, -⟩, -, report, -⟩ :=
    heard_once_and_reported signature {} acts 0 others () rfl .finalize
  obtain rfl := Except.ok.inj started
  exact ⟨rfl, _, started, report.trans (by cbv), world.trans (by cbv)⟩

end Session

end BlockDelta
