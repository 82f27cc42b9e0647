import BlockDelta.Proofs.Matching.Streaming
import BlockDelta.Transfer

/-!
# Calls that feed a target

A target is fed by calls, each with a byte or with a chunk, and then ended. A
call reports the failures of its own listeners and leaves none behind, so what
the listeners are told of depends on the bytes alone: on every way to cut the
target into calls it is what the naive policy hands out, and collected into a
script it is the script of the whole target.
-/

namespace BlockDelta

open Reference

variable {World α : Type}

namespace Session

/-- A call that feeds a part of the target. -/
inductive Call where
  /-- A single byte. -/
  | byte (byte : UInt8)
  /-- A chunk. -/
  | chunk (chunk : Bytes)

/-- The bytes of a call. -/
def Call.bytes : Call → Bytes
  | .byte single => [single]
  | .chunk several => several

/-- A call is made. -/
def Call.perform : Call → Feeding World Unit
  | .byte single => updateByte single
  | .chunk several => update several

/-- Calls are made one after the other until one fails. -/
def performAll : List Call → Feeding World Unit
  | [] => pure ()
  | call :: rest => do
    call.perform
    performAll rest

/-- The session that an action leaves, whether or not it failed. -/
def after (action : Feeding World α) (session : Session World) : Session World :=
  match action session with
  | .ok _ reached => reached
  | .error _ reached => reached

/-- The session that calls leave when failures of listeners are passed over. -/
def afterAll (calls : List Call) (session : Session World) : Session World :=
  calls.foldl (fun reached call => after call.perform reached) session

/-- A session in which no failure is left. -/
def settled (session : Session World) : Session World :=
  { session with matcher := { session.matcher with failures := [] } }

/-- Taking the failures leaves none, and fails when there were some. -/
theorem takeFailures_eq (session : Session World) :
    takeFailures session =
      if session.matcher.failures = [] then .ok () session.settled
      else .error (.listeners session.matcher.failures.reverse) session.settled := by
  obtain ⟨⟨index, options, listeners, window, pending, pendingLength, emitted, last, summary,
    failures, phase⟩, world⟩ := session
  cases failures <;> rfl

/-- A session takes further input until its target has ended. -/
theorem ensureOpen_eq (session : Session World) :
    ensureOpen session =
      if session.matcher.phase = .finalized then .error .finalized session
      else .ok () session := by
  simp only [ensureOpen, bind, EStateM.bind, get, getThe, MonadStateOf.get, EStateM.get]
  split_ifs <;> rfl

variable {signature : Signature} {options : MatchOptions} {fed content : Bytes}
variable {told : List Delta} {session : Session World}

/-- An open session takes further input. -/
theorem Open.ensured (between : Open signature options fed told content session) :
    ensureOpen session = .ok () session := by
  rw [ensureOpen_eq, between.accumulating]
  rfl

/-- A call feeds its bytes and then takes the failures. -/
theorem Open.perform (between : Open signature options fed told content session) (call : Call) :
    ∃ reached deltas left, call.perform session = takeFailures reached ∧
      Tells session reached deltas ∧
      Open signature options (fed ++ call.bytes) (told ++ deltas) left reached := by
  have opened := between.ensured
  cases call with
  | byte byte =>
    obtain ⟨reached, deltas, left, done, tells, ended⟩ := between.ingest byte
    refine ⟨reached, deltas, left, ?_, tells, ended⟩
    rw [Call.perform, updateByte, bind_of_ok opened, bind_of_ok done]
  | chunk chunk =>
    obtain ⟨reached, deltas, left, done, tells, ended⟩ := between.feed chunk
    refine ⟨reached, deltas, left, ?_, tells, ended⟩
    rw [Call.perform, update, bind_of_ok opened, bind_of_ok done]

/-- Dropping the failures changes nothing else. -/
theorem Open.settled (between : Open signature options fed told content session) :
    Open signature options fed told content session.settled :=
  { between with }

/-- A session that has been fed, with nothing to report: the world is that of
listeners who have been told of the deltas handed out. -/
structure Fed (signature : Signature) (options : MatchOptions) (listeners : List (Listener World))
    (world : World) (fed : Bytes) (told : List Delta) (session : Session World) : Prop where
  /-- The session is between two bytes. -/
  between : ∃ content, Open signature options fed told content session
  /-- The listeners are those registered. -/
  registered : session.matcher.listeners = listeners
  /-- No failure is left to report. -/
  quiet : session.matcher.failures = []
  /-- The listeners have been told. -/
  world : session.world = Listener.tellAll listeners told world

variable {listeners : List (Listener World)} {world : World}

/-- A session that holds nothing is between two bytes: none has been fed. -/
theorem open_empty {window : Rolling.Window}
    (holds : window.Holds signature.layout.blockLength.toNat []) (options : MatchOptions)
    (listeners : List (Listener World)) (failures : List ListenerFailure) (world : World) :
    Open signature options [] [] [] ⟨⟨BlockIndex.ofSignature signature, options, listeners, window,
      [], 0, 0, none, Summary.zero, failures, .accumulating⟩, world⟩ := by
  have positive := signature.layout.blockLength.positive
  refine ⟨⟨⟨rfl, rfl, holds, Nat.zero_le _, rfl, options.positive, rfl, rfl, rfl⟩, fun rest => rfl,
    [], rfl, rfl⟩, fun full => ?_⟩
  simp only [List.length_nil] at full
  omega

/-- A session starts with nothing fed. -/
theorem start_fed (signature : Signature) (options : MatchOptions)
    (listeners : List (Listener World)) (world : World) :
    ∃ session, start (BlockIndex.ofSignature signature) options listeners world = .ok session ∧
      Fed signature options listeners world [] [] session := by
  obtain ⟨window, admitted, holds⟩ := Rolling.Window.ofCapacity_holds
    signature.layout.blockLength.toNat_le_longestWindow
  have width : (BlockIndex.ofSignature signature).blockLength = signature.layout.blockLength := rfl
  refine ⟨_, ?_, ⟨⟨[], open_empty holds options listeners [] world⟩, rfl, rfl, rfl⟩⟩
  rw [start, StreamMatcher.ofIndex, width, admitted]
  rfl

/-- A call leaves a session that has been fed, and fails only for its listeners. -/
theorem Fed.perform (reached : Fed signature options listeners world fed told session)
    (call : Call) :
    ∃ deltas, Fed signature options listeners world (fed ++ call.bytes) (told ++ deltas)
        (after call.perform session) ∧
      ((Listener.deliverAll listeners (told ++ deltas) [] world).1 = [] →
        call.perform session = .ok () (after call.perform session)) := by
  obtain ⟨content, between⟩ := reached.between
  obtain ⟨next, deltas, left, performed, tells, still⟩ := between.perform call
  have left' : after call.perform session = next.settled := by
    rw [after, performed, takeFailures_eq]
    by_cases silent : next.matcher.failures = []
    · rw [if_pos silent]
    · rw [if_neg silent]
  have outcome := tells.told
  rw [reached.registered, reached.quiet, reached.world] at outcome
  refine ⟨deltas, ⟨⟨left, left' ▸ still.settled⟩, ?_, ?_, ?_⟩, ?_⟩
  · rw [left']
    exact tells.listeners.trans reached.registered
  · rw [left']
    rfl
  · rw [left', Listener.tellAll_append]
    exact congrArg Prod.snd outcome
  · intro unfailed
    rw [Listener.failures_append] at unfailed
    have silent : next.matcher.failures = [] :=
      (congrArg Prod.fst outcome).trans (List.append_eq_nil_iff.mp unfailed).1
    rw [left', performed, takeFailures_eq, if_pos silent]

/-- Calls leave a session that has been fed, and fail only for their listeners. -/
theorem Fed.performAll (reached : Fed signature options listeners world fed told session)
    (calls : List Call) :
    ∃ deltas, Fed signature options listeners world (fed ++ calls.flatMap Call.bytes)
        (told ++ deltas) (afterAll calls session) ∧
      ((Listener.deliverAll listeners (told ++ deltas) [] world).1 = [] →
        performAll calls session = .ok () (afterAll calls session)) := by
  induction calls generalizing session fed told with
  | nil =>
    refine ⟨[], ?_, fun _ => rfl⟩
    rw [List.flatMap_nil, List.append_nil, List.append_nil]
    exact reached
  | cons call rest ih =>
    obtain ⟨front, middle, first⟩ := reached.perform call
    obtain ⟨back, ended, others⟩ := ih middle
    refine ⟨front ++ back, ?_, ?_⟩
    · rw [List.flatMap_cons, ← List.append_assoc, ← List.append_assoc]
      exact ended
    · intro unfailed
      rw [← List.append_assoc] at unfailed
      have quiet := unfailed
      rw [Listener.failures_append] at quiet
      have head := first (List.append_eq_nil_iff.mp quiet).2
      rw [Session.performAll, bind_of_ok head]
      exact others unfailed

/-- Nothing of the target is held any more, and it takes no further input. -/
def shut (session : Session World) : Session World :=
  { session with matcher := { session.matcher.clearBuffers with phase := .finalized } }

/-- Ending the target, but for the failures. -/
def close : Feeding World Summary := do
  let window := (← get).matcher.window
  drainTail window.length window.isFull
  modify flushPending
  let summary := (← get).matcher.summary
  modify shut
  return summary

/-- The failures are taken once the target has ended. -/
theorem finalize_eq :
    (finalize : Feeding World Summary) = do
      ensureOpen
      let summary ← close
      takeFailures
      return summary := by
  simp only [finalize, close, bind_assoc, pure_bind]
  rfl

/-- A session whose target has ended: the deltas of the naive policy are counted. -/
structure Ended (signature : Signature) (options : MatchOptions) (fed : Bytes)
    (session : Session World) : Prop where
  /-- The blocks are those of the signature. -/
  index : session.matcher.index = BlockIndex.ofSignature signature
  /-- The bound is the one chosen. -/
  bound : session.matcher.options = options
  /-- The window holds nothing. -/
  window : session.matcher.window.Holds signature.layout.blockLength.toNat []
  /-- Nothing is pending. -/
  pending : session.matcher.pending = []
  /-- The target has ended. -/
  finalized : session.matcher.phase = .finalized
  /-- The totals are those of the bytes and of the deltas. -/
  totals : session.matcher.summary =
    (Summary.mk fed.length 0 0 0).count (Reference.deltas signature options fed)

/-- Ending the target hands out what is left for the naive policy. -/
theorem Open.close (between : Open signature options fed told content session) :
    ∃ reached deltas, close session = .ok reached.matcher.summary reached ∧
      Tells session reached deltas ∧ told ++ deltas = Reference.deltas signature options fed ∧
      Ended signature options fed reached := by
  have whole : layOutEagerly options 0 [] (steps signature none fed) =
      Reference.deltas signature options fed := by
    rw [Reference.deltas, layOut_eq_eagerly]
  have closing : Closing signature options fed told content session := by
    refine ⟨between.toTracks, ?_⟩
    have now := between.onward []
    rw [List.append_nil, List.append_nil] at now
    exact now
  have unmatched : session.matcher.window.isFull = true →
      matched? signature session.matcher.last content = none := by
    rw [between.window.isFull_eq, beq_iff_eq]
    exact between.looked
  obtain ⟨drained, front, drain, head, ended⟩ :=
    closing.drainTail session.matcher.window.isFull unmatched
  have flushed := flushPending_eq ended.counted
  let back := pendingLiteral drained.matcher.emitted drained.matcher.pending.reverse
  have complete : told ++ (front ++ back) = Reference.deltas signature options fed := by
    have last := ended.rest
    rw [whole, steps_nil] at last
    rw [← List.append_assoc]
    exact last.symm
  have tracked : Tracks signature options fed (told ++ front ++ back) [] drained.flushPending := by
    rw [flushed]
    exact ended.cleared.emitAll _
  have tail : Tells drained drained.flushPending back := by
    rw [flushed]
    exact tells_cleared_emitAll drained _
  have totals := tracked.totals
  rw [List.append_assoc, complete] at totals
  obtain ⟨listeners, told'⟩ := head.trans tail
  refine ⟨drained.flushPending.shut, front ++ back, ?_, ⟨listeners, told'⟩, complete,
    tracked.index, tracked.bound, tracked.window.clear, rfl, rfl, totals⟩
  have begun : (get : Feeding World (Session World)) session = .ok session session := rfl
  rw [Session.close, bind_of_ok begun, between.window.length_eq, bind_of_ok drain]
  rfl

/-- Ending the target hands out what is left for the naive policy, and then takes the failures. -/
theorem Open.finalize (between : Open signature options fed told content session) :
    ∃ reached deltas, told ++ deltas = Reference.deltas signature options fed ∧
      reached.matcher.summary =
        (Summary.mk fed.length 0 0 0).count (Reference.deltas signature options fed) ∧
      Tells session reached deltas ∧
      finalize session =
        (do takeFailures; pure reached.matcher.summary : Feeding World Summary) reached := by
  obtain ⟨reached, deltas, closed, tells, whole, ended⟩ := between.close
  refine ⟨reached, deltas, whole, ended.totals, tells, ?_⟩
  rw [finalize_eq, bind_of_ok between.ensured, bind_of_ok closed]

/-- Taking the failures before a result is returned. -/
theorem takeFailures_then (session : Session World) (value : α) :
    (do takeFailures; pure value : Feeding World α) session =
      if session.matcher.failures = [] then .ok value session.settled
      else .error (.listeners session.matcher.failures.reverse) session.settled := by
  by_cases silent : session.matcher.failures = []
  · have taken : takeFailures session = .ok () session.settled := by
      rw [takeFailures_eq, if_pos silent]
    rw [if_pos silent, bind_of_ok taken]
    rfl
  · have taken : takeFailures session =
        .error (.listeners session.matcher.failures.reverse) session.settled := by
      rw [takeFailures_eq, if_neg silent]
    rw [if_neg silent, bind_of_error taken]

/-- The summary of a target whose deltas are those of the naive policy. -/
def summaryOf (signature : Signature) (options : MatchOptions) (target : Bytes) : Summary :=
  (Summary.mk target.length 0 0 0).count (Reference.deltas signature options target)

/-- Ending a session that has been fed tells the listeners of what is left for
the naive policy, and fails only for them. -/
theorem Fed.finalize (reached : Fed signature options listeners world fed told session) :
    ∃ ended deltas, told ++ deltas = Reference.deltas signature options fed ∧
      ended.world = Listener.tellAll listeners (Reference.deltas signature options fed) world ∧
      (finalize session = .ok (summaryOf signature options fed) ended ∨
        ∃ failures, finalize session = .error (.listeners failures) ended) ∧
      ((Listener.deliverAll listeners (Reference.deltas signature options fed) [] world).1 = [] →
        finalize session = .ok (summaryOf signature options fed) ended) := by
  obtain ⟨content, between⟩ := reached.between
  obtain ⟨last, deltas, whole, summary, tells, performed⟩ := between.finalize
  have outcome := tells.told
  rw [reached.registered, reached.quiet, reached.world] at outcome
  rw [takeFailures_then, summary] at performed
  refine ⟨last.settled, deltas, whole, ?_, ?_, ?_⟩
  · rw [← whole, Listener.tellAll_append]
    exact congrArg Prod.snd outcome
  · by_cases silent : last.matcher.failures = []
    · rw [if_pos silent] at performed
      exact Or.inl performed
    · rw [if_neg silent] at performed
      exact Or.inr ⟨_, performed⟩
  · intro unfailed
    rw [← whole, Listener.failures_append] at unfailed
    have silent : last.matcher.failures = [] :=
      (congrArg Prod.fst outcome).trans (List.append_eq_nil_iff.mp unfailed).1
    rw [if_pos silent] at performed
    exact performed

/-- The totals of a summary are those of the script. -/
theorem summaryOf_totals (signature : Signature) (options : MatchOptions) (target : Bytes) :
    (summaryOf signature options target).literalBytes =
        (Reference.script signature options target).literalBytes ∧
      (summaryOf signature options target).copyBytes =
        (Reference.script signature options target).copyBytes := by
  obtain ⟨literals, copies⟩ := Delta.totals_join (Reference.deltas signature options target)
  rw [Reference.script_eq, Script.ofDeltas_eq, literals, copies]
  simp [summaryOf, Summary.count]

/-- However a target is cut into calls, what a listener collects, among any
others and whether or not those fail, is the script of the whole target, and
the summary has its length and the totals of the script. -/
theorem collected_eq_greedy (signature : Signature) (options : MatchOptions)
    (front back : List (Listener World)) (world : World) (calls : List Call) :
    let index := BlockIndex.ofSignature signature
    let target := calls.flatMap Call.bytes
    let script := Matching.greedy index options target
    ∃ session summary ended,
      start index options (Listener.among front back) (world, Script.empty) = .ok session ∧
      (finalize (afterAll calls session) = .ok summary ended ∨
        ∃ failures, finalize (afterAll calls session) = .error (.listeners failures) ended) ∧
      ended.world.2 = script ∧
      summary.targetLength = target.length ∧
      summary.literalBytes = script.literalBytes ∧
      summary.copyBytes = script.copyBytes ∧
      ((∀ listener ∈ front ++ back, listener.Reliable) →
        performAll calls session = .ok () (afterAll calls session) ∧
          finalize (afterAll calls session) = .ok summary ended) := by
  intro index target script
  obtain ⟨session, started, begun⟩ :=
    start_fed signature options (Listener.among front back) (world, Script.empty)
  obtain ⟨told, fed, performed⟩ := begun.performAll calls
  rw [List.nil_append] at fed performed
  obtain ⟨ended, deltas, whole, reached, outcome, finished⟩ := fed.finalize
  have same : script = Reference.script signature options target :=
    Matching.script_of_greedy signature options target
  obtain ⟨literals, copies⟩ := summaryOf_totals signature options target
  refine ⟨session, summaryOf signature options target, ended, started, outcome, ?_, rfl, ?_, ?_, ?_⟩
  · rw [reached, Listener.tellAll_among, Script.extend_empty, same, Reference.script_eq]
  · rw [literals, same]
  · rw [copies, same]
  · intro reliable
    have silent := Listener.deliverAll_of_reliable (Listener.reliable_among reliable)
    exact ⟨performed (silent _ _ _), finished (silent _ _ _)⟩

/-- A window whose bytes come in two calls is copied, and the collector is told of it behind another
listener, which counts the deltas. -/
theorem collected_eq_greedy_beside_counting :
    let block : Block := ⟨.ofBytes [1, 2], Strong.Spec.standard.sum [1, 2], 0, 0⟩
    let signature : Signature := ⟨⟨⟨2, by decide, by decide⟩, 0, 1⟩, .standard, [block], 2⟩
    let counting : Listener Nat := ⟨fun _ count => (none, count + 1)⟩
    let calls : List Call := [.byte 7, .chunk [1], .chunk [2, 9]]
    ∃ session summary ended,
      start (.ofSignature signature) {} (Listener.among [counting] []) (0, Script.empty) =
          .ok session ∧
        counting.Reliable ∧
        performAll calls session = .ok () (afterAll calls session) ∧
        finalize (afterAll calls session) = .ok summary ended ∧
        ended.world.2 = ⟨[.literal 3 [9], .copy 0 1 2, .literal 0 [7]], 2, 2⟩ ∧
        summary.targetLength = 4 ∧ summary.literalBytes = 2 ∧ summary.copyBytes = 2 := by
  intro block signature counting calls
  have script : Matching.greedy (.ofSignature signature) {} (calls.flatMap Call.bytes) =
      ⟨[.literal 3 [9], .copy 0 1 2, .literal 0 [7]], 2, 2⟩ := by cbv
  have silent : counting.Reliable := fun _ _ => rfl
  obtain ⟨session, summary, ended, started, -, collected, length, literals, copies, reliable⟩ :=
    collected_eq_greedy signature {} [counting] [] 0 calls
  rw [script] at collected literals copies
  obtain ⟨performed, finished⟩ := reliable (List.forall_mem_singleton.2 silent)
  exact ⟨session, summary, ended, started, silent, performed, finished, collected, length,
    literals, copies⟩

end Session

end BlockDelta
