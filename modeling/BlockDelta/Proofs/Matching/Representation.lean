import BlockDelta.Proofs.Matching.Histories
import BlockDelta.Proofs.Matching.Soundness

/-!
# What a matcher stands for

Between any two requests a matcher represents the target fed so far: the deltas
handed out tile a front of it and say truly what stands there, the pending bytes
and the window are the rest, the window is not a block, and the totals count all
of this. Once the target has ended, the deltas tile it as a whole.
-/

namespace BlockDelta

variable {World : Type}

namespace Session

/-- While a target is fed, the deltas handed out stand for a front of the bytes
consumed, and what is held is the rest of them. -/
structure Accumulated (signature : Signature) (options : MatchOptions) (history : History)
    (matcher : StreamMatcher World) : Prop where
  /-- The target is being fed. -/
  accumulating : matcher.phase = .accumulating
  /-- The deltas tile the front. -/
  tiles : Delta.Tiles 0 history.told matcher.emitted
  /-- Each delta says truly what stands at its place. -/
  describe : ∀ delta ∈ history.told, Reference.Describes signature options history.consumed delta
  /-- The front is one. -/
  front : matcher.emitted ≤ history.consumed.length
  /-- The pending bytes and the window's content are the rest. -/
  held : matcher.pending.reverse ++ matcher.window.toList = history.consumed.drop matcher.emitted
  /-- The pending bytes are counted. -/
  counted : matcher.pendingLength = matcher.pending.length
  /-- The pending bytes do not fill a literal. -/
  short : matcher.pending.length < options.maxLiteral
  /-- The window holds no more than a block. -/
  narrow : matcher.window.toList.length ≤ signature.layout.blockLength.toNat
  /-- The window's bytes are counted. -/
  length : matcher.window.length = matcher.window.toList.length
  /-- The window's sums are those of its content. -/
  fresh : matcher.window.sum = Rolling.Sum.ofBytes matcher.window.toList
  /-- A full window agrees with no block in length and both sums. -/
  unmatched : matcher.window.length = signature.layout.blockLength.toNat →
    Reference.candidates signature matcher.window.toList = []
  /-- The bytes consumed are counted. -/
  targetLength : matcher.summary.targetLength = history.consumed.length
  /-- The bytes handed out are counted. -/
  described : matcher.summary.literalBytes + matcher.summary.copyBytes = matcher.emitted
  /-- The deltas are counted. -/
  deltas : matcher.summary.deltas = history.told.length

/-- Once a target has ended, the deltas handed out stand for all bytes consumed,
and nothing is held. -/
structure Concluded (signature : Signature) (options : MatchOptions) (history : History)
    (matcher : StreamMatcher World) : Prop where
  /-- The target has ended. -/
  finalized : matcher.phase = .finalized
  /-- The deltas tile the target. -/
  tiles : Delta.Tiles 0 history.told history.consumed.length
  /-- Each delta says truly what stands at its place. -/
  describe : ∀ delta ∈ history.told, Reference.Describes signature options history.consumed delta
  /-- Nothing is pending. -/
  pending : matcher.pending = []
  /-- The window holds nothing. -/
  window : matcher.window.toList = []
  /-- The bytes consumed are counted. -/
  targetLength : matcher.summary.targetLength = history.consumed.length
  /-- All of them were handed out. -/
  described : matcher.summary.literalBytes + matcher.summary.copyBytes =
    matcher.summary.targetLength
  /-- The deltas are counted. -/
  deltas : matcher.summary.deltas = history.told.length

variable {signature : Signature} {options : MatchOptions} {history : History}
variable {fed content : Bytes} {told : List Delta} {session : Session World}

/-- A window that is matched by no block has no candidate. -/
theorem candidates_of_unmatched {last : Option UInt32} {window : Bytes}
    (unmatched : Reference.matched? signature last window = none) :
    Reference.candidates signature window = [] := by
  rw [Reference.matched?, Option.orElse_eq_none] at unmatched
  exact List.head?_eq_none_iff.mp unmatched.2

/-- What an open session has handed out comes first in the policy's deltas for the bytes fed. -/
theorem Open.told_prefix (between : Open signature options fed told content session) :
    ∃ rest, Reference.deltas signature options fed = told ++ rest := by
  have onward := between.onward []
  rw [List.append_nil, ← Reference.layOut_eq_eagerly] at onward
  exact ⟨_, onward⟩

/-- An open session stands for the bytes fed. -/
theorem Open.accumulated (between : Open signature options fed told content session)
    (small : fed.length < UInt64.size) :
    Accumulated signature options ⟨fed, told, false⟩ session.matcher := by
  -- The deltas handed out are the front of a list that tiles all bytes fed.
  obtain ⟨rest, whole⟩ := between.told_prefix
  obtain ⟨tiles, describe⟩ := Reference.deltas_describe signature options small
  rw [whole] at tiles describe
  obtain ⟨described, split, reached⟩ := between.held
  have queue : session.matcher.window.toList = content := between.window.queue
  have emitted : session.matcher.emitted = Delta.totalLength told :=
    between.described.trans (Delta.literalTotal_add_copyTotal told)
  have front := tiles.front
  rw [Nat.zero_add, ← emitted] at front
  refine
    { accumulating := between.accumulating
      tiles := front
      describe := fun delta among => describe delta (List.mem_append_left _ among)
      front := ?_
      held := ?_
      counted := between.counted
      short := between.short
      narrow := ?_
      length := ?_
      fresh := ?_
      unmatched := ?_
      targetLength := ?_
      described := ?_
      deltas := ?_ }
  · rw [split, ← reached, List.length_append]
    exact Nat.le_add_right ..
  · rw [queue, split, ← reached, List.drop_left]
  · rw [queue]
    exact between.narrow
  · rw [queue]
    exact between.window.length_eq
  · rw [queue]
    exact between.window.sums
  · intro full
    rw [between.window.length_eq] at full
    rw [queue]
    exact candidates_of_unmatched (between.looked full)
  · rw [between.totals]
    rfl
  · rw [between.totals, between.described]
    simp only [Summary.count, Nat.zero_add]
  · rw [between.totals]
    simp only [Summary.count, Nat.zero_add]

/-- A session whose target has ended stands for all bytes fed. -/
theorem Ended.concluded (ended : Ended signature options fed session)
    (whole : told = Reference.deltas signature options fed) (small : fed.length < UInt64.size) :
    Concluded signature options ⟨fed, told, true⟩ session.matcher := by
  obtain ⟨tiles, describe⟩ := Reference.deltas_describe signature options small
  rw [← whole] at tiles describe
  have totals := ended.totals
  rw [← whole] at totals
  have total : Delta.literalTotal told + Delta.copyTotal told = fed.length := by
    rw [Delta.literalTotal_add_copyTotal, ← tiles.totalLength, Nat.zero_add]
  refine ⟨ended.finalized, tiles, describe, ended.pending, ended.window.queue, ?_, ?_, ?_⟩
  · rw [totals]
    rfl
  · rw [totals]
    simp only [Summary.count, Nat.zero_add, total]
  · rw [totals]
    simp only [Summary.count, Nat.zero_add]

/-- Whatever was done with a session, it stands for what it has been through
since its target began, as long as that can be counted: between two bytes for a
front of it and the rest, at its end for all of it. And at its end it refuses,
without any change, all but a new target. -/
theorem represents_history (signature : Signature) (options : MatchOptions)
    (acts : List (Act World)) (world : World) :
    ∃ session, start (BlockIndex.ofSignature signature) options [] world = .ok session ∧
      let history := History.empty.through acts session
      let reached := actAll acts session
      (history.consumed.length < UInt64.size →
        (history.ended = false → Accumulated signature options history reached.matcher) ∧
          (history.ended = true → Concluded signature options history reached.matcher)) ∧
      (history.ended = true → ∀ request : Request, request ≠ .reset →
        request.perform reached = .error .finalized reached) := by
  obtain ⟨session, started, begun, -⟩ := start_reached signature options world
  refine ⟨session, started, ?_⟩
  have stands := (begun.through acts).stands
  intro history reached
  change Stands signature options history reached at stands
  generalize history = through at stands ⊢
  obtain ⟨consumed, told, ended⟩ := through
  rcases stands with ⟨goesOn, content, between⟩ | ⟨closed, finished, whole⟩
  · obtain rfl : ended = false := goesOn
    exact ⟨fun small => ⟨fun _ => between.accumulated small, nofun⟩, nofun⟩
  · obtain rfl : ended = true := closed
    refine ⟨fun small => ⟨nofun, fun _ => finished.concluded whole small⟩, ?_⟩
    intro _ request other
    refine Request.perform_of_refused ?_
    rw [isFinalized, finished.finalized]
    cases request with
    | reset => exact absurd rfl other
    | _ => rfl

/-- A byte is passed over, and the target ends behind the next one. -/
theorem represents_history_of_two :
    let signature : Signature := ⟨⟨⟨2, by decide, by decide⟩, 0, 0⟩, .standard, [], 0⟩
    let acts : List (Act Unit) :=
      [.request (.feed (.byte 7)), .request (.read [.interrupted, .data [8]]), .request .finalize]
    ∃ session, start (BlockIndex.ofSignature signature) {} [] () = .ok session ∧
      let history := History.empty.through acts session
      history.consumed = [7, 8] ∧ history.told = [.literal 0 [7, 8]] ∧
        Concluded signature {} history (actAll acts session).matcher ∧
        Request.perform (.feed (.byte 9)) (actAll acts session) =
          .error .finalized (actAll acts session) := by
  intro signature acts
  obtain ⟨session, started, stands, refuses⟩ := represents_history signature {} acts ()
  obtain rfl := Except.ok.inj started
  refine ⟨_, started, ?_⟩
  intro history
  have consumed : history.consumed = [7, 8] := by cbv
  have told : history.told = [.literal 0 [7, 8]] := by cbv
  have ended : history.ended = true := by cbv
  have small : history.consumed.length < UInt64.size := by
    rw [consumed]
    decide
  have other : Request.feed (.byte 9) ≠ .reset := by
    intro same
    cases same
  exact ⟨consumed, told, (stands small).2 ended, refuses ended _ other⟩

end Session

end BlockDelta
