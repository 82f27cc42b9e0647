import BlockDelta.Proofs.Matching.Refinement
import BlockDelta.Proofs.Matching.Telling
import BlockDelta.Proofs.Rolling.Queue
import BlockDelta.Proofs.Running

/-!
# A target that arrives in pieces is matched as a whole

A session sees one byte at a time and cannot look ahead. `Session.Open` is what
holds between any two bytes: whatever comes, the naive policy on the whole
target hands out what the session has handed out, and then goes on from the
pending bytes and the window. One byte keeps it (`Open.ingest`), hence every
run of calls does, and at the end of the target nothing is left to come.
-/

namespace BlockDelta

open Reference

variable {World : Type}

namespace Session

/-- One session comes from another by telling its listeners of deltas. -/
structure Tells (before after : Session World) (deltas : List Delta) : Prop where
  /-- The listeners stay. -/
  listeners : after.matcher.listeners = before.matcher.listeners
  /-- Failures and world are those that the listeners leave. -/
  told : (after.matcher.failures, after.world) =
    Listener.deliverAll before.matcher.listeners deltas before.matcher.failures before.world

/-- Telling goes on. -/
theorem Tells.trans {first second third : Session World} {front back : List Delta}
    (head : Tells first second front) (tail : Tells second third back) :
    Tells first third (front ++ back) := by
  refine ⟨tail.listeners.trans head.listeners, ?_⟩
  rw [tail.told, Listener.deliverAll_append, ← head.told, head.listeners]

/-- The deltas that come when given steps lie ahead. -/
def ahead (session : Session World) (options : MatchOptions) (steps : List Step) : List Delta :=
  layOutEagerly options session.matcher.emitted session.matcher.pending.reverse steps

/-- The bytes fed, the deltas handed out and the window's content, as a session keeps them. -/
structure Tracks (signature : Signature) (options : MatchOptions) (fed : Bytes)
    (told : List Delta) (content : Bytes) (session : Session World) : Prop where
  /-- The blocks are those of the signature. -/
  index : session.matcher.index = BlockIndex.ofSignature signature
  /-- The bound is the one chosen. -/
  bound : session.matcher.options = options
  /-- The window holds the content. -/
  window : session.matcher.window.Holds signature.layout.blockLength.toNat content
  /-- The content fits the window. -/
  narrow : content.length ≤ signature.layout.blockLength.toNat
  /-- Pending bytes are counted. -/
  counted : session.matcher.pendingLength = session.matcher.pending.length
  /-- Pending bytes do not fill a literal. -/
  short : session.matcher.pending.length < options.maxLiteral
  /-- The target has not ended. -/
  accumulating : session.matcher.phase = .accumulating
  /-- The totals are those of the bytes and of the deltas. -/
  totals : session.matcher.summary = (Summary.mk fed.length 0 0 0).count told
  /-- The deltas describe this much of the target. -/
  described : session.matcher.emitted = Delta.literalTotal told + Delta.copyTotal told

/-- Nothing is pending any more. -/
def cleared (session : Session World) : Session World :=
  { session with matcher := { session.matcher with pending := [], pendingLength := 0 } }

variable {signature : Signature} {options : MatchOptions} {fed content : Bytes}
variable {told : List Delta} {session : Session World}

/-- Deltas handed out are told. -/
theorem tells_emitAll (session : Session World) (deltas : List Delta) :
    Tells session (session.emitAll deltas) deltas := by
  rw [emitAll_eq]
  exact ⟨rfl, rfl⟩

/-- Deltas handed out are tracked. -/
theorem Tracks.emitAll (tracks : Tracks signature options fed told content session)
    (deltas : List Delta) :
    Tracks signature options fed (told ++ deltas) content (session.emitAll deltas) := by
  rw [emitAll_eq]
  refine { tracks with totals := ?_, described := ?_ }
  · rw [tracks.totals]
    simp [Summary.count, Delta.literalTotal_append, Delta.copyTotal_append]
  · have described := tracks.described
    rw [Delta.literalTotal_append, Delta.copyTotal_append]
    change session.matcher.emitted + _ = _
    omega

/-- Pending bytes that are dropped leave all else tracked. -/
theorem Tracks.cleared (tracks : Tracks signature options fed told content session) :
    Tracks signature options fed told content session.cleared :=
  { tracks with counted := rfl, short := options.positive }

/-- Flushing hands the pending bytes out as a literal. -/
theorem flushPending_eq (counted : session.matcher.pendingLength = session.matcher.pending.length) :
    session.flushPending =
      session.cleared.emitAll
        (pendingLiteral session.matcher.emitted session.matcher.pending.reverse) := by
  cases pending : session.matcher.pending with
  | nil =>
    rw [pending, List.length_nil] at counted
    have unchanged : session.cleared = session := by
      rw [Session.cleared, ← pending, ← counted]
    rw [flushPending, pending, unchanged]
    rfl
  | cons byte rest =>
    rw [List.reverse_cons, pendingLiteral_concat, ← List.reverse_cons]
    simp only [flushPending, pending]
    rfl

/-- The totals of a literal are its bytes. -/
theorem totals_pendingLiteral (start : Nat) (pending : Bytes) :
    Delta.literalTotal (pendingLiteral start pending) = pending.length ∧
      Delta.copyTotal (pendingLiteral start pending) = 0 := by
  cases pending <;> exact ⟨rfl, rfl⟩

/-- What is told after pending bytes were dropped is told from where they were pending. -/
theorem tells_cleared_emitAll (session : Session World) (deltas : List Delta) :
    Tells session (session.cleared.emitAll deltas) deltas := by
  obtain ⟨listeners, told⟩ := tells_emitAll session.cleared deltas
  exact ⟨listeners, told⟩

/-- A byte that becomes pending hands a literal out when it completes one. -/
theorem Tracks.pushPending_eq (tracks : Tracks signature options fed told content session)
    (byte : UInt8) :
    session.pushPending byte =
      if session.matcher.pending.length + 1 = options.maxLiteral then
        session.cleared.emitAll
          (pendingLiteral session.matcher.emitted (session.matcher.pending.reverse ++ [byte]))
      else
        { session with
          matcher :=
            { session.matcher with
              pending := byte :: session.matcher.pending
              pendingLength := session.matcher.pendingLength + 1 } } := by
  have short := tracks.short
  have reached : session.matcher.options.maxLiteral ≤ session.matcher.pendingLength + 1 ↔
      session.matcher.pending.length + 1 = options.maxLiteral := by
    rw [tracks.bound, tracks.counted]
    omega
  rw [Session.pushPending]
  simp only [reached]
  by_cases complete : session.matcher.pending.length + 1 = options.maxLiteral
  · have counted : session.matcher.pendingLength + 1 = session.matcher.pending.length + 1 := by
      rw [tracks.counted]
    rw [if_pos complete, if_pos complete, flushPending_eq counted, List.reverse_cons]
    rfl
  · rw [if_neg complete, if_neg complete]

/-- A byte that becomes pending is what the policy passes over. -/
theorem Tracks.pushPending (tracks : Tracks signature options fed told content session)
    (byte : UInt8) :
    ∃ deltas, Tells session (session.pushPending byte) deltas ∧
      Tracks signature options fed (told ++ deltas) content (session.pushPending byte) ∧
      (session.pushPending byte).matcher.last = session.matcher.last ∧
      ∀ rest, session.ahead options (.passed byte :: rest) =
        deltas ++ (session.pushPending byte).ahead options rest := by
  rw [tracks.pushPending_eq]
  by_cases complete : session.matcher.pending.length + 1 = options.maxLiteral
  · rw [if_pos complete]
    refine ⟨_, tells_cleared_emitAll session _, tracks.cleared.emitAll _, ?_, ?_⟩
    · rw [emitAll_eq]
      rfl
    · intro rest
      obtain ⟨literals, copies⟩ := totals_pendingLiteral session.matcher.emitted
        (session.matcher.pending.reverse ++ [byte])
      rw [emitAll_eq, literals, copies, pendingLiteral_concat]
      simp only [ahead, layOutEagerly, List.length_reverse, if_pos complete, List.length_append,
        List.length_singleton]
      rfl
  · have short := tracks.short
    rw [if_neg complete]
    refine ⟨[], ⟨rfl, rfl⟩, ?_, rfl, ?_⟩
    · rw [List.append_nil]
      refine { tracks with counted := congrArg (· + 1) tracks.counted, short := ?_ }
      simp only [List.length_cons]
      omega
    · intro rest
      simp only [ahead, layOutEagerly, List.length_reverse, if_neg complete, List.reverse_cons,
        List.nil_append]

/-- What a window that is copied hands out: what is pending, then the copy. -/
def copyDeltas (session : Session World) (block : Block) (length : Nat) : List Delta :=
  pendingLiteral session.matcher.emitted session.matcher.pending.reverse ++
    [.copy block.offset (UInt64.ofNat (session.matcher.emitted + session.matcher.pending.length))
      (UInt32.ofNat length)]

/-- A session in another phase. -/
def inPhase (session : Session World) (phase : Phase) : Session World :=
  { session with matcher := { session.matcher with phase } }

/-- A window that was copied is empty, and its block is the last one. -/
def settle (session : Session World) (block : Block) : Session World :=
  { session with
    matcher :=
      { session.matcher with
        last := some block.number
        window := session.matcher.window.clear
        phase := .accumulating } }

/-- A window that is copied is handed out behind what is pending. -/
theorem Tracks.copyWindow_eq (tracks : Tracks signature options fed told content session)
    (block : Block) :
    session.copyWindow block =
      (session.cleared.emitAll (session.copyDeltas block content.length)).settle block := by
  have measured : session.matcher.window.length = content.length := tracks.window.length_eq
  obtain ⟨literals, copies⟩ := totals_pendingLiteral session.matcher.emitted
    session.matcher.pending.reverse
  let flushed := session.cleared.emitAll
    (pendingLiteral session.matcher.emitted session.matcher.pending.reverse)
  have handed : (session.inPhase .flushing).flushPending = flushed.inPhase .flushing := by
    have counted : (session.inPhase .flushing).matcher.pendingLength =
        (session.inPhase .flushing).matcher.pending.length := tracks.counted
    rw [flushPending_eq counted]
    simp only [flushed, emitAll_eq]
    rfl
  have reached : flushed.matcher.emitted =
      session.matcher.emitted + session.matcher.pending.length := by
    simp only [flushed, emitAll_eq, literals, copies, List.length_reverse]
    rfl
  have kept : flushed.matcher.window.length = content.length := by
    simp only [flushed, emitAll_eq]
    exact measured
  have opened : session.copyWindow block =
      ((session.inPhase .flushing).flushPending.emit
        (.copy block.offset
          (UInt64.ofNat (session.inPhase .flushing).flushPending.matcher.emitted)
          (UInt32.ofNat (session.inPhase .flushing).flushPending.matcher.window.length))).settle
        block :=
    rfl
  rw [opened, handed]
  change (flushed.emit (.copy block.offset (UInt64.ofNat flushed.matcher.emitted)
    (UInt32.ofNat flushed.matcher.window.length))).settle block = _
  rw [reached, kept, copyDeltas, Session.emitAll, List.foldl_append]
  rfl

/-- The totals of a copied window are its bytes and what was pending. -/
theorem totals_copyDeltas (session : Session World) (block : Block) (length : Nat)
    (fits : length < UInt32.size) :
    Delta.literalTotal (session.copyDeltas block length) +
        Delta.copyTotal (session.copyDeltas block length) =
      session.matcher.pending.length + length := by
  obtain ⟨literals, copies⟩ := totals_pendingLiteral session.matcher.emitted
    session.matcher.pending.reverse
  have whole : (UInt32.ofNat length).toNat = length := UInt32.toNat_ofNat_of_lt' fits
  rw [copyDeltas, Delta.literalTotal_append, Delta.copyTotal_append, literals, copies,
    List.length_reverse]
  change _ + 0 + (0 + (UInt32.ofNat length).toNat) = _
  omega

/-- A window that is copied is what the policy copies. -/
theorem Tracks.copyWindow (tracks : Tracks signature options fed told content session)
    (block : Block) :
    ∃ deltas, Tells session (session.copyWindow block) deltas ∧
      Tracks signature options fed (told ++ deltas) [] (session.copyWindow block) ∧
      (session.copyWindow block).matcher.last = some block.number ∧
      ∀ rest, session.ahead options (.copied block content.length :: rest) =
        deltas ++ (session.copyWindow block).ahead options rest := by
  have fits : content.length < UInt32.size :=
    Nat.lt_of_le_of_lt tracks.narrow signature.layout.blockLength.fits
  have totals := totals_copyDeltas session block content.length fits
  have handed := tracks.cleared.emitAll (session.copyDeltas block content.length)
  obtain ⟨listeners, reached⟩ :=
    tells_cleared_emitAll session (session.copyDeltas block content.length)
  rw [tracks.copyWindow_eq]
  refine ⟨session.copyDeltas block content.length, ⟨listeners, reached⟩, ?_, rfl, ?_⟩
  · exact ⟨handed.index, handed.bound, handed.window.clear, Nat.zero_le _, handed.counted,
      handed.short, rfl, handed.totals, handed.described⟩
  · intro rest
    rw [emitAll_eq, totals]
    simp only [ahead, layOutEagerly, List.length_reverse, copyDeltas, List.append_assoc,
      List.singleton_append, Nat.add_assoc]
    rfl

/-- The pending bytes and the content are what lies behind the deltas handed out. -/
def Holding (session : Session World) (fed content : Bytes) : Prop :=
  ∃ described, fed = described ++ (session.matcher.pending.reverse ++ content) ∧
    described.length = session.matcher.emitted

/-- A byte that becomes pending or completes a literal is held or handed out. -/
theorem Tracks.pushPending_holding
    (tracks : Tracks signature options fed told content session) (byte : UInt8) {inside : Bytes}
    (held : session.Holding fed (byte :: inside)) :
    (session.pushPending byte).Holding fed inside := by
  obtain ⟨described, whole, reached⟩ := held
  rw [tracks.pushPending_eq]
  by_cases complete : session.matcher.pending.length + 1 = options.maxLiteral
  · rw [if_pos complete]
    obtain ⟨literals, copies⟩ := totals_pendingLiteral session.matcher.emitted
      (session.matcher.pending.reverse ++ [byte])
    refine ⟨described ++ (session.matcher.pending.reverse ++ [byte]), ?_, ?_⟩
    · rw [whole, emitAll_eq]
      simp [Session.cleared]
    · rw [emitAll_eq, literals, copies, List.length_append, reached]
      rfl
  · rw [if_neg complete]
    refine ⟨described, ?_, reached⟩
    rw [whole]
    simp

/-- A window that is copied leaves nothing to be held. -/
theorem Tracks.copyWindow_holding
    (tracks : Tracks signature options fed told content session) (block : Block)
    (held : session.Holding fed content) : (session.copyWindow block).Holding fed [] := by
  obtain ⟨described, whole, reached⟩ := held
  have fits : content.length < UInt32.size :=
    Nat.lt_of_le_of_lt tracks.narrow signature.layout.blockLength.fits
  have totals := totals_copyDeltas session block content.length fits
  refine ⟨fed, ?_, ?_⟩
  · rw [tracks.copyWindow_eq, emitAll_eq]
    simp [settle, Session.cleared]
  · rw [tracks.copyWindow_eq, emitAll_eq, totals, whole, List.length_append, List.length_append,
      List.length_reverse, reached]
    rfl

/-- What the naive policy hands out on the whole target is what has been handed
out, and then what comes from the pending bytes and the window on. -/
structure Faithful (signature : Signature) (options : MatchOptions) (fed : Bytes)
    (told : List Delta) (content : Bytes) (session : Session World) : Prop
    extends Tracks signature options fed told content session where
  /-- Whatever is still to be fed, the policy goes on from here. -/
  onward : ∀ rest, layOutEagerly options 0 [] (steps signature none (fed ++ rest)) =
    told ++ session.ahead options (steps signature session.matcher.last (content ++ rest))
  /-- What is not handed out yet is held. -/
  held : session.Holding fed content

/-- What holds between any two bytes of the target. -/
structure Open (signature : Signature) (options : MatchOptions) (fed : Bytes)
    (told : List Delta) (content : Bytes) (session : Session World) : Prop
    extends Faithful signature options fed told content session where
  /-- A full window has been looked up in vain. -/
  looked : content.length = signature.layout.blockLength.toNat →
    matched? signature session.matcher.last content = none

/-- The window is looked up as the naive policy does it. -/
theorem Tracks.windowMatch?_eq (tracks : Tracks signature options fed told content session) :
    session.windowMatch? = matched? signature session.matcher.last content := by
  have looked := findWith?_eq_matched? signature session.matcher.last content
    (fun _ => session.matcher.window.slices) tracks.window.slices_eq
  rw [windowMatch?, tracks.index, tracks.window.sums, tracks.window.length_eq]
  exact looked

/-- A window without a block stays. -/
theorem Tracks.tryMatch_of_unmatched (tracks : Tracks signature options fed told content session)
    (found : matched? signature session.matcher.last content = none) :
    session.tryMatch = (false, session) := by
  rw [tryMatch, tracks.windowMatch?_eq, found]

/-- A window with a block is copied. -/
theorem Tracks.tryMatch_of_matched (tracks : Tracks signature options fed told content session)
    {block : Block} (found : matched? signature session.matcher.last content = some block) :
    session.tryMatch = (true, session.copyWindow block) := by
  rw [tryMatch, tracks.windowMatch?_eq, found]

/-- Looking up a full window leaves a session between two bytes. -/
theorem Faithful.look (faithful : Faithful signature options fed told content session)
    (full : content.length = signature.layout.blockLength.toNat) :
    ∃ deltas left, Tells session session.tryMatch.2 deltas ∧
      Open signature options fed (told ++ deltas) left session.tryMatch.2 := by
  have positive := signature.layout.blockLength.positive
  cases found : matched? signature session.matcher.last content with
  | none =>
    rw [faithful.tryMatch_of_unmatched found]
    refine ⟨[], content, ⟨rfl, rfl⟩, ?_⟩
    rw [List.append_nil]
    exact ⟨faithful, fun _ => found⟩
  | some block =>
    obtain ⟨deltas, tells, tracks, last, onward⟩ := faithful.copyWindow block
    rw [faithful.tryMatch_of_matched found]
    refine ⟨deltas, [], tells, ⟨tracks, ?_, faithful.copyWindow_holding block faithful.held⟩, ?_⟩
    · intro rest
      have window : (content ++ rest).take signature.layout.blockLength.toNat = content :=
        List.take_left' full
      have filled : content ++ rest ≠ [] := by
        intro empty
        rw [List.append_eq_nil_iff.mp empty |>.1] at full
        simp only [List.length_nil] at full
        omega
      have step := steps_of_matched signature session.matcher.last filled
        (by rw [window]; exact found)
      rw [window, List.drop_left] at step
      rw [faithful.onward, step, onward, last, List.append_assoc]
      rfl
    · intro empty
      simp only [List.length_nil] at empty
      omega

/-- A session that has counted a byte and taken it into its window. -/
def entered (session : Session World) (window : Rolling.Window) : Session World :=
  { session with
    matcher :=
      { session.matcher with
        summary :=
          { session.matcher.summary with
            targetLength := session.matcher.summary.targetLength + 1 }
        window } }

/-- A byte that enters is tracked. -/
theorem Tracks.entered (tracks : Tracks signature options fed told content session) (byte : UInt8)
    {window : Rolling.Window} {inside : Bytes}
    (holds : window.Holds signature.layout.blockLength.toNat inside)
    (narrow : inside.length ≤ signature.layout.blockLength.toNat) :
    Tracks signature options (fed ++ [byte]) told inside (session.entered window) := by
  refine { tracks with window := holds, narrow, totals := ?_ }
  rw [Session.entered, tracks.totals, List.length_append]
  rfl

/-- A byte that enters is held. -/
theorem Holding.entered (held : session.Holding fed content) (byte : UInt8)
    (window : Rolling.Window) :
    (session.entered window).Holding (fed ++ [byte]) (content ++ [byte]) := by
  obtain ⟨described, whole, reached⟩ := held
  refine ⟨described, ?_, reached⟩
  rw [whole, List.append_assoc, List.append_assoc]
  rfl

/-- A byte joins a window with room for it. -/
theorem Open.enter_free (between : Open signature options fed told content session) (byte : UInt8)
    (room : content.length < signature.layout.blockLength.toNat) :
    ∃ window, session.matcher.window.push byte = .ok (none, window) ∧
      Faithful signature options (fed ++ [byte]) told (content ++ [byte])
        (session.entered window) := by
  obtain ⟨window, pushed, holds⟩ := between.window.push_free byte room
  have narrow : (content ++ [byte]).length ≤ signature.layout.blockLength.toNat := by
    rw [List.length_append]
    exact room
  refine ⟨window, pushed, between.toTracks.entered byte holds narrow, fun rest => ?_,
    between.held.entered byte window⟩
  have step := between.onward (byte :: rest)
  rw [List.append_assoc, List.append_assoc]
  exact step

/-- A byte pushes the oldest one out of a full window, and the policy passes that one over. -/
theorem Open.enter_full {oldest : UInt8} {more : Bytes}
    (between : Open signature options fed told (oldest :: more) session) (byte : UInt8)
    (full : (oldest :: more).length = signature.layout.blockLength.toNat) :
    ∃ window deltas, session.matcher.window.push byte = .ok (some oldest, window) ∧
      Tells session ((session.entered window).pushPending oldest) deltas ∧
      Faithful signature options (fed ++ [byte]) (told ++ deltas) (more ++ [byte])
        ((session.entered window).pushPending oldest) := by
  obtain ⟨window, pushed, holds⟩ := between.window.push_full byte full
    signature.layout.blockLength.toNat_le_longestWindow
  have narrow : (more ++ [byte]).length ≤ signature.layout.blockLength.toNat := by
    rw [List.length_append]
    exact Nat.le_of_eq full
  have entered := between.toTracks.entered byte holds narrow
  obtain ⟨deltas, tells, tracks, last, onward⟩ := entered.pushPending oldest
  have held := entered.pushPending_holding oldest (between.held.entered byte window)
  refine ⟨window, deltas, pushed, ⟨tells.listeners, tells.told⟩, tracks, fun rest => ?_, held⟩
  have passed : steps signature session.matcher.last (oldest :: (more ++ byte :: rest)) =
      .passed oldest :: steps signature session.matcher.last (more ++ byte :: rest) := by
    refine steps_of_unmatched signature session.matcher.last ?_
    rw [← List.cons_append, List.take_left' full]
    exact between.looked full
  have before := between.onward (byte :: rest)
  rw [List.cons_append, passed] at before
  rw [List.append_assoc, List.append_assoc, List.append_assoc, last]
  exact before.trans (congrArg (told ++ ·) (onward _))

/-- A byte enters the window, and the window is looked up once it is full. -/
theorem Open.enter (between : Open signature options fed told content session) (byte : UInt8) :
    ∃ passed deltas left,
      ingest byte session =
        (if passed.matcher.window.isFull then .ok () passed.tryMatch.2 else .ok () passed) ∧
      Tells session passed deltas ∧
      Faithful signature options (fed ++ [byte]) (told ++ deltas) left passed := by
  rcases Nat.lt_or_eq_of_le between.narrow with room | full
  · obtain ⟨window, pushed, faithful⟩ := between.enter_free byte room
    refine ⟨session.entered window, [], content ++ [byte], ?_, ⟨rfl, rfl⟩, ?_⟩
    · simp only [ingest, pushed]
      rfl
    · rw [List.append_nil]
      exact faithful
  · cases content with
    | nil => exact absurd full.symm (Nat.ne_of_gt signature.layout.blockLength.positive)
    | cons oldest more =>
      obtain ⟨window, deltas, pushed, tells, faithful⟩ := between.enter_full byte full
      refine ⟨(session.entered window).pushPending oldest, deltas, more ++ [byte], ?_, tells,
        faithful⟩
      simp only [ingest, pushed]
      rfl

/-- A byte fed keeps what holds between any two bytes. -/
theorem Open.ingest (between : Open signature options fed told content session) (byte : UInt8) :
    ∃ reached deltas left, ingest byte session = .ok () reached ∧ Tells session reached deltas ∧
      Open signature options (fed ++ [byte]) (told ++ deltas) left reached := by
  obtain ⟨passed, deltas, left, opened, tells, faithful⟩ := between.enter byte
  rw [opened, faithful.window.isFull_eq]
  by_cases full : left.length = signature.layout.blockLength.toNat
  · obtain ⟨more, last, further, between⟩ := faithful.look full
    rw [if_pos (beq_iff_eq.mpr full)]
    refine ⟨_, deltas ++ more, last, rfl, tells.trans further, ?_⟩
    rw [← List.append_assoc]
    exact between
  · rw [if_neg (by simpa using full)]
    exact ⟨passed, deltas, left, rfl, tells, faithful, fun reached => absurd reached full⟩

/-- Bytes fed keep what holds between any two bytes. -/
theorem Open.feed (between : Open signature options fed told content session) (chunk : Bytes) :
    ∃ reached deltas left, feed chunk session = .ok () reached ∧ Tells session reached deltas ∧
      Open signature options (fed ++ chunk) (told ++ deltas) left reached := by
  induction chunk generalizing session fed told content with
  | nil =>
    refine ⟨session, [], content, rfl, ⟨rfl, rfl⟩, ?_⟩
    rw [List.append_nil, List.append_nil]
    exact between
  | cons byte rest ih =>
    obtain ⟨middle, front, left, first, head, still⟩ := between.ingest byte
    obtain ⟨reached, back, last, others, tail, ended⟩ := ih still
    refine ⟨reached, front ++ back, last, ?_, head.trans tail, ?_⟩
    · rw [Session.feed, bind_of_ok first]
      exact others
    · rw [← List.append_assoc, ← List.singleton_append, ← List.append_assoc]
      exact ended

/-- What holds while the window shrinks at the end of the target: the naive
policy hands out what has been handed out, and then what comes from here on. -/
structure Closing (signature : Signature) (options : MatchOptions) (fed : Bytes)
    (told : List Delta) (content : Bytes) (session : Session World) : Prop
    extends Tracks signature options fed told content session where
  /-- The policy goes on from here to the end. -/
  rest : layOutEagerly options 0 [] (steps signature none fed) =
    told ++ session.ahead options (steps signature session.matcher.last content)

/-- A window that is no longer than a block is looked at as a whole. -/
theorem Tracks.take_content (tracks : Tracks signature options fed told content session) :
    content.take signature.layout.blockLength.toNat = content :=
  List.take_of_length_le tracks.narrow

/-- A window without a block loses its first byte. -/
theorem Closing.trimWindow {oldest : UInt8} {more : Bytes}
    (closing : Closing signature options fed told (oldest :: more) session)
    (found : matched? signature session.matcher.last (oldest :: more) = none) :
    ∃ reached deltas, trimWindow session = .ok () reached ∧ Tells session reached deltas ∧
      Closing signature options fed (told ++ deltas) more reached := by
  have narrow := closing.narrow
  have fits := signature.layout.blockLength.toNat_le_longestWindow
  simp only [List.length_cons] at narrow
  obtain ⟨trimmed, trimEq, holds⟩ := closing.window.trim_cons (by omega)
  let shorter : Session World :=
    { session with matcher := { session.matcher with window := trimmed } }
  have tracks : Tracks signature options fed told more shorter :=
    { closing.toTracks with window := holds, narrow := by omega }
  obtain ⟨deltas, tells, kept, last, onward⟩ := tracks.pushPending oldest
  have step := steps_of_unmatched signature session.matcher.last
    (by rw [closing.take_content]; exact found)
  refine ⟨shorter.pushPending oldest, deltas, ?_, ⟨tells.listeners, tells.told⟩, ⟨kept, ?_⟩⟩
  · simp only [Session.trimWindow, trimEq]
    rfl
  · have before := closing.rest
    rw [step] at before
    rw [List.append_assoc, last]
    exact before.trans (congrArg (told ++ ·) (onward _))

/-- A window that was not looked up is looked up before it shrinks. -/
theorem drainTail_succ (session : Session World) (length : Nat) :
    drainTail (length + 1) false session =
      if session.tryMatch.1 then .ok () session.tryMatch.2
      else drainTail (length + 1) true session.tryMatch.2 := by
  have begun : (get : Feeding World (Session World)) session = .ok session session := rfl
  conv_lhs => rw [Session.drainTail, bind_of_ok begun]
  cases session.tryMatch with
  | mk hit tried =>
    have stored : (set tried : Feeding World PUnit) session = .ok ⟨⟩ tried := rfl
    refine (bind_of_ok stored).trans ?_
    cases hit <;> rfl

/-- A window without a block, looked up or not, loses its first byte. -/
theorem Closing.drainTail_of_unmatched {oldest : UInt8} {more : Bytes}
    (closing : Closing signature options fed told (oldest :: more) session)
    (found : matched? signature session.matcher.last (oldest :: more) = none) (looked : Bool) :
    Session.drainTail (more.length + 1) looked session =
      (do Session.trimWindow; Session.drainTail more.length false : Feeding World Unit)
        session := by
  cases looked with
  | true => rfl
  | false =>
    rw [drainTail_succ, closing.tryMatch_of_unmatched found]
    rfl

/-- The window shrinks until it is copied or empty, and then nothing but the
pending bytes is left to come. -/
theorem Closing.drainTail (closing : Closing signature options fed told content session)
    (looked : Bool) (unmatched : looked = true →
      matched? signature session.matcher.last content = none) :
    ∃ reached deltas, drainTail content.length looked session = .ok () reached ∧
      Tells session reached deltas ∧
      Closing signature options fed (told ++ deltas) [] reached := by
  induction content generalizing session told looked with
  | nil =>
    refine ⟨session, [], ?_, ⟨rfl, rfl⟩, ?_⟩
    · cases looked <;> rfl
    · rw [List.append_nil]
      exact closing
  | cons oldest more ih =>
    rw [List.length_cons]
    cases found : matched? signature session.matcher.last (oldest :: more) with
    | none =>
      obtain ⟨middle, front, trimmed, head, still⟩ := closing.trimWindow found
      obtain ⟨reached, back, others, tail, ended⟩ := ih still false (by simp)
      refine ⟨reached, front ++ back, ?_, head.trans tail, ?_⟩
      · rw [closing.drainTail_of_unmatched found, bind_of_ok trimmed]
        exact others
      · rw [← List.append_assoc]
        exact ended
    | some block =>
      have untried : looked = false := by
        cases looked with
        | false => rfl
        | true =>
          rw [unmatched rfl] at found
          cases found
      obtain ⟨deltas, tells, tracks, last, onward⟩ := closing.copyWindow block
      refine ⟨session.copyWindow block, deltas, ?_, tells, ⟨tracks, ?_⟩⟩
      · rw [untried, drainTail_succ, closing.tryMatch_of_matched found]
        rfl
      · have step := steps_of_matched signature session.matcher.last
          (List.cons_ne_nil oldest more) (by rw [closing.take_content]; exact found)
        rw [closing.take_content, List.drop_length] at step
        rw [closing.rest, step, onward, last, List.append_assoc]

end Session

end BlockDelta
