import BlockDelta.Proofs.Matching.StreamedTarget

/-!
# Listeners never steer

Every step of matching does to a session what it does to the same session
overheard by a scribe alone, and the listeners then hear, one delta after the
other, what the scribe wrote down. So neither who listens nor who fails makes a
difference to the window, the pending bytes, the totals or the deltas.
-/

namespace BlockDelta

variable {World α β : Type}

namespace Listener

/-- A listener that writes every delta down and never fails. -/
def scribe : Listener (List Delta) where
  receive delta written := (none, written ++ [delta])

/-- A scribe alone writes all deltas down in order. -/
theorem deliverAll_scribe (deltas : List Delta) (failures : List ListenerFailure)
    (written : List Delta) :
    deliverAll [scribe] deltas failures written = (failures, written ++ deltas) := by
  induction deltas generalizing written with
  | nil =>
    rw [List.append_nil]
    rfl
  | cons delta rest ih =>
    have step : deliverAll [scribe] (delta :: rest) failures written =
        deliverAll [scribe] rest failures (written ++ [delta]) := rfl
    rw [step, ih, List.append_assoc, List.singleton_append]

end Listener

namespace Session

/-- The session with a scribe, who has written nothing yet, in place of its listeners. -/
def overheard (session : Session World) : Session (List Delta) :=
  ⟨{ session.matcher with listeners := [.scribe], failures := [] }, []⟩

/-- The session goes on as an overheard one did, and its listeners hear what the
scribe wrote down. -/
def hear (session : Session World) (heard : Session (List Delta)) : Session World :=
  let told := Listener.deliverAll session.matcher.listeners heard.world
    session.matcher.failures session.world
  ⟨{ heard.matcher with listeners := session.matcher.listeners, failures := told.1 }, told.2⟩

/-- Once overheard, a session no longer shows who listened before. -/
theorem overheard_hear (session : Session World) (heard : Session (List Delta)) :
    (session.hear heard).overheard = heard.overheard := rfl

/-- Hearing of what was written in one go and then in another is hearing of both. -/
theorem hear_hear (session : Session World) {first : Session (List Delta)}
    (alone : first.matcher.listeners = [.scribe]) (second : Session (List Delta)) :
    (session.hear first).hear second = session.hear (first.hear second) := by
  simp only [hear, alone, Listener.deliverAll_scribe, Listener.deliverAll_append]

/-- What an action comes to when it came to this on the overheard session. -/
def heardIn (session : Session World) :
    EStateM.Result StreamError (Session (List Delta)) α →
      EStateM.Result StreamError (Session World) α
  | .ok value heard => .ok value (session.hear heard)
  | .error cause heard => .error cause (session.hear heard)

/-- A step that does to any session what it does to the overheard one. -/
def ImpartialStep (step : (World : Type) → Session World → Session World) : Prop :=
  ∀ (World : Type) (session : Session World),
    step World session = session.hear (step (List Delta) session.overheard)

/-- An action that does to any session what it does to the overheard one. -/
def ImpartialAction (action : (World : Type) → Feeding World α) : Prop :=
  ∀ (World : Type) (session : Session World),
    action World session = session.heardIn (action (List Delta) session.overheard)

/-- The scribe still listens alone after a step. -/
theorem ImpartialStep.listeners {step : (World : Type) → Session World → Session World}
    (impartial : ImpartialStep step) (session : Session World) :
    (step (List Delta) session.overheard).matcher.listeners = [.scribe] := by
  rw [impartial]
  rfl

/-- The scribe still listens alone after an action. -/
theorem ImpartialAction.listeners {action : (World : Type) → Feeding World α}
    (impartial : ImpartialAction action) (session : Session World) :
    (after (action (List Delta)) session.overheard).matcher.listeners = [.scribe] := by
  have same : action (List Delta) session.overheard =
      session.overheard.heardIn (action (List Delta) session.overheard) :=
    impartial (List Delta) session.overheard
  rw [after, same]
  cases action (List Delta) session.overheard <;> rfl

/-- Steps one after the other. -/
theorem ImpartialStep.comp {first second : (World : Type) → Session World → Session World}
    (head : ImpartialStep first) (tail : ImpartialStep second) :
    ImpartialStep fun World session => second World (first World session) := by
  intro World session
  change second World (first World session) = _
  rw [head, tail, overheard_hear, hear_hear _ (head.listeners session)]
  exact congrArg session.hear (tail (List Delta) _).symm

/-- A step as an action. -/
theorem ImpartialStep.modify {step : (World : Type) → Session World → Session World}
    (impartial : ImpartialStep step) :
    ImpartialAction fun World => (modify (step World) : Feeding World Unit) :=
  fun World session => congrArg (EStateM.Result.ok ()) (impartial World session)

/-- Nothing is done. -/
theorem ImpartialAction.pure (value : α) :
    ImpartialAction fun World => (pure value : Feeding World α) :=
  fun _ _ => rfl

/-- Actions one after the other. -/
theorem ImpartialAction.bind {first : (World : Type) → Feeding World α}
    {second : α → (World : Type) → Feeding World β} (head : ImpartialAction first)
    (tail : ∀ value, ImpartialAction (second value)) :
    ImpartialAction fun World => first World >>= fun value => second value World := by
  intro World session
  -- The second action is compared at two sessions, the one heard and that one overheard anew;
  -- the scribe's listening alone is what lets the two hearings be joined.
  have alone := head.listeners session
  have same := head World session
  change (first World >>= fun value => second value World) session =
    session.heardIn ((first _ >>= fun value => second value _) session.overheard)
  cases done : first (List Delta) session.overheard with
  | error cause heard =>
    rw [done] at same
    rw [bind_of_error same, bind_of_error done]
    rfl
  | ok value heard =>
    rw [done] at same
    rw [after, done] at alone
    rw [bind_of_ok same, bind_of_ok done, tail, overheard_hear, tail value _ heard]
    cases second value (List Delta) heard.overheard with
    | ok further last => exact congrArg (EStateM.Result.ok further) (hear_hear _ alone _)
    | error cause last => exact congrArg (EStateM.Result.error cause) (hear_hear _ alone _)

/-- Pending bytes are handed out whoever listens. -/
theorem flushPending_impartial : ImpartialStep fun _ session => session.flushPending := by
  intro World session
  have same : session.overheard.matcher.pending = session.matcher.pending := rfl
  change session.flushPending = session.hear session.overheard.flushPending
  rw [flushPending, flushPending, same]
  cases session.matcher.pending <;> rfl

/-- A byte becomes pending whoever listens. -/
theorem pushPending_impartial (byte : UInt8) :
    ImpartialStep fun _ session => session.pushPending byte := by
  intro World session
  let next : Session World :=
    { session with
      matcher :=
        { session.matcher with
          pending := byte :: session.matcher.pending
          pendingLength := session.matcher.pendingLength + 1 } }
  let complete := session.matcher.options.maxLiteral ≤ session.matcher.pendingLength + 1
  change (if complete then next.flushPending else next) =
    session.hear (if complete then next.overheard.flushPending else next.overheard)
  by_cases reached : complete
  · rw [if_pos reached, if_pos reached]
    exact flushPending_impartial World next
  · rw [if_neg reached, if_neg reached]
    rfl

/-- The window is copied whoever listens. -/
theorem copyWindow_impartial (block : Block) :
    ImpartialStep fun _ session => session.copyWindow block := by
  -- A copy is three steps: into the transient phase, what is pending, and the copy itself.
  have opened : ImpartialStep fun _ session => session.inPhase .flushing := fun _ _ => rfl
  have copied : ImpartialStep fun _ session =>
      (session.emit (.copy block.offset (UInt64.ofNat session.matcher.emitted)
        (UInt32.ofNat session.matcher.window.length))).settle block := fun _ _ => rfl
  exact (opened.comp flushPending_impartial).comp copied

/-- What is found does not depend on who listens. -/
theorem tryMatch_overheard (session : Session World) :
    session.overheard.tryMatch.1 = session.tryMatch.1 := by
  have same : session.overheard.windowMatch? = session.windowMatch? := rfl
  rw [tryMatch, tryMatch, same]
  cases session.windowMatch? <;> rfl

/-- The window is looked up whoever listens. -/
theorem tryMatch_impartial : ImpartialStep fun _ session => session.tryMatch.2 := by
  intro World session
  have same : session.overheard.windowMatch? = session.windowMatch? := rfl
  change session.tryMatch.2 = session.hear session.overheard.tryMatch.2
  rw [tryMatch, tryMatch, same]
  cases session.windowMatch? with
  | none => rfl
  | some block => exact copyWindow_impartial block World session

/-- A byte that was pushed out of the window, if one was, becomes pending. -/
def passOver (session : Session World) : Option UInt8 → Session World
  | none => session
  | some oldest => session.pushPending oldest

/-- A full window is looked up. -/
def lookIfFull (session : Session World) : Session World :=
  if session.matcher.window.isFull then session.tryMatch.2 else session

/-- A byte that is taken in may push another one out, and may fill the window. -/
theorem ingest_eq (byte : UInt8) (session : Session World) :
    ingest byte session =
      match session.matcher.window.push byte with
      | .error error => .error (.rolling error) (session.entered session.matcher.window)
      | .ok (evicted, window) => .ok () ((session.entered window).passOver evicted).lookIfFull := by
  rw [ingest]
  cases session.matcher.window.push byte with
  | error error => rfl
  | ok pushed =>
    obtain ⟨evicted, window⟩ := pushed
    simp only [lookIfFull]
    rw [apply_ite (EStateM.Result.ok ())]
    cases evicted <;> rfl

/-- A byte is passed over whoever listens. -/
theorem passOver_impartial (evicted : Option UInt8) :
    ImpartialStep fun _ session => session.passOver evicted := by
  cases evicted with
  | none => exact fun _ _ => rfl
  | some oldest => exact pushPending_impartial oldest

/-- A full window is looked up whoever listens. -/
theorem lookIfFull_impartial : ImpartialStep fun _ session => session.lookIfFull := by
  intro World session
  have same : session.overheard.matcher.window = session.matcher.window := rfl
  change session.lookIfFull = session.hear session.overheard.lookIfFull
  rw [lookIfFull, lookIfFull, same]
  split
  · exact tryMatch_impartial World session
  · rfl

/-- A byte is taken in whoever listens. -/
theorem ingest_impartial (byte : UInt8) :
    ImpartialAction fun World => (ingest byte : Feeding World Unit) := by
  intro World session
  have same : session.overheard.matcher.window = session.matcher.window := rfl
  change ingest byte session = session.heardIn (ingest byte session.overheard)
  rw [ingest_eq, ingest_eq, same]
  cases session.matcher.window.push byte with
  | error error => rfl
  | ok pushed =>
    obtain ⟨evicted, window⟩ := pushed
    have taken : ImpartialStep fun _ session => session.entered window := fun _ _ => rfl
    have step := (taken.comp (passOver_impartial evicted)).comp lookIfFull_impartial
    exact congrArg (EStateM.Result.ok ()) (step World session)

/-- Bytes are taken in whoever listens. -/
theorem feed_impartial (chunk : Bytes) :
    ImpartialAction fun World => (feed chunk : Feeding World Unit) := by
  induction chunk with
  | nil => exact .pure ()
  | cons byte rest ih => exact (ingest_impartial byte).bind fun _ => ih

/-- The window loses its oldest byte whoever listens. -/
theorem trimWindow_impartial :
    ImpartialAction fun World => (trimWindow : Feeding World Unit) := by
  intro World session
  have same : session.overheard.matcher.window = session.matcher.window := rfl
  change trimWindow session = session.heardIn (trimWindow session.overheard)
  rw [trimWindow, trimWindow, same]
  cases session.matcher.window.trim with
  | error error => rfl
  | ok trimmed =>
    cases trimmed with
    | none => rfl
    | some parts =>
      obtain ⟨oldest, window⟩ := parts
      have shrunk : ImpartialStep fun _ session =>
          { session with matcher := { session.matcher with window } } := fun _ _ => rfl
      have step := shrunk.comp (pushPending_impartial oldest)
      exact congrArg (EStateM.Result.ok ()) (step World session)

/-- The window is looked up, as an action that says whether it was copied. -/
def look : Feeding World Bool := fun session => .ok session.tryMatch.1 session.tryMatch.2

/-- A window that was not looked up is looked up before it shrinks. -/
theorem drainTail_look (length : Nat) :
    (drainTail (length + 1) false : Feeding World Unit) =
      look >>= fun hit => if hit then pure () else drainTail (length + 1) true := by
  funext session
  rw [drainTail_succ]
  simp only [bind, EStateM.bind, look]
  cases session.tryMatch.1 <;> rfl

/-- The action says the same whoever listens. -/
theorem look_impartial : ImpartialAction fun World => (look : Feeding World Bool) := by
  intro World session
  change EStateM.Result.ok session.tryMatch.1 session.tryMatch.2 =
    .ok session.overheard.tryMatch.1 (session.hear session.overheard.tryMatch.2)
  rw [tryMatch_overheard]
  exact congrArg (EStateM.Result.ok session.tryMatch.1) (tryMatch_impartial World session)

/-- The window shrinks whoever listens. -/
theorem drainTail_impartial (length : Nat) (looked : Bool) :
    ImpartialAction fun World => (drainTail length looked : Feeding World Unit) := by
  induction length generalizing looked with
  | zero => exact .pure ()
  | succ length ih =>
    have shrink : ImpartialAction fun World =>
        (drainTail (length + 1) true : Feeding World Unit) :=
      trimWindow_impartial.bind fun _ => ih false
    cases looked with
    | true => exact shrink
    | false =>
      simp only [drainTail_look]
      refine look_impartial.bind fun hit => ?_
      cases hit with
      | true => exact .pure ()
      | false => exact shrink

/-- The target ends whoever listens. -/
theorem close_impartial : ImpartialAction fun World => (close : Feeding World Summary) := by
  have held : ImpartialAction fun World =>
      (fun session => .ok session.matcher.window session : Feeding World Rolling.Window) :=
    fun _ _ => rfl
  have totals : ImpartialAction fun World =>
      (fun session => .ok session.matcher.summary session : Feeding World Summary) :=
    fun _ _ => rfl
  have shut : ImpartialStep fun _ session => session.shut := fun _ _ => rfl
  exact held.bind fun window => (drainTail_impartial window.length window.isFull).bind fun _ =>
    flushPending_impartial.modify.bind fun _ => totals.bind fun summary =>
      shut.modify.bind fun _ => .pure summary

end Session

end BlockDelta
