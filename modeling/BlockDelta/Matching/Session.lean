import BlockDelta.Matching.StreamMatcher
import BlockDelta.Storage.Reader

/-!
# Matching a target that arrives in pieces

The target is fed byte by byte. A listener that fails never changes what is
matched, and the failures of one call are reported together when the call ends,
except that a failing reader drops them.
-/

namespace BlockDelta

/-- A matcher and the world of its listeners. -/
structure Session (World : Type) where
  /-- The matcher. -/
  matcher : StreamMatcher World
  /-- The world. -/
  world : World

/-- A call on a session; a failing call keeps the state it had reached. -/
abbrev Feeding (World : Type) := EStateM StreamError (Session World)

variable {World : Type}

namespace Session

/-- A session at its start, with its listeners. -/
def start (index : BlockIndex) (options : MatchOptions) (listeners : List (Listener World))
    (world : World) : Except StreamError (Session World) := do
  let matcher : StreamMatcher World ← StreamMatcher.ofIndex index options
  return ⟨{ matcher with listeners }, world⟩

/-- A delta is handed to all listeners and added to the totals. -/
def emit (session : Session World) (delta : Delta) : Session World :=
  let matcher := session.matcher
  let (failures, world) :=
    Listener.deliver delta 0 matcher.listeners matcher.failures session.world
  ⟨matcher.account delta failures, world⟩

/-- The pending bytes are handed out as a literal. -/
def flushPending (session : Session World) : Session World :=
  match session.matcher.pending with
  | [] => session
  | _ :: _ =>
    let matcher := session.matcher
    let literal := Delta.literal (UInt64.ofNat matcher.emitted) matcher.pending.reverse
    ({ session with matcher := { matcher with pending := [], pendingLength := 0 } }).emit literal

/-- A byte that left the window unmatched becomes pending. -/
def pushPending (session : Session World) (byte : UInt8) : Session World :=
  let matcher := session.matcher
  let next : Session World :=
    { session with
      matcher :=
        { matcher with
          pending := byte :: matcher.pending
          pendingLength := matcher.pendingLength + 1 } }
  if matcher.options.maxLiteral ≤ matcher.pendingLength + 1 then next.flushPending else next

/-- The window is handed out as a copy of a block, behind what is pending. -/
def copyWindow (session : Session World) (block : Block) : Session World :=
  let opened : Session World :=
    { session with matcher := { session.matcher with phase := .flushing } }
  let flushed := opened.flushPending
  let matcher := flushed.matcher
  let copy := Delta.copy block.offset (UInt64.ofNat matcher.emitted)
    (UInt32.ofNat matcher.window.length)
  let copied := flushed.emit copy
  { copied with
    matcher :=
      { copied.matcher with
        last := some block.number
        window := copied.matcher.window.clear
        phase := .accumulating } }

/-- The block that the window matches. -/
def windowMatch? (session : Session World) : Option Block :=
  let matcher := session.matcher
  matcher.index.findWith? matcher.window.sum matcher.window.length
    (fun _ => matcher.window.slices) (BlockIndex.successor matcher.last)

/-- The window is looked up and, if it matches, handed out; says whether it did. -/
def tryMatch (session : Session World) : Bool × Session World :=
  match session.windowMatch? with
  | none => (false, session)
  | some block => (true, session.copyWindow block)

/-- A byte is counted and enters the window; a full window is looked up. -/
def ingest (byte : UInt8) : Feeding World Unit := fun session =>
  let matcher := session.matcher
  let summary := { matcher.summary with targetLength := matcher.summary.targetLength + 1 }
  match matcher.window.push byte with
  | .error error => .error (.rolling error) ⟨{ matcher with summary }, session.world⟩
  | .ok (evicted, window) =>
    let entered : Session World := ⟨{ matcher with summary, window }, session.world⟩
    let passed :=
      match evicted with
      | none => entered
      | some oldest => entered.pushPending oldest
    if passed.matcher.window.isFull then .ok () passed.tryMatch.2 else .ok () passed

/-- Bytes are fed one by one. -/
def feed : Bytes → Feeding World Unit
  | [] => pure ()
  | byte :: rest => do
    ingest byte
    feed rest

/-- A finalized matcher takes nothing. -/
def ensureOpen : Feeding World Unit := do
  if (← get).matcher.phase = .finalized then throw .finalized

/-- The failures of the call are reported, all together. -/
def takeFailures : Feeding World Unit := do
  let session ← get
  match session.matcher.failures with
  | [] => pure ()
  | failures =>
    set { session with matcher := { session.matcher with failures := [] } }
    throw (.listeners failures.reverse)

/-- The failures of the call are dropped. -/
def dropFailures : Feeding World Unit :=
  modify fun session => { session with matcher := { session.matcher with failures := [] } }

/-- A byte of the target is fed. -/
def updateByte (byte : UInt8) : Feeding World Unit := do
  ensureOpen
  ingest byte
  takeFailures

/-- A chunk of the target is fed. -/
def update (chunk : Bytes) : Feeding World Unit := do
  ensureOpen
  feed chunk
  takeFailures

/-- Pieces of the target are fed one after the other until a call fails. -/
def updateEach : List Bytes → Feeding World Unit
  | [] => pure ()
  | piece :: rest => do
    update piece
    updateEach rest

/-- Everything a reader delivers is fed; counts the bytes. -/
def drain (total : Nat) : Reader → Feeding World Nat
  | [] => pure total
  | .interrupted :: rest => drain total rest
  | .failed fault :: _ => do
    dropFailures
    throw (.io fault)
  | .data [] :: _ => pure total
  | .data (byte :: bytes) :: rest => do
    feed (byte :: bytes)
    drain (total + (bytes.length + 1)) rest

/-- The target, or a part of it, is fed from a reader. -/
def consume (reader : Reader) : Feeding World Nat := do
  ensureOpen
  let total ← drain 0 reader
  takeFailures
  return total

/-- The window loses its oldest byte, which becomes pending. -/
def trimWindow : Feeding World Unit := fun session =>
  let matcher := session.matcher
  match matcher.window.trim with
  | .error error => .error (.rolling error) session
  | .ok none => .ok () session
  | .ok (some (oldest, window)) =>
    .ok () (({ session with matcher := { matcher with window } }).pushPending oldest)

/-- The window, of a known length, shrinks from its oldest byte until it
matches or is empty; a window that was looked up already is not again. -/
def drainTail : Nat → Bool → Feeding World Unit
  | 0, _ => pure ()
  | length + 1, true => do
    trimWindow
    drainTail length false
  | length + 1, false => do
    let (hit, session) := (← get).tryMatch
    set session
    if hit then pure ()
    else do
      trimWindow
      drainTail length false

/-- The target ends: the rest is matched or handed out as literals. -/
def finalize : Feeding World Summary := do
  ensureOpen
  let window := (← get).matcher.window
  drainTail window.length window.isFull
  modify flushPending
  let summary := (← get).matcher.summary
  modify fun session =>
    { session with matcher := { session.matcher.clearBuffers with phase := .finalized } }
  takeFailures
  return summary

/-- A new target begins. -/
def reset : Feeding World Unit :=
  modify fun session => { session with matcher := session.matcher.reset }

/-- A listener is added; says how many there are. -/
def addListener (listener : Listener World) : Feeding World Nat := do
  modify fun session => { session with matcher := session.matcher.addListener listener }
  return (← get).matcher.listeners.length

end Session

end BlockDelta
