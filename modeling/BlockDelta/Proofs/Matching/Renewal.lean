import BlockDelta.Proofs.Matching.Listening
import BlockDelta.Proofs.Rolling.Operations

/-!
# A new target forgets the old one

What can be seen of a session is what is answered to each act, which deltas its
listeners are told of, and what it then shows of itself. A reset makes every
session that requests have reached the very session that starts with the same
listeners in the same world, whatever was fed, read, ended or refused before.
The slots of its window do keep the bytes of the old target, but no operation
behind the reset can tell them from new ones.
-/

namespace BlockDelta

namespace Rolling

variable {capacity : Nat}

/-- Slots that were given up, whatever bytes are left in them, tell of any operations what new slots
tell, and then hold the same bytes with the same sums. -/
theorem SlotWindow.runAll_of_cleared (fits : capacity ≤ longestWindow) (positive : 0 < capacity)
    (stale : SlotWindow capacity) {operations : List Operation}
    (within : ∀ operation ∈ operations, operation.Within) :
    ∃ outcomes last fresh,
      runAll Operation.onSlots operations (Operation.clear.onSlots stale).2 = (outcomes, last) ∧
      runAll Operation.onSlots operations (SlotWindow.empty positive) = (outcomes, fresh) ∧
      last.slots.slices = fresh.slots.slices ∧ last.slots.length = fresh.slots.length ∧
      last.sum = fresh.sum := by
  let window : Window := ⟨Ring.empty capacity, Sum.empty⟩
  have holds : window.Holds capacity [] := ⟨rfl, rfl, rfl, rfl⟩
  have cleared : (Operation.clear.onSlots stale).2.Lays window := ⟨.clear stale.slots, rfl⟩
  have new : (SlotWindow.empty positive).Lays window := ⟨.empty positive, rfl⟩
  obtain ⟨outcomes, -, next, last, -, onWindow, onSlots, -, lies, -⟩ :=
    runAll_agree holds cleared (Nat.zero_le _) fits within
  obtain ⟨_, -, _, fresh, -, again, onFresh, -, lays, -⟩ :=
    runAll_agree holds new (Nat.zero_le _) fits within
  rw [onWindow] at again
  cases again
  exact ⟨outcomes, last, fresh, onSlots, onFresh, lies.slots.slices.trans lays.slots.slices.symm,
    lies.slots.length.symm.trans lays.slots.length, lies.sums.trans lays.sums.symm⟩

end Rolling

variable {World : Type}

namespace Session

/-- What is returned where an act succeeds. -/
inductive Answer where
  /-- Nothing but that it succeeded. -/
  | done
  /-- How many bytes were read, or how many listeners there are. -/
  | count (number : Nat)
  /-- The totals of the target. -/
  | totals (summary : Summary)
  deriving DecidableEq, Repr

/-- A request with what it returns. -/
def Request.answer : Request → Feeding World Answer
  | .feed call => do
    call.perform
    return .done
  | .read reader => return .count (← consume reader)
  | .finalize => return .totals (← Session.finalize)
  | .reset => do
    Session.reset
    return .done

/-- An act with what it returns. -/
def Act.answer : Act World → Feeding World Answer
  | .listen listener => return .count (← addListener listener)
  | .request asked => asked.answer

/-- The deltas that an act hands out. -/
def Act.handedOut (session : Session World) : Act World → List Delta
  | .listen _ => []
  | .request asked => asked.handedOut session

/-- What can be seen of an act. -/
structure Sight (World : Type) where
  /-- What it returned, or why it failed. -/
  answer : Except StreamError Answer
  /-- The deltas that the listeners were told of. -/
  told : List Delta
  /-- What the listeners made of them. -/
  world : World
  /-- Where the session is in its life. -/
  phase : Phase
  /-- How much of the target has been fed. -/
  consumed : Nat
  /-- The session for diagnostics. -/
  description : String

/-- What an action returns, or why it fails, and the session that it leaves. -/
def reply {α : Type} (action : Feeding World α) (session : Session World) :
    Except StreamError α × Session World :=
  match action session with
  | .ok value left => (.ok value, left)
  | .error cause left => (.error cause, left)

/-- What can be seen of acts one after the other, whether or not they fail. -/
def observe : List (Act World) → Session World → List (Sight World)
  | [], _ => []
  | act :: rest, session =>
    let (answer, left) := reply act.answer session
    ⟨answer, act.handedOut session, left.world, left.matcher.phase, left.matcher.consumed,
      left.matcher.describe⟩ :: observe rest left

variable {signature : Signature} {options : MatchOptions} {history : History}
variable {session : Session World}

/-- Whatever a session has been through, its blocks, its bound and the size of its window are those
it started with. -/
theorem Stands.kept (stands : Stands signature options history session) :
    session.matcher.index = BlockIndex.ofSignature signature ∧ session.matcher.options = options ∧
      session.matcher.window.capacity = signature.layout.blockLength.toNat := by
  rcases stands with ⟨-, content, between⟩ | ⟨-, ended, -⟩
  · exact ⟨between.index, between.bound, between.window.slots⟩
  · exact ⟨ended.index, ended.bound, ended.window.slots⟩

/-- A reset leaves the session that starts with the same listeners in the same world. -/
theorem Reached.reset_eq_start (reached : Reached signature options history session) :
    start (BlockIndex.ofSignature signature) options session.matcher.listeners session.world =
      .ok (after Session.reset session) := by
  obtain ⟨index, bound, slots⟩ := reached.stands.kept
  have width : (BlockIndex.ofSignature signature).blockLength = signature.layout.blockLength := rfl
  have admitted : ¬Rolling.longestWindow < signature.layout.blockLength.toNat :=
    Nat.not_lt_of_le signature.layout.blockLength.toNat_le_longestWindow
  have left : after Session.reset session =
      ⟨⟨session.matcher.index, session.matcher.options, session.matcher.listeners,
        ⟨Rolling.Ring.empty session.matcher.window.capacity, Rolling.Sum.empty⟩, [], 0, 0, none,
        Summary.zero, [], .accumulating⟩, session.world⟩ := rfl
  rw [left, index, bound, slots, start, StreamMatcher.ofIndex, width, Rolling.Window.ofCapacity,
    if_neg admitted]
  rfl

/-- Whatever was done with a session, in whatever order, and whoever failed: once a new target
begins, every further act is answered as in a session that starts over the same blocks with the same
listeners in the world that they have reached, the listeners are told of the same deltas, and the
sessions show the same of themselves. The slots of the window, whatever bytes they are left with,
are as good as new. -/
theorem observe_reset_eq (signature : Signature) (options : MatchOptions)
    (acts : List (Act World)) (world : World) :
    ∃ session, start (BlockIndex.ofSignature signature) options [] world = .ok session ∧
      let before := actAll acts session
      (∃ renewed, start (BlockIndex.ofSignature signature) options (acts.filterMap Act.listener?)
          before.world = .ok renewed ∧
        ∀ later, observe later (after Session.reset before) = observe later renewed) ∧
      ∀ (stale : Rolling.SlotWindow signature.layout.blockLength.toNat)
        (operations : List Rolling.Operation), (∀ operation ∈ operations, operation.Within) →
        ∃ outcomes last fresh,
          Rolling.runAll Rolling.Operation.onSlots operations
            (Rolling.Operation.clear.onSlots stale).2 = (outcomes, last) ∧
          Rolling.runAll Rolling.Operation.onSlots operations
            (Rolling.SlotWindow.empty signature.layout.blockLength.positive) = (outcomes, fresh) ∧
          last.slots.slices = fresh.slots.slices ∧ last.slots.length = fresh.slots.length ∧
          last.sum = fresh.sum := by
  obtain ⟨session, started, begun, nobody⟩ := start_reached signature options world
  refine ⟨session, started, ⟨after Session.reset (actAll acts session), ?_, fun later => rfl⟩,
    fun stale operations within => Rolling.SlotWindow.runAll_of_cleared
      signature.layout.blockLength.toNat_le_longestWindow
      signature.layout.blockLength.positive stale within⟩
  have registered : (actAll acts session).matcher.listeners = acts.filterMap Act.listener? := by
    rw [begun.listeners_actAll acts, nobody, List.nil_append]
  rw [← registered]
  exact (begun.through acts).reset_eq_start

/-- A listener that fails, a reader that fails, and an end: nothing of that shows behind the reset,
and three slots that were in use wrap like new ones. -/
theorem observe_reset_eq_failed :
    let signature : Signature := ⟨⟨⟨3, by decide, by decide⟩, 0, 0⟩, .standard, [], 0⟩
    let full : Listener Nat := ⟨fun _ count => (some "full", count + 1)⟩
    let acts : List (Act Nat) :=
      [.listen full, .request (.feed (.chunk [7, 8])),
        .request (.read [.data [9], .failed (.device "gone")]), .request .finalize]
    let later : List (Act Nat) := [.request (.feed (.byte 5)), .request .finalize]
    let operations : List Rolling.Operation := [.push 1, .push 2, .trim, .push 3, .push 4]
    ∃ session, start (BlockIndex.ofSignature signature) {} [] 0 = .ok session ∧
      (observe later (after Session.reset (actAll acts session))).map
          (fun sight => (sight.answer, sight.told, sight.consumed)) =
        [(.ok .done, [], 1), (.error (.listeners [⟨0, 0, "full"⟩]), [.literal 0 [5]], 1)] ∧
      ∃ last outcomes, Rolling.runAll Rolling.Operation.onSlots operations
          (Rolling.Operation.clear.onSlots
            ⟨⟨#v[6, 6, 6], ⟨2, by decide⟩, 3, by decide⟩, .ofBytes [6, 6, 6]⟩).2 =
            (outcomes, last) ∧ last.slots.slices = ([2, 3], [4]) := by
  intro signature full acts later operations
  obtain ⟨session, started, ⟨renewed, begun, same⟩, slots⟩ := observe_reset_eq signature {} acts 0
  obtain rfl := Except.ok.inj started
  obtain rfl := Except.ok.inj begun
  refine ⟨_, started, (congrArg (List.map _) (same later)).trans ?_, ?_⟩
  · simp only [later, observe, List.map_cons, List.map_nil]
    cbv
  · obtain ⟨outcomes, last, fresh, ran, anew, slices, -⟩ :=
      slots ⟨⟨#v[6, 6, 6], ⟨2, by decide⟩, 3, by decide⟩, .ofBytes [6, 6, 6]⟩ operations
        (by simp [operations, Rolling.Operation.Within])
    have wrapped : (Rolling.runAll Rolling.Operation.onSlots operations
        (Rolling.SlotWindow.empty signature.layout.blockLength.positive)).2.slots.slices =
          ([2, 3], [4]) := by decide
    rw [anew] at wrapped
    exact ⟨last, outcomes, ran, slices.trans wrapped⟩

end Session

end BlockDelta
