import BlockDelta.Proofs.Running
import BlockDelta.Proofs.Rolling.Slots

/-!
# A window through any number of operations

What is done to a window is said three times: on a queue of bytes with a bound
on its length, on a window, and on a window in its slots. Step by step the
window does to its content what is done to the queue, and the slots do what the
window does. So the three agree after any number of operations, in what is told
after each of them and in what can be asked for at the end.
-/

namespace BlockDelta.Rolling

/-- Something that is done to a window. -/
inductive Operation where
  /-- The content is replaced by a span of a buffer. -/
  | check (buffer : Bytes) (offset length : Nat)
  /-- The oldest byte makes room for the next one. -/
  | roll (next : UInt8)
  /-- A byte enters. -/
  | push (byte : UInt8)
  /-- The oldest byte leaves. -/
  | trim
  /-- All bytes leave. -/
  | clear

/-- What is told of an operation: the byte that left, or why it failed. -/
abbrev Outcome := Except Error (Option UInt8)

/-- Operations one after the other, and what is told of each. -/
def runAll {State : Type} (step : Operation → State → Outcome × State) :
    List Operation → State → List Outcome × State
  | [], state => ([], state)
  | operation :: rest, state =>
    let (outcome, next) := step operation state
    let (outcomes, last) := runAll step rest next
    (outcome :: outcomes, last)

namespace Operation

variable {capacity : Nat}

/-- A span lies inside its buffer. -/
def Within : Operation → Prop
  | .check buffer offset length => offset + length ≤ buffer.length
  | _ => True

/-- An operation on a queue of at most so many bytes, oldest first. -/
def onQueue (capacity : Nat) : Operation → Bytes → Outcome × Bytes
  | .check buffer offset length, content =>
    if capacity < length then (.error (.windowTooLarge length capacity), content)
    else (.ok none, (buffer.drop offset).take length)
  | .roll _, [] => (.error .emptyWindow, [])
  | .roll next, oldest :: rest => (.ok (some oldest), rest ++ [next])
  | .push byte, content =>
    if content.length < capacity then (.ok none, content ++ [byte])
    else (.ok content.head?, content.tail ++ [byte])
  | .trim, content => (.ok content.head?, content.tail)
  | .clear, _ => (.ok none, [])

/-- What an operation makes of a window. -/
def apply : Operation → Window → Except Error (Option UInt8 × Window)
  | .check buffer offset length, window => (window.check buffer offset length).map (none, ·)
  | .roll next, window => (window.roll next).map fun (oldest, rolled) => (some oldest, rolled)
  | .push byte, window => window.push byte
  | .trim, window =>
    window.trim.map fun
      | none => (none, window)
      | some (oldest, trimmed) => (some oldest, trimmed)
  | .clear, window => .ok (none, window.clear)

/-- An operation on a window, which stays when the operation fails. -/
def onWindow (operation : Operation) (window : Window) : Outcome × Window :=
  match operation.apply window with
  | .ok (outgoing, next) => (.ok outgoing, next)
  | .error error => (.error error, window)

/-- An operation as a step of a window in its slots. -/
def sliding : Operation → Sliding capacity (Option UInt8)
  | .check buffer offset length => do
    SlotWindow.check buffer offset length
    return none
  | .roll next => do return some (← SlotWindow.roll next)
  | .push byte => SlotWindow.push byte
  | .trim => SlotWindow.trim
  | .clear => do
    SlotWindow.clear
    return none

/-- An operation on a window in its slots, with whatever was done when it fails. -/
def onSlots (operation : Operation) (window : SlotWindow capacity) :
    Outcome × SlotWindow capacity :=
  match operation.sliding window with
  | .ok outgoing next => (.ok outgoing, next)
  | .error error torn => (.error error, torn)

/-- An operation that succeeds on a window. -/
theorem onWindow_of_ok {operation : Operation} {window next : Window} {outgoing : Option UInt8}
    (done : operation.apply window = .ok (outgoing, next)) :
    operation.onWindow window = (.ok outgoing, next) := by
  rw [onWindow, done]

/-- An operation that fails on a window. -/
theorem onWindow_of_error {operation : Operation} {window : Window} {error : Error}
    (failed : operation.apply window = .error error) :
    operation.onWindow window = (.error error, window) := by
  rw [onWindow, failed]

end Operation

section

variable {capacity : Nat} {content : Bytes} {window : Window}

/-- A window slides unless it is empty. -/
theorem Window.Holds.roll_eq_error_iff (holds : window.Holds capacity content)
    (most : content.length ≤ capacity) (fits : capacity ≤ longestWindow) {next : UInt8}
    {error : Error} : window.roll next = .error error ↔ content = [] ∧ error = .emptyWindow := by
  cases content with
  | nil =>
    rw [Window.roll, Ring.pop_of_nil holds.queue]
    exact ⟨fun refused => ⟨rfl, (Except.error.inj refused).symm⟩, fun empty => empty.2 ▸ rfl⟩
  | cons oldest rest =>
    obtain ⟨rolled, done, -⟩ := holds.roll_cons next most fits
    rw [done]
    constructor
    · intro refused
      cases refused
    · intro empty
      cases empty.1

/-- A span of a buffer is taken unless it is longer than the window can be. -/
theorem Window.Holds.check_eq_error_iff (holds : window.Holds capacity content) {buffer : Bytes}
    {offset length : Nat} (within : offset + length ≤ buffer.length) {error : Error} :
    window.check buffer offset length = .error error ↔
      capacity < length ∧ error = .windowTooLarge length capacity := by
  rcases Nat.lt_or_ge capacity length with long | short
  · have slots : window.capacity = capacity := holds.slots
    rw [Window.check, slots, if_pos long]
    exact ⟨fun refused => ⟨long, (Except.error.inj refused).symm⟩, fun stated => stated.2 ▸ rfl⟩
  · obtain ⟨checked, done, -⟩ := holds.check_eq short within
    rw [done]
    constructor
    · intro refused
      cases refused
    · intro stated
      exact absurd short (Nat.not_le_of_lt stated.1)

/-- A byte can always be asked for. -/
theorem Window.Holds.trim_ok (holds : window.Holds capacity content)
    (most : content.length ≤ capacity) (fits : capacity ≤ longestWindow) :
    ∃ trimmed, window.trim = .ok trimmed := by
  cases content with
  | nil => exact ⟨none, by rw [Window.trim, Ring.pop_of_nil holds.queue]⟩
  | cons oldest rest =>
    obtain ⟨trimmed, done, -⟩ := holds.trim_cons (Nat.le_trans most fits)
    exact ⟨_, done⟩

/-- A step on a window is a step on the queue that it holds. -/
theorem Window.Holds.onWindow (holds : window.Holds capacity content)
    (most : content.length ≤ capacity) (positive : 0 < capacity) (fits : capacity ≤ longestWindow)
    {operation : Operation} (within : operation.Within) :
    ∃ outcome after next, operation.onQueue capacity content = (outcome, after) ∧
      operation.onWindow window = (outcome, next) ∧ next.Holds capacity after ∧
      after.length ≤ capacity := by
  cases operation with
  | check buffer offset length =>
    rcases Nat.lt_or_ge capacity length with long | short
    · have refused := (holds.check_eq_error_iff within).2 ⟨long, rfl⟩
      refine ⟨_, _, _, if_pos long, Operation.onWindow_of_error ?_, holds, most⟩
      rw [Operation.apply, refused]
      rfl
    · obtain ⟨checked, done, held⟩ := holds.check_eq short within
      refine ⟨_, _, checked, if_neg (Nat.not_lt_of_le short), Operation.onWindow_of_ok ?_, held,
        Nat.le_trans (List.length_take_le ..) short⟩
      rw [Operation.apply, done]
      rfl
  | roll next =>
    cases content with
    | nil =>
      have refused : window.roll next = .error .emptyWindow :=
        (holds.roll_eq_error_iff most fits).2 ⟨rfl, rfl⟩
      refine ⟨_, _, _, rfl, Operation.onWindow_of_error ?_, holds, most⟩
      rw [Operation.apply, refused]
      rfl
    | cons oldest rest =>
      obtain ⟨rolled, done, held⟩ := holds.roll_cons next most fits
      refine ⟨_, _, rolled, rfl, Operation.onWindow_of_ok ?_, held, by simpa using most⟩
      rw [Operation.apply, done]
      rfl
  | push byte =>
    rcases Nat.lt_or_ge content.length capacity with room | full
    · obtain ⟨pushed, done, held⟩ := holds.push_free byte room
      exact ⟨_, _, pushed, if_pos room, Operation.onWindow_of_ok done, held, by simpa using room⟩
    · cases content with
      | nil => exact absurd full (Nat.not_le_of_lt positive)
      | cons oldest rest =>
        have filled : rest.length + 1 = capacity := Nat.le_antisymm most full
        obtain ⟨pushed, done, held⟩ := holds.push_full byte filled fits
        exact ⟨_, _, pushed, if_neg (Nat.not_lt_of_le full), Operation.onWindow_of_ok done, held,
          by simpa using Nat.le_of_eq filled⟩
  | trim =>
    cases content with
    | nil =>
      have nothing : window.trim = .ok none := by
        rw [Window.trim, Ring.pop_of_nil holds.queue]
      refine ⟨_, _, window, rfl, Operation.onWindow_of_ok ?_, holds, most⟩
      rw [Operation.apply, nothing]
      rfl
    | cons oldest rest =>
      obtain ⟨trimmed, done, held⟩ := holds.trim_cons (Nat.le_trans most fits)
      refine ⟨_, _, trimmed, rfl, Operation.onWindow_of_ok ?_, held, Nat.le_of_succ_le most⟩
      rw [Operation.apply, done]
      rfl
  | clear => exact ⟨_, _, _, rfl, Operation.onWindow_of_ok rfl, holds.clear, Nat.zero_le _⟩

namespace SlotWindow

variable {slotted : SlotWindow capacity}

/-- A window in its slots holds what a window holds. -/
structure Lays (slotted : SlotWindow capacity) (window : Window) : Prop where
  /-- The slots hold the queue of the ring. -/
  slots : slotted.slots.Lays window.ring
  /-- The sums are the same. -/
  sums : slotted.sum = window.sum

/-- The slots are filled with a span that fits. -/
theorem check_eq (slotted : SlotWindow capacity) {buffer : Bytes} {offset length : Nat}
    (room : length ≤ capacity) (within : offset + length ≤ buffer.length) :
    let span := (buffer.drop offset).take length
    check buffer offset length slotted =
      .ok () ⟨span.foldl (fun slots byte => (slots.push byte).2) slotted.slots.clear,
        .ofBytes span⟩ := by
  unfold check
  rw [if_neg (Nat.not_lt_of_le room), if_neg (Nat.not_lt_of_le within)]
  rfl

/-- A span that does not fit leaves the slots as they are. -/
theorem check_of_long (slotted : SlotWindow capacity) {buffer : Bytes} {offset length : Nat}
    (long : capacity < length) :
    check buffer offset length slotted = .error (.windowTooLarge length capacity) slotted := by
  unfold check
  rw [if_pos long]
  rfl

/-- A byte that leaves the slots is rolled out of the sums, when these can be rolled. -/
theorem roll_eq {oldest next : UInt8} {popped : Slots capacity} {sum : Sum}
    (left : slotted.slots.pop = some (oldest, popped))
    (rolled : slotted.sum.roll oldest next = .ok sum) :
    roll next slotted = .ok oldest ⟨(popped.push next).2, sum⟩ := by
  have begun : (get : Sliding capacity (SlotWindow capacity)) slotted = .ok slotted slotted := rfl
  have slid : slide oldest next ⟨(popped.push next).2, slotted.sum⟩ =
      .ok () ⟨(popped.push next).2, sum⟩ := by
    rw [slide, rolled]
  unfold roll
  rw [bind_of_ok begun]
  simp only [left]
  -- the slots change before the sums do
  change (slide oldest next >>= fun _ => pure oldest) ⟨(popped.push next).2, slotted.sum⟩ = _
  rw [bind_of_ok slid]
  rfl

/-- A byte that finds a free slot is absorbed by the sums. -/
theorem push_of_none {byte : UInt8} (kept : (slotted.slots.push byte).1 = none) :
    push byte slotted = .ok none ⟨(slotted.slots.push byte).2, slotted.sum.absorb byte⟩ := by
  have begun : (get : Sliding capacity (SlotWindow capacity)) slotted = .ok slotted slotted := rfl
  unfold push
  rw [bind_of_ok begun]
  simp only [kept]
  rfl

/-- A byte that another one makes room for is rolled into the sums, when these can be rolled. -/
theorem push_of_some {oldest byte : UInt8} {sum : Sum}
    (left : (slotted.slots.push byte).1 = some oldest)
    (rolled : slotted.sum.roll oldest byte = .ok sum) :
    push byte slotted = .ok (some oldest) ⟨(slotted.slots.push byte).2, sum⟩ := by
  have begun : (get : Sliding capacity (SlotWindow capacity)) slotted = .ok slotted slotted := rfl
  have slid : slide oldest byte ⟨(slotted.slots.push byte).2, slotted.sum⟩ =
      .ok () ⟨(slotted.slots.push byte).2, sum⟩ := by
    rw [slide, rolled]
  unfold push
  rw [bind_of_ok begun]
  simp only [left]
  change (slide oldest byte >>= fun _ => pure (some oldest))
    ⟨(slotted.slots.push byte).2, slotted.sum⟩ = _
  rw [bind_of_ok slid]
  rfl

/-- A byte that leaves the slots is trimmed from the sums, when these can be trimmed. -/
theorem trim_eq {oldest : UInt8} {popped : Slots capacity} {sum : Sum}
    (left : slotted.slots.pop = some (oldest, popped))
    (trimmed : slotted.sum.trim oldest = .ok sum) :
    trim slotted = .ok (some oldest) ⟨popped, sum⟩ := by
  have begun : (get : Sliding capacity (SlotWindow capacity)) slotted = .ok slotted slotted := rfl
  have shrunk : shrink oldest ⟨popped, slotted.sum⟩ = .ok () ⟨popped, sum⟩ := by
    rw [shrink, trimmed]
  unfold trim
  rw [bind_of_ok begun]
  simp only [left]
  change (shrink oldest >>= fun _ => pure (some oldest)) ⟨popped, slotted.sum⟩ = _
  rw [bind_of_ok shrunk]
  rfl

/-- From slots without a byte none leaves. -/
theorem roll_of_empty (next : UInt8) (unused : slotted.slots.pop = none) :
    roll next slotted = .error .emptyWindow slotted := by
  have begun : (get : Sliding capacity (SlotWindow capacity)) slotted = .ok slotted slotted := rfl
  unfold roll
  rw [bind_of_ok begun]
  simp only [unused]
  rfl

/-- From slots without a byte none leaves, which is no failure of trimming. -/
theorem trim_of_empty (unused : slotted.slots.pop = none) :
    trim slotted = .ok none slotted := by
  have begun : (get : Sliding capacity (SlotWindow capacity)) slotted = .ok slotted slotted := rfl
  unfold trim
  rw [bind_of_ok begun]
  simp only [unused]
  rfl

/-- The slots take an operation as the window does, and afterwards hold what the window holds; one
that fails leaves the slots as they were. -/
def Takes (slotted : SlotWindow capacity) (window : Window) (operation : Operation) : Prop :=
  ∃ outcome next after, operation.onWindow window = (outcome, next) ∧
    operation.onSlots slotted = (outcome, after) ∧ after.Lays next ∧
    ∀ error, outcome = .error error → after = slotted

/-- An operation that succeeds on both. -/
theorem takes_of_ok {operation : Operation} {next : Window} {after : SlotWindow capacity}
    {outgoing : Option UInt8} (done : operation.apply window = .ok (outgoing, next))
    (slid : operation.sliding slotted = .ok outgoing after) (lies : after.Lays next) :
    slotted.Takes window operation := by
  have onSlots : operation.onSlots slotted = (.ok outgoing, after) := by
    rw [Operation.onSlots, slid]
  refine ⟨_, _, _, Operation.onWindow_of_ok done, onSlots, lies, fun error failed => ?_⟩
  cases failed

/-- An operation that fails on both before anything is done. -/
theorem takes_of_error {operation : Operation} {error : Error}
    (refused : operation.apply window = .error error)
    (torn : operation.sliding slotted = .error error slotted) (lays : slotted.Lays window) :
    slotted.Takes window operation := by
  have onSlots : operation.onSlots slotted = (.error error, slotted) := by
    rw [Operation.onSlots, torn]
  exact ⟨_, _, _, Operation.onWindow_of_error refused, onSlots, lays, fun _ _ => rfl⟩

namespace Lays

/-- A span of a buffer replaces what both hold, or is refused by both. -/
theorem check (lays : slotted.Lays window) (slots : window.ring.capacity = capacity)
    {buffer : Bytes} {offset length : Nat} (within : offset + length ≤ buffer.length) :
    slotted.Takes window (.check buffer offset length) := by
  rcases Nat.lt_or_ge capacity length with long | short
  · have refused : (Operation.check buffer offset length).apply window =
        .error (.windowTooLarge length capacity) := by
      rw [Operation.apply, Window.check, Window.capacity, slots, if_pos long]
      rfl
    exact takes_of_error refused (bind_of_error (check_of_long slotted long)) lays
  · let span := (buffer.drop offset).take length
    have count : span.length = length := by
      rw [List.length_take, List.length_drop]
      omega
    have filled := Slots.Lays.fill slotted.slots (Nat.le_trans (Nat.le_of_eq count) short)
    rw [count] at filled
    have checked : (Operation.check buffer offset length).apply window =
        .ok (none, ⟨⟨capacity, 0, length, span, []⟩, Sum.ofBytes span⟩) := by
      rw [Operation.apply, Window.check, Window.capacity, slots,
        if_neg (Nat.not_lt_of_le short), if_neg (Nat.not_lt_of_le within)]
      rfl
    exact takes_of_ok checked (bind_of_ok (slotted.check_eq short within)) ⟨filled, rfl⟩

/-- The oldest byte makes room in both, or there is none in either. -/
theorem roll (lays : slotted.Lays window) (sums : slotted.sum = Sum.ofBytes slotted.slots.contents)
    (fits : slotted.slots.contents.length ≤ longestWindow) (next : UInt8) :
    slotted.Takes window (.roll next) := by
  rcases lays.slots.pop with ⟨none, nothing, -⟩ | ⟨oldest, popped, rest, left, also, further, queue⟩
  · have refused : (Operation.roll next).apply window = .error .emptyWindow := by
      rw [Operation.apply, Window.roll, nothing]
      rfl
    exact takes_of_error refused (bind_of_error (roll_of_empty next none)) lays
  · rw [queue] at sums fits
    have rolled : slotted.sum.roll oldest next = .ok (Sum.ofBytes (popped.contents ++ [next])) := by
      rw [sums]
      exact Sum.roll_ofBytes oldest next _ fits
    have done : (Operation.roll next).apply window =
        .ok (some oldest, ⟨(rest.push next).2, Sum.ofBytes (popped.contents ++ [next])⟩) := by
      rw [Operation.apply, Window.roll, also, ← lays.sums]
      simp only [rolled]
      rfl
    exact takes_of_ok done (bind_of_ok (roll_eq left rolled)) ⟨(further.push next).2, rfl⟩

/-- A byte enters both; the sums of a full window can be rolled because it holds its queue. -/
theorem push (lays : slotted.Lays window) (holds : window.Holds capacity content)
    (most : content.length ≤ capacity) (fits : capacity ≤ longestWindow) (byte : UInt8) :
    slotted.Takes window (.push byte) := by
  obtain ⟨told, further⟩ := lays.slots.push byte
  cases step : window.ring.push byte with
  | mk outgoing ring =>
  rw [step] at told further
  cases outgoing with
  | none =>
    have done : (Operation.push byte).apply window =
        .ok (none, ⟨ring, slotted.sum.absorb byte⟩) := by
      rw [Operation.apply, Window.push, step, lays.sums]
    exact takes_of_ok done (push_of_none told) ⟨further, rfl⟩
  | some oldest =>
    obtain ⟨leaving, pushed, done⟩ := holds.push_ok most slotted.slots.head.pos fits byte
    have unfolded := done
    rw [Window.push, step] at unfolded
    obtain ⟨sum, rolled, same⟩ := exists_of_bind_eq_ok unfolded
    cases same
    rw [← lays.sums] at rolled
    exact takes_of_ok done (push_of_some told rolled) ⟨further, rfl⟩

/-- The oldest byte leaves both, if there is one. -/
theorem trim (lays : slotted.Lays window) (sums : slotted.sum = Sum.ofBytes slotted.slots.contents)
    (fits : slotted.slots.contents.length ≤ longestWindow) : slotted.Takes window .trim := by
  rcases lays.slots.pop with ⟨none, nothing, -⟩ | ⟨oldest, popped, rest, left, also, further, queue⟩
  · have kept : Operation.trim.apply window = .ok (.none, window) := by
      rw [Operation.apply, Window.trim, nothing]
      rfl
    exact takes_of_ok kept (trim_of_empty none) lays
  · rw [queue] at sums fits
    have trimmed : slotted.sum.trim oldest = .ok (Sum.ofBytes popped.contents) := by
      rw [sums]
      exact Sum.trim_ofBytes oldest _ fits
    have done : Operation.trim.apply window =
        .ok (some oldest, ⟨rest, Sum.ofBytes popped.contents⟩) := by
      rw [Operation.apply, Window.trim, also, ← lays.sums]
      simp only [trimmed]
      rfl
    exact takes_of_ok done (trim_eq left trimmed) ⟨further, rfl⟩

/-- All bytes leave both. -/
theorem clear (slotted : SlotWindow capacity) (slots : window.ring.capacity = capacity) :
    slotted.Takes window .clear := by
  have cleared : window.clear = ⟨Ring.empty capacity, Sum.empty⟩ := by
    rw [Window.clear, Window.capacity, slots]
  exact takes_of_ok rfl rfl (cleared ▸ ⟨.clear slotted.slots, rfl⟩)

/-- A step in the slots is a step on the window; one that fails changes nothing. -/
theorem takes (lays : slotted.Lays window) (holds : window.Holds capacity content)
    (most : content.length ≤ capacity) (fits : capacity ≤ longestWindow)
    {operation : Operation} (within : operation.Within) : slotted.Takes window operation := by
  have same : slotted.slots.contents = content := lays.slots.queue.symm.trans holds.queue
  have sums : slotted.sum = Sum.ofBytes slotted.slots.contents := by
    rw [same]
    exact lays.sums.trans holds.sums
  have short : slotted.slots.contents.length ≤ longestWindow := by
    rw [same]
    exact Nat.le_trans most fits
  cases operation with
  | check buffer offset length => exact lays.check holds.slots within
  | roll next => exact lays.roll sums short next
  | push byte => exact lays.push holds most fits byte
  | trim => exact lays.trim sums short
  | clear => exact Lays.clear slotted holds.slots

end Lays

end SlotWindow

/-- The queue, a window that holds it and the slots that hold the window take any operations alike,
and still do so afterwards. -/
theorem runAll_agree {slotted : SlotWindow capacity} (holds : window.Holds capacity content)
    (lays : slotted.Lays window) (most : content.length ≤ capacity)
    (fits : capacity ≤ longestWindow) {operations : List Operation}
    (within : ∀ operation ∈ operations, operation.Within) :
    ∃ outcomes after next last,
      runAll (Operation.onQueue capacity) operations content = (outcomes, after) ∧
      runAll Operation.onWindow operations window = (outcomes, next) ∧
      runAll Operation.onSlots operations slotted = (outcomes, last) ∧
      next.Holds capacity after ∧ last.Lays next ∧ after.length ≤ capacity := by
  induction operations generalizing content window slotted with
  | nil => exact ⟨[], content, window, slotted, rfl, rfl, rfl, holds, lays, most⟩
  | cons operation rest ih =>
    obtain ⟨own, others⟩ := List.forall_mem_cons.1 within
    obtain ⟨outcome, queued, next, onQueue, onWindow, held, still⟩ :=
      holds.onWindow most slotted.slots.head.pos fits own
    obtain ⟨again, same, laid, also, onSlots, lies, -⟩ := lays.takes holds most fits own
    rw [onWindow] at also
    cases also
    obtain ⟨outcomes, after, window, last, runQueue, runWindow, runSlots, ends⟩ :=
      ih held lies still others
    refine ⟨outcome :: outcomes, after, window, last, ?_, ?_, ?_, ends⟩ <;> simp only [runAll]
    · rw [onQueue, runQueue]
    · rw [onWindow, runWindow]
    · rw [onSlots, runSlots]

end

/-- A window is a queue of bytes that never holds more than its capacity: whatever is done to it,
the same is told of it as of the queue, and it holds what the queue holds. Its two slices make up
the queue, oldest byte first, and its sums are those of the queue computed afresh. The same goes for
a window in its slots, whose two slices are the same ones. A window fails to slide only when it is
empty, it refuses a span only when that is longer than its capacity, and bytes can always enter and
leave; a failure leaves even the slots as they were. -/
theorem Window.runAll_eq_queue (capacity : Nat) (positive : 0 < capacity)
    (fits : capacity ≤ longestWindow) (operations : List Operation)
    (within : ∀ operation ∈ operations, operation.Within) :
    ∃ window outcomes content after slotted,
      Window.ofCapacity capacity = .ok window ∧
      runAll (Operation.onQueue capacity) operations [] = (outcomes, content) ∧
      runAll Operation.onWindow operations window = (outcomes, after) ∧
      runAll Operation.onSlots operations (SlotWindow.empty positive) = (outcomes, slotted) ∧
      content.length ≤ capacity ∧ after.capacity = capacity ∧ after.length = content.length ∧
      after.isFull = (content.length == capacity) ∧ after.toList = content ∧
      after.slices.1 ++ after.slices.2 = content ∧ after.sum = Sum.ofBytes content ∧
      slotted.slots.length = content.length ∧ slotted.slots.slices = after.slices ∧
      slotted.sum = Sum.ofBytes content ∧
      (∀ next error, after.roll next = .error error ↔ content = [] ∧ error = .emptyWindow) ∧
      (∀ buffer offset length error, offset + length ≤ buffer.length →
        (after.check buffer offset length = .error error ↔
          capacity < length ∧ error = .windowTooLarge length capacity)) ∧
      (∀ byte, ∃ outgoing pushed, after.push byte = .ok (outgoing, pushed)) ∧
      (∃ trimmed, after.trim = .ok trimmed) ∧
      ∀ operation : Operation, operation.Within → ∀ error,
        (operation.onSlots slotted).1 = .error error →
        (operation.onSlots slotted).2 = slotted := by
  obtain ⟨window, made, begun⟩ := Window.ofCapacity_holds fits
  have laid : (SlotWindow.empty positive).Lays window := by
    rw [Window.ofCapacity, if_neg (Nat.not_lt_of_le fits)] at made
    cases made
    exact ⟨.empty positive, rfl⟩
  obtain ⟨outcomes, content, after, slotted, runQueue, runWindow, runSlots, holds, lays, most⟩ :=
    runAll_agree begun laid (Nat.zero_le _) fits within
  refine ⟨window, outcomes, content, after, slotted, made, runQueue, runWindow, runSlots, most,
    holds.slots, holds.length_eq, holds.isFull_eq, holds.queue, holds.slices_eq, holds.sums,
    lays.slots.length.symm.trans holds.counted, lays.slots.slices, lays.sums.trans holds.sums,
    fun next error => holds.roll_eq_error_iff most fits,
    fun buffer offset length error inside => holds.check_eq_error_iff inside,
    fun byte => holds.push_ok most positive fits byte, holds.trim_ok most fits,
    fun operation inside error failed => ?_⟩
  obtain ⟨outcome, next, last, -, onSlots, -, kept⟩ := lays.takes holds most fits inside
  rw [onSlots] at failed ⊢
  exact kept error failed

/-- Three slots that wrap, give up bytes in three ways, and refuse a span. -/
theorem Window.runAll_eq_queue_wrapped :
    let operations : List Operation :=
      [.push 1, .push 2, .push 3, .push 4, .roll 5, .check [6, 7, 8, 9] 0 4, .trim]
    let outcomes : List Outcome :=
      [.ok none, .ok none, .ok none, .ok (some 1), .ok (some 2), .error (.windowTooLarge 4 3),
        .ok (some 3)]
    ∃ window after slotted, Window.ofCapacity 3 = .ok window ∧
      runAll Operation.onWindow operations window = (outcomes, after) ∧
      after.toList = [4, 5] ∧ after.sum = Sum.ofBytes [4, 5] ∧
      runAll Operation.onSlots operations (SlotWindow.empty (show 0 < 3 by decide)) =
        (outcomes, slotted) ∧
      slotted.slots.slices = after.slices := by
  intro operations outcomes
  have queue : runAll (Operation.onQueue 3) operations [] = (outcomes, [4, 5]) := rfl
  obtain ⟨window, told, content, after, slotted, made, runQueue, runWindow, runSlots, -, -, -, -,
    whole, -, sums, -, slices, -⟩ := Window.runAll_eq_queue 3 (by decide) (by decide) operations
      (by simp [operations, Operation.Within])
  rw [queue] at runQueue
  cases runQueue
  exact ⟨window, after, slotted, made, runWindow, whole, sums, runSlots, slices⟩

end BlockDelta.Rolling
