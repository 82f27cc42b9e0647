import BlockDelta.Rolling.Sum

/-!
# A sliding window with its sums

A window is a queue of at most `capacity` bytes kept in a ring of that many
slots, together with the rolling sum of its content. The queue is what every
operation is about; the slot of the oldest byte only decides where the content
splits into the two slices of the ring.
-/

namespace BlockDelta.Rolling

/-- A byte queue stored in a ring of `capacity` slots. -/
structure Ring where
  /-- How many slots the ring has. -/
  capacity : Nat
  /-- The slot of the oldest byte. -/
  head : Nat
  /-- How many bytes are queued. -/
  length : Nat
  /-- The older part of the queue, oldest byte first. -/
  older : Bytes
  /-- The newer part of the queue, newest byte first. -/
  newer : Bytes
  deriving Repr

namespace Ring

/-- An empty ring. -/
def empty (capacity : Nat) : Ring := ⟨capacity, 0, 0, [], []⟩

/-- The queued bytes, oldest first. -/
def toList (ring : Ring) : Bytes := ring.older ++ ring.newer.reverse

/-- Every slot is in use. -/
def isFull (ring : Ring) : Bool := ring.length == ring.capacity

/-- The oldest byte leaves the queue. -/
def pop (ring : Ring) : Option (UInt8 × Ring) :=
  match ring.older with
  | byte :: older =>
    some (byte,
      ⟨ring.capacity, (ring.head + 1) % ring.capacity, ring.length - 1, older, ring.newer⟩)
  | [] =>
    match ring.newer.reverse with
    | byte :: older =>
      some (byte, ⟨ring.capacity, (ring.head + 1) % ring.capacity, ring.length - 1, older, []⟩)
    | [] => none

/-- A byte joins the queue, whether or not a slot is free. -/
def enqueue (ring : Ring) (byte : UInt8) : Ring :=
  { ring with length := ring.length + 1, newer := byte :: ring.newer }

/-- A byte joins the queue; a full ring gives up its oldest byte for it. -/
def push (ring : Ring) (byte : UInt8) : Option UInt8 × Ring :=
  if ring.isFull then
    match ring.pop with
    | some (oldest, rest) => (some oldest, rest.enqueue byte)
    | none => (none, ring)
  else (none, ring.enqueue byte)

/-- The queue up to the last slot, and the rest that wrapped to the first. -/
def slices (ring : Ring) : Bytes × Bytes :=
  ring.toList.splitAt (ring.capacity - ring.head)

end Ring

/-- A ring of bytes and the sums of its content. -/
structure Window where
  /-- The queued bytes. -/
  ring : Ring
  /-- The sums of the queued bytes. -/
  sum : Sum
  deriving Repr

namespace Window

/-- An empty window, refused for a capacity beyond 32 bits. -/
def ofCapacity (capacity : Nat) : Except Error Window :=
  if longestWindow < capacity then .error (.windowTooLarge capacity longestWindow)
  else .ok ⟨Ring.empty capacity, Sum.empty⟩

/-- The most bytes the window can hold. -/
def capacity (window : Window) : Nat := window.ring.capacity

/-- How many bytes the window holds. -/
def length (window : Window) : Nat := window.ring.length

/-- The content, oldest byte first. -/
def toList (window : Window) : Bytes := window.ring.toList

/-- The content as the two slices of the ring. -/
def slices (window : Window) : Bytes × Bytes := window.ring.slices

/-- No further byte fits. -/
def isFull (window : Window) : Bool := window.ring.isFull

/-- All bytes leave at once. -/
def clear (window : Window) : Window := ⟨Ring.empty window.capacity, Sum.empty⟩

/-- The content is replaced by a span of a buffer, summed afresh. -/
def check (window : Window) (buffer : Bytes) (offset length : Nat) : Except Error Window :=
  if window.capacity < length then .error (.windowTooLarge length window.capacity)
  else if buffer.length < offset + length then
    .error (.spanOutsideBuffer (offset + length) buffer.length)
  else
    let span := (buffer.drop offset).take length
    .ok ⟨⟨window.capacity, 0, length, span, []⟩, Sum.ofBytes span⟩

/-- The oldest byte makes room for the next one; the length stays. -/
def roll (window : Window) (next : UInt8) : Except Error (UInt8 × Window) :=
  match window.ring.pop with
  | none => .error .emptyWindow
  | some (oldest, rest) => do
    let sum ← window.sum.roll oldest next
    return (oldest, ⟨(rest.push next).2, sum⟩)

/-- A byte enters; a full window gives up its oldest byte. -/
def push (window : Window) (byte : UInt8) : Except Error (Option UInt8 × Window) :=
  match window.ring.push byte with
  | (some oldest, ring) => do
    let sum ← window.sum.roll oldest byte
    return (some oldest, ⟨ring, sum⟩)
  | (none, ring) => .ok (none, ⟨ring, window.sum.absorb byte⟩)

/-- The oldest byte leaves, if there is one. -/
def trim (window : Window) : Except Error (Option (UInt8 × Window)) :=
  match window.ring.pop with
  | none => .ok none
  | some (oldest, ring) => do
    let sum ← window.sum.trim oldest
    return some (oldest, ⟨ring, sum⟩)

end Window

end BlockDelta.Rolling
