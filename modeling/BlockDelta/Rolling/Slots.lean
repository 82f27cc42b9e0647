import BlockDelta.Rolling.Window

/-!
# A window in its slots

`Ring` keeps the bytes of a window as a queue. In memory they lie in an array
with one slot for every byte that fits: the next byte goes to the slot behind
the newest one, from the last slot on to the first, and in a full array over
the oldest one. A window over such an array takes the same steps as `Window`,
one after the other, and a step that fails keeps what was done before.
-/

namespace BlockDelta.Rolling

/-- An array of slots, some of which are in use one behind the other. -/
structure Slots (capacity : Nat) where
  /-- The byte in each slot, whether in use or not. -/
  bytes : Vector UInt8 capacity
  /-- The slot of the oldest byte. -/
  head : Fin capacity
  /-- How many slots are in use. -/
  length : Nat
  /-- No slot is in use twice. -/
  fits : length ≤ capacity

namespace Slots

variable {capacity : Nat}

/-- Slots with nothing in use. -/
def empty (positive : 0 < capacity) : Slots capacity :=
  ⟨.replicate capacity 0, ⟨0, positive⟩, 0, Nat.zero_le _⟩

/-- The slot so many places behind the head. -/
def slot (slots : Slots capacity) (place : Nat) : Fin capacity :=
  ⟨(slots.head + place) % capacity, Nat.mod_lt _ slots.head.pos⟩

/-- A byte goes to the next slot; without a free one, over the oldest byte. -/
def push (slots : Slots capacity) (byte : UInt8) : Option UInt8 × Slots capacity :=
  if free : slots.length < capacity then
    (none,
      ⟨slots.bytes.set (slots.slot slots.length) byte, slots.head, slots.length + 1, free⟩)
  else
    (some slots.bytes[slots.head],
      ⟨slots.bytes.set slots.head byte, slots.slot 1, slots.length, slots.fits⟩)

/-- The slot of the oldest byte is given up. -/
def pop (slots : Slots capacity) : Option (UInt8 × Slots capacity) :=
  if slots.length = 0 then none
  else
    some (slots.bytes[slots.head],
      ⟨slots.bytes, slots.slot 1, slots.length - 1, Nat.le_trans (Nat.sub_le ..) slots.fits⟩)

/-- All slots are given up. -/
def clear (slots : Slots capacity) : Slots capacity :=
  ⟨slots.bytes, ⟨0, slots.head.pos⟩, 0, Nat.zero_le _⟩

/-- The bytes in use, up to the last slot and from the first one on. -/
def slices (slots : Slots capacity) : Bytes × Bytes :=
  let bytes := slots.bytes.toList
  let stop := slots.head + slots.length
  if stop ≤ capacity then ((bytes.drop slots.head).take slots.length, [])
  else (bytes.drop slots.head, bytes.take (stop - capacity))

end Slots

/-- An array of slots and the sums of what is in use. -/
structure SlotWindow (capacity : Nat) where
  /-- Where the bytes are. -/
  slots : Slots capacity
  /-- The sums of the bytes in use. -/
  sum : Sum

/-- A step of a window in its slots; a failure keeps what was done. -/
abbrev Sliding (capacity : Nat) := EStateM Error (SlotWindow capacity)

namespace SlotWindow

variable {capacity : Nat}

/-- A window with nothing in it. -/
def empty (positive : 0 < capacity) : SlotWindow capacity := ⟨.empty positive, .empty⟩

/-- All slots are given up, and the sums are those of nothing. -/
def clear : Sliding capacity Unit := modify fun window => ⟨window.slots.clear, .empty⟩

/-- The slots are given up and filled with a span of a buffer, summed afresh. -/
def check (buffer : Bytes) (offset length : Nat) : Sliding capacity Unit := do
  if capacity < length then throw (.windowTooLarge length capacity)
  if buffer.length < offset + length then
    throw (.spanOutsideBuffer (offset + length) buffer.length)
  let span := (buffer.drop offset).take length
  modify fun window =>
    ⟨span.foldl (fun slots byte => (slots.push byte).2) window.slots.clear, window.sum⟩
  modify fun window => ⟨window.slots, .ofBytes span⟩

/-- The sums slide along, behind the slots. -/
def slide (outgoing incoming : UInt8) : Sliding capacity Unit := fun window =>
  match window.sum.roll outgoing incoming with
  | .ok sum => .ok () ⟨window.slots, sum⟩
  | .error error => .error error window

/-- The oldest byte makes room for the next one. -/
def roll (next : UInt8) : Sliding capacity UInt8 := do
  match (← get).slots.pop with
  | none => throw .emptyWindow
  | some (oldest, rest) => do
    modify fun window => ⟨rest, window.sum⟩
    modify fun window => ⟨(window.slots.push next).2, window.sum⟩
    slide oldest next
    return oldest

/-- A byte enters; a full window gives up its oldest byte. -/
def push (byte : UInt8) : Sliding capacity (Option UInt8) := do
  let (outgoing, slots) := (← get).slots.push byte
  modify fun window => ⟨slots, window.sum⟩
  match outgoing with
  | some oldest => slide oldest byte
  | none => modify fun window => ⟨window.slots, window.sum.update [byte]⟩
  return outgoing

/-- The sums give up the oldest byte, behind the slots. -/
def shrink (outgoing : UInt8) : Sliding capacity Unit := fun window =>
  match window.sum.trim outgoing with
  | .ok sum => .ok () ⟨window.slots, sum⟩
  | .error error => .error error window

/-- The oldest byte leaves, if there is one. -/
def trim : Sliding capacity (Option UInt8) := do
  match (← get).slots.pop with
  | none => return none
  | some (oldest, rest) => do
    modify fun window => ⟨rest, window.sum⟩
    shrink oldest
    return some oldest

end SlotWindow

end BlockDelta.Rolling
