import BlockDelta.Rolling.Window
import BlockDelta.Proofs.Rolling.Law

/-!
# A window is a queue with fresh sums

`Window.Holds` says what a window stands for: a queue of bytes within its
capacity, with the sums of exactly these bytes. Each operation is described by
what it does to that queue, so that no later argument looks into the ring.
-/

namespace BlockDelta.Rolling

namespace Ring

/-- The oldest byte of a queue leaves it, and the slots stay. -/
theorem pop_of_toList {ring : Ring} {oldest : UInt8} {rest : Bytes}
    (content : ring.toList = oldest :: rest) :
    ∃ popped, ring.pop = some (oldest, popped) ∧ popped.toList = rest ∧
      popped.capacity = ring.capacity ∧ popped.length = ring.length - 1 := by
  cases older : ring.older with
  | cons byte more =>
    simp only [toList, older, List.cons_append, List.cons.injEq] at content
    obtain ⟨rfl, rfl⟩ := content
    refine ⟨⟨ring.capacity, (ring.head + 1) % ring.capacity, ring.length - 1, more, ring.newer⟩,
      ?_, rfl, rfl, rfl⟩
    simp only [pop, older]
  | nil =>
    simp only [toList, older, List.nil_append] at content
    refine ⟨⟨ring.capacity, (ring.head + 1) % ring.capacity, ring.length - 1, rest, []⟩,
      ?_, ?_, rfl, rfl⟩
    · simp only [pop, older, content]
    · simp [toList]

/-- A byte joins the queue at its end. -/
theorem toList_enqueue (ring : Ring) (byte : UInt8) :
    (ring.enqueue byte).toList = ring.toList ++ [byte] := by
  simp [enqueue, toList]

/-- The two slices of a ring make up the queue. -/
theorem slices_append (ring : Ring) : ring.slices.1 ++ ring.slices.2 = ring.toList := by
  simp [slices, List.splitAt_eq]

end Ring

namespace Window

/-- A window of a known capacity whose content is a known queue, with its sums. -/
structure Holds (window : Window) (capacity : Nat) (content : Bytes) : Prop where
  /-- The ring has that many slots. -/
  slots : window.ring.capacity = capacity
  /-- The ring queues the content. -/
  queue : window.ring.toList = content
  /-- The ring counts the content. -/
  counted : window.ring.length = content.length
  /-- The sums are those of the content. -/
  sums : window.sum = Sum.ofBytes content

variable {window : Window} {capacity : Nat} {content rest : Bytes} {oldest : UInt8}

/-- A cleared window holds nothing. -/
theorem Holds.clear (holds : window.Holds capacity content) : window.clear.Holds capacity [] :=
  ⟨holds.slots, rfl, rfl, rfl⟩

/-- A window of an admitted capacity starts with nothing in it. -/
theorem ofCapacity_holds (fits : capacity ≤ longestWindow) :
    ∃ window, ofCapacity capacity = .ok window ∧ window.Holds capacity [] := by
  refine ⟨⟨Ring.empty capacity, Sum.empty⟩, ?_, ⟨rfl, rfl, rfl, rfl⟩⟩
  rw [ofCapacity, if_neg (Nat.not_lt.mpr fits)]

/-- A window is full when its content reaches the capacity. -/
theorem Holds.isFull_eq (holds : window.Holds capacity content) :
    window.isFull = (content.length == capacity) := by
  rw [isFull, Ring.isFull, holds.counted, holds.slots]

/-- A window is as long as its content. -/
theorem Holds.length_eq (holds : window.Holds capacity content) :
    window.length = content.length :=
  holds.counted

/-- The two slices of a window make up its content. -/
theorem Holds.slices_eq (holds : window.Holds capacity content) :
    window.slices.1 ++ window.slices.2 = content := by
  rw [slices, Ring.slices_append, holds.queue]

/-- While there is room, a byte joins the content and none leaves. -/
theorem Holds.push_free (holds : window.Holds capacity content) (byte : UInt8)
    (room : content.length < capacity) :
    ∃ pushed, window.push byte = .ok (none, pushed) ∧
      pushed.Holds capacity (content ++ [byte]) := by
  have free : window.ring.isFull = false := by
    rw [Ring.isFull, holds.counted, holds.slots, beq_eq_false_iff_ne]
    exact Nat.ne_of_lt room
  have step : window.ring.push byte = (none, window.ring.enqueue byte) := by
    rw [Ring.push, free]
    rfl
  refine ⟨⟨window.ring.enqueue byte, window.sum.absorb byte⟩, ?_, ⟨holds.slots, ?_, ?_, ?_⟩⟩
  · rw [push, step]
  · rw [Ring.toList_enqueue, holds.queue]
  · simp [Ring.enqueue, holds.counted]
  · change window.sum.absorb byte = _
    rw [holds.sums, Sum.absorb_ofBytes]

/-- A full window gives up its oldest byte for the one that joins. -/
theorem Holds.push_full (holds : window.Holds capacity (oldest :: rest)) (byte : UInt8)
    (full : rest.length + 1 = capacity) (fits : capacity ≤ longestWindow) :
    ∃ pushed, window.push byte = .ok (some oldest, pushed) ∧
      pushed.Holds capacity (rest ++ [byte]) := by
  have noRoom : window.ring.isFull = true := by
    rw [Ring.isFull, holds.counted, holds.slots, beq_iff_eq]
    exact full
  obtain ⟨popped, popEq, left, slots, count⟩ := Ring.pop_of_toList holds.queue
  have step : window.ring.push byte = (some oldest, popped.enqueue byte) := by
    rw [Ring.push, noRoom, popEq]
    rfl
  have rolled : window.sum.roll oldest byte = .ok (Sum.ofBytes (rest ++ [byte])) := by
    rw [holds.sums]
    exact Sum.roll_ofBytes oldest byte rest (full ▸ fits)
  refine ⟨⟨popped.enqueue byte, Sum.ofBytes (rest ++ [byte])⟩, ?_, ⟨?_, ?_, ?_, rfl⟩⟩
  · rw [push, step]
    simp only [rolled]
    rfl
  · exact slots.trans holds.slots
  · rw [Ring.toList_enqueue, left]
  · simp [Ring.enqueue, count, holds.counted]

/-- A byte can always join the content. -/
theorem Holds.push_ok (holds : window.Holds capacity content) (most : content.length ≤ capacity)
    (positive : 0 < capacity) (fits : capacity ≤ longestWindow) (byte : UInt8) :
    ∃ outgoing pushed, window.push byte = .ok (outgoing, pushed) := by
  rcases Nat.lt_or_ge content.length capacity with room | full
  · obtain ⟨pushed, done, -⟩ := holds.push_free byte room
    exact ⟨_, _, done⟩
  · cases content with
    | nil => exact absurd full (Nat.not_le_of_lt positive)
    | cons oldest rest =>
      obtain ⟨pushed, done, -⟩ := holds.push_full byte (Nat.le_antisymm most full) fits
      exact ⟨_, _, done⟩

/-- The oldest byte of a window that is not empty leaves it. -/
theorem Holds.trim_cons (holds : window.Holds capacity (oldest :: rest))
    (fits : rest.length + 1 ≤ longestWindow) :
    ∃ trimmed, window.trim = .ok (some (oldest, trimmed)) ∧ trimmed.Holds capacity rest := by
  obtain ⟨popped, popEq, left, slots, count⟩ := Ring.pop_of_toList holds.queue
  have shrunk : window.sum.trim oldest = .ok (Sum.ofBytes rest) := by
    rw [holds.sums]
    exact Sum.trim_ofBytes oldest rest fits
  refine ⟨⟨popped, Sum.ofBytes rest⟩, ?_, ⟨slots.trans holds.slots, left, ?_, rfl⟩⟩
  · rw [trim, popEq]
    simp only [shrunk]
    rfl
  · rw [count, holds.counted]
    rfl

/-- A window that is not empty slides: its oldest byte leaves for the next one. -/
theorem Holds.roll_cons (holds : window.Holds capacity (oldest :: rest)) (next : UInt8)
    (room : rest.length < capacity) (fits : capacity ≤ longestWindow) :
    ∃ rolled, window.roll next = .ok (oldest, rolled) ∧ rolled.Holds capacity (rest ++ [next]) := by
  obtain ⟨popped, popEq, left, slots, count⟩ := Ring.pop_of_toList holds.queue
  have counted : popped.length = rest.length := by
    rw [count, holds.counted]
    rfl
  have free : popped.isFull = false := by
    rw [Ring.isFull, counted, slots, holds.slots, beq_eq_false_iff_ne]
    exact Nat.ne_of_lt room
  have step : popped.push next = (none, popped.enqueue next) := by
    rw [Ring.push, free]
    rfl
  have rolled : window.sum.roll oldest next = .ok (Sum.ofBytes (rest ++ [next])) := by
    rw [holds.sums]
    exact Sum.roll_ofBytes oldest next rest (Nat.le_trans room fits)
  refine ⟨⟨popped.enqueue next, Sum.ofBytes (rest ++ [next])⟩, ?_, ⟨?_, ?_, ?_, rfl⟩⟩
  · rw [roll, popEq]
    simp only [rolled, step]
    rfl
  · exact slots.trans holds.slots
  · rw [Ring.toList_enqueue, left]
  · simp [Ring.enqueue, counted]

/-- A span that fits becomes the content. -/
theorem Holds.check_eq (holds : window.Holds capacity content) {buffer : Bytes}
    {offset length : Nat} (room : length ≤ capacity) (within : offset + length ≤ buffer.length) :
    ∃ checked, window.check buffer offset length = .ok checked ∧
      checked.Holds capacity ((buffer.drop offset).take length) := by
  have slots : window.capacity = capacity := holds.slots
  let span := (buffer.drop offset).take length
  refine ⟨⟨⟨window.capacity, 0, length, span, []⟩, Sum.ofBytes span⟩, ?_,
    ⟨slots, List.append_nil _, ?_, rfl⟩⟩
  · rw [check, if_neg (by omega), if_neg (by omega)]
  · change length = span.length
    rw [List.length_take, List.length_drop]
    exact (Nat.min_eq_left (by omega)).symm

end Window

end BlockDelta.Rolling
