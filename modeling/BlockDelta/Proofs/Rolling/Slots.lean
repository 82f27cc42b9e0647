import BlockDelta.Rolling.Slots
import BlockDelta.Proofs.Rolling.Queue

/-!
# What the slots of a window hold

The slots in use are read from the head on, around the end of the array. Read
so, a byte that is pushed stands at the end and one that is popped stood in
front, as in the queue of `Ring`; the two slices of the array are the two parts
into which the queue is cut behind the last slot.
-/

namespace BlockDelta.Rolling

namespace Slots

variable {capacity : Nat} {slots : Slots capacity}

/-- The bytes in use, oldest first. -/
def contents (slots : Slots capacity) : Bytes :=
  (List.range slots.length).map fun place => slots.bytes[slots.slot place]

/-- There is one byte for every slot in use. -/
theorem length_contents (slots : Slots capacity) : slots.contents.length = slots.length := by
  rw [contents, List.length_map, List.length_range]

/-- The bytes in use stand around the end of the array. -/
theorem getElem_contents (slots : Slots capacity) {place : Nat}
    (within : place < slots.contents.length) :
    slots.contents[place] = slots.bytes[slots.slot place] := by
  simp only [contents, List.getElem_map, List.getElem_range]

/-- The head is the slot of the first byte. -/
theorem slot_zero (slots : Slots capacity) : slots.slot 0 = slots.head :=
  Fin.ext (Nat.mod_eq_of_lt slots.head.isLt)

/-- Up to the last slot, places follow each other. -/
theorem val_slot_of_lt (slots : Slots capacity) (place : Nat)
    (before : slots.head + place < capacity) :
    (slots.slot place : Nat) = slots.head + place :=
  Nat.mod_eq_of_lt before

/-- Behind the last slot, places start over. -/
theorem val_slot_of_le (slots : Slots capacity) (place : Nat)
    (behind : capacity ≤ slots.head + place)
    (within : place < capacity) : (slots.slot place : Nat) = slots.head + place - capacity := by
  have head := slots.head.isLt
  exact (Nat.mod_eq_sub_mod behind).trans (Nat.mod_eq_of_lt (by omega))

/-- No two places share a slot, as long as there are no more places than slots. -/
theorem slot_ne (slots : Slots capacity) {place other : Nat} (before : place < other)
    (within : other < capacity) :
    slots.slot other ≠ slots.slot place := by
  intro same
  have rounds : (slots.head + other) % capacity = (slots.head + place) % capacity :=
    congrArg Fin.val same
  have apart : capacity ∣ other - place := by
    have divides := Nat.dvd_of_mod_eq_zero (Nat.sub_mod_eq_zero_of_mod_eq rounds)
    rwa [Nat.add_sub_add_left] at divides
  have least := Nat.le_of_dvd (by omega) apart
  omega

/-- A byte that finds a free slot stands at the end. -/
theorem push_of_free (slots : Slots capacity) (free : slots.length < capacity) (byte : UInt8) :
    ∃ pushed, slots.push byte = (none, pushed) ∧ pushed.head = slots.head ∧
      pushed.length = slots.length + 1 ∧ pushed.contents = slots.contents ++ [byte] := by
  refine ⟨_, dif_pos free, rfl, rfl, ?_⟩
  simp only [contents, List.range_succ, List.map_append, List.map_cons, List.map_nil]
  congr 1
  · refine List.map_congr_left fun place within => ?_
    have other := slot_ne slots (List.mem_range.1 within) free
    exact Vector.getElem_set_ne _ _ fun same => other (Fin.ext same)
  · exact congrArg (· :: []) (Vector.getElem_set_self _)

/-- Nothing leaves when no slot is in use. -/
theorem pop_of_empty (unused : slots.length = 0) : slots.pop = none := if_pos unused

/-- The byte that leaves stood in front. -/
theorem pop_of_pos (slots : Slots capacity) (used : 0 < slots.length) :
    ∃ oldest popped, slots.pop = some (oldest, popped) ∧ popped.head = slots.slot 1 ∧
      popped.length = slots.length - 1 ∧ slots.contents = oldest :: popped.contents := by
  refine ⟨_, _, if_neg (Nat.ne_of_gt used), rfl, rfl, ?_⟩
  obtain ⟨count, counted⟩ := Nat.exists_eq_succ_of_ne_zero (Nat.ne_of_gt used)
  simp only [contents, counted, Nat.succ_sub_one, List.range_succ_eq_map, List.map_cons,
    List.map_map, slot_zero]
  congr 1
  refine List.map_congr_left fun place _ => ?_
  have further : (slots.head + (place + 1)) % capacity =
      ((slots.head + 1) % capacity + place) % capacity := by
    rw [Nat.mod_add_mod, Nat.add_right_comm, Nat.add_assoc]
  simp only [Function.comp, slot, Fin.getElem_fin, Nat.succ_eq_add_one, further]

/-- Writing over the oldest byte is giving up its slot and taking it as the next one. -/
theorem push_of_full (full : slots.length = capacity) (byte : UInt8) :
    ∃ oldest popped, slots.pop = some (oldest, popped) ∧
      slots.push byte = (some oldest, (popped.push byte).2) := by
  have positive := slots.head.pos
  refine ⟨_, _, if_neg (by omega), ?_⟩
  have around : ((slots.head + 1) % capacity + (slots.length - 1)) % capacity = slots.head := by
    rw [Nat.mod_add_mod, show slots.head + 1 + (slots.length - 1) = slots.head + capacity by omega,
      Nat.add_mod_right, Nat.mod_eq_of_lt slots.head.isLt]
  have room : slots.length - 1 < capacity := by omega
  have count : slots.length - 1 + 1 = slots.length := by omega
  simp only [push, dif_neg (show ¬slots.length < capacity by omega), dif_pos room, slot, around,
    count]

/-- Pushed one by one into free slots, bytes stand at the end in their order. -/
theorem foldl_push (span : Bytes) (slots : Slots capacity)
    (free : slots.length + span.length ≤ capacity) :
    let filled := span.foldl (fun slots byte => (slots.push byte).2) slots
    filled.head = slots.head ∧ filled.length = slots.length + span.length ∧
      filled.contents = slots.contents ++ span := by
  induction span generalizing slots with
  | nil => exact ⟨rfl, rfl, (List.append_nil _).symm⟩
  | cons byte rest ih =>
    rw [List.length_cons] at free
    obtain ⟨pushed, step, head, length, queue⟩ :=
      push_of_free slots (by omega) byte
    obtain ⟨headAfter, lengthAfter, queueAfter⟩ := ih pushed (by omega)
    rw [List.foldl_cons, step]
    refine ⟨headAfter.trans head, ?_, ?_⟩
    · rw [lengthAfter, length, List.length_cons]
      omega
    · rw [queueAfter, queue, List.append_assoc]
      rfl

/-- The bytes in use up to the last slot. -/
theorem take_contents (slots : Slots capacity) :
    slots.contents.take (capacity - slots.head) =
      (slots.bytes.toList.drop slots.head).take slots.length := by
  refine List.ext_getElem ?_ fun place within _ => ?_
  · rw [List.length_take, List.length_take, List.length_drop, Vector.length_toList,
      length_contents, Nat.min_comm]
  · rw [List.length_take] at within
    simp only [List.getElem_take, List.getElem_drop, Vector.getElem_toList, getElem_contents,
      Fin.getElem_fin, val_slot_of_lt slots place (by omega)]

/-- The bytes in use from the first slot on. -/
theorem drop_contents (slots : Slots capacity) :
    slots.contents.drop (capacity - slots.head) =
      slots.bytes.toList.take (slots.head + slots.length - capacity) := by
  have head := slots.head.isLt
  have most := slots.fits
  refine List.ext_getElem ?_ fun place within _ => ?_
  · rw [List.length_take, List.length_drop, Vector.length_toList, length_contents]
    omega
  · rw [List.length_drop, length_contents] at within
    have wrapped := val_slot_of_le slots (capacity - slots.head + place) (by omega)
      (by omega)
    have back : slots.head + (capacity - slots.head + place) - capacity = place := by omega
    simp only [List.getElem_take, List.getElem_drop, Vector.getElem_toList, getElem_contents,
      Fin.getElem_fin, wrapped, back]

/-- The two slices are the bytes in use, cut behind the last slot. -/
theorem slices_eq (slots : Slots capacity) :
    slots.slices = slots.contents.splitAt (capacity - slots.head) := by
  rw [List.splitAt_eq, take_contents, drop_contents]
  simp only [slices]
  split
  · rename_i single
    rw [Nat.sub_eq_zero_of_le single, List.take_zero]
  · rename_i double
    have behind : (slots.bytes.toList.drop slots.head).length ≤ slots.length := by
      rw [List.length_drop, Vector.length_toList]
      omega
    rw [List.take_of_length_le behind]

end Slots

namespace Ring

/-- Nothing leaves an empty queue. -/
theorem pop_of_nil {ring : Ring} (content : ring.toList = []) : ring.pop = none := by
  obtain ⟨older, newer⟩ := List.append_eq_nil_iff.1 content
  simp only [pop, older, newer]

/-- The head moves on by one slot with every byte that leaves. -/
theorem head_of_pop {ring popped : Ring} {oldest : UInt8}
    (left : ring.pop = some (oldest, popped)) :
    popped.head = (ring.head + 1) % ring.capacity := by
  unfold pop at left
  split at left
  · cases left
    rfl
  · split at left <;> cases left
    rfl

end Ring

namespace Slots

variable {capacity : Nat} {slots : Slots capacity} {ring : Ring}

/-- The slots hold the queue of a ring, from the same head on. -/
structure Lays (slots : Slots capacity) (ring : Ring) : Prop where
  /-- The ring has as many slots. -/
  capacity : ring.capacity = capacity
  /-- The oldest byte is in the same slot. -/
  head : ring.head = slots.head
  /-- As many bytes are in use. -/
  length : ring.length = slots.length
  /-- They are the same bytes. -/
  queue : ring.toList = slots.contents

namespace Lays

/-- Slots and ring are empty at the start. -/
theorem empty (positive : 0 < capacity) : (Slots.empty positive).Lays (Ring.empty capacity) :=
  ⟨rfl, rfl, rfl, rfl⟩

/-- Slots that are given up hold nothing. -/
theorem clear (slots : Slots capacity) : slots.clear.Lays (Ring.empty capacity) :=
  ⟨rfl, rfl, rfl, rfl⟩

/-- Slots that are filled with a span hold the span. -/
theorem fill (slots : Slots capacity) {span : Bytes} (room : span.length ≤ capacity) :
    (span.foldl (fun slots byte => (slots.push byte).2) slots.clear).Lays
      ⟨capacity, 0, span.length, span, []⟩ := by
  obtain ⟨head, length, queue⟩ := foldl_push span slots.clear (by simpa [Slots.clear] using room)
  refine ⟨rfl, ?_, ?_, ?_⟩
  · rw [head]
    rfl
  · rw [length]
    exact (Nat.zero_add _).symm
  · rw [queue]
    exact List.append_nil _

/-- The same byte leaves both, or none. -/
theorem pop (lays : slots.Lays ring) :
    (slots.pop = none ∧ ring.pop = none ∧ slots.contents = []) ∨
      ∃ oldest popped rest, slots.pop = some (oldest, popped) ∧ ring.pop = some (oldest, rest) ∧
        popped.Lays rest ∧ slots.contents = oldest :: popped.contents := by
  rcases Nat.eq_zero_or_pos slots.length with unused | used
  · have nothing : slots.contents = [] := by
      rw [← List.length_eq_zero_iff, length_contents, unused]
    exact .inl ⟨pop_of_empty unused, Ring.pop_of_nil (lays.queue.trans nothing), nothing⟩
  · obtain ⟨oldest, popped, popEq, head, length, queue⟩ := pop_of_pos slots used
    obtain ⟨rest, restEq, left, capacity, count⟩ := Ring.pop_of_toList (lays.queue.trans queue)
    refine .inr ⟨oldest, popped, rest, popEq, restEq, ⟨?_, ?_, ?_, left⟩, queue⟩
    · rw [capacity, lays.capacity]
    · rw [Ring.head_of_pop restEq, head, lays.head, lays.capacity]
      rfl
    · rw [count, length, lays.length]

/-- A byte joins both where a slot is free. -/
theorem push_free (lays : slots.Lays ring) (free : slots.length < capacity) (byte : UInt8) :
    (slots.push byte).1 = none ∧ (slots.push byte).2.Lays (ring.enqueue byte) := by
  obtain ⟨pushed, step, head, length, queue⟩ := push_of_free slots free byte
  rw [step]
  refine ⟨rfl, lays.capacity, lays.head.trans (congrArg Fin.val head.symm), ?_, ?_⟩
  · rw [length, ← lays.length]
    rfl
  · rw [Ring.toList_enqueue, queue, lays.queue]

/-- A byte joins both, and the same byte leaves both for it. -/
theorem push (lays : slots.Lays ring) (byte : UInt8) :
    (slots.push byte).1 = (ring.push byte).1 ∧ (slots.push byte).2.Lays (ring.push byte).2 := by
  rcases Nat.lt_or_ge slots.length capacity with free | full
  · obtain ⟨none, further⟩ := lays.push_free free byte
    have room : ring.isFull = false := by
      rw [Ring.isFull, lays.length, lays.capacity, beq_eq_false_iff_ne]
      exact Nat.ne_of_lt free
    have step : ring.push byte = (.none, ring.enqueue byte) := by
      rw [Ring.push, room]
      rfl
    rw [step]
    exact ⟨none, further⟩
  · have full : slots.length = capacity := Nat.le_antisymm slots.fits full
    obtain ⟨oldest, popped, popEq, pushEq⟩ := push_of_full full byte
    have noRoom : ring.isFull = true := by
      rw [Ring.isFull, lays.length, lays.capacity, beq_iff_eq]
      exact full
    have fewer : popped.length < capacity := by
      have positive := slots.head.pos
      obtain ⟨_, other, again, -, length, -⟩ := pop_of_pos slots (by omega)
      rw [popEq] at again
      cases again
      omega
    rcases lays.pop with ⟨nothing, -, -⟩ | ⟨_, other, rest, again, restEq, further, -⟩
    · rw [popEq] at nothing
      cases nothing
    · rw [popEq] at again
      cases again
      have step : ring.push byte = (some oldest, rest.enqueue byte) := by
        rw [Ring.push, noRoom, restEq]
        rfl
      rw [pushEq, step]
      exact ⟨rfl, (further.push_free fewer byte).2⟩

/-- Both are cut into the same slices. -/
theorem slices (lays : slots.Lays ring) : slots.slices = ring.slices := by
  rw [slices_eq, Ring.slices, lays.queue, lays.capacity, lays.head]

end Lays

end Slots

end BlockDelta.Rolling
