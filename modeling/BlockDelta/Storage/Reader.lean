import BlockDelta.Bytes
import BlockDelta.Storage.Fault

/-!
# Readers

A reader is the list of what its reads will yield: bytes in pieces of any
size, interruptions, or a failure. After the last event the input has ended; a
piece without bytes ends it too. Interruptions are passed over, so what a
consumer sees is the bytes delivered and how the delivery ended.
-/

namespace BlockDelta

/-- What a single read can yield. -/
inductive ReadEvent where
  /-- Bytes are delivered; none at all means the end. -/
  | data (bytes : Bytes)
  /-- The read is to be repeated. -/
  | interrupted
  /-- The read fails. -/
  | failed (fault : Fault)
  deriving Repr

/-- The reads still to come. -/
abbrev Reader := List ReadEvent

namespace Reader

/-- A reader that delivers everything in one piece. -/
def ofBytes (bytes : Bytes) : Reader := [.data bytes]

/-- A reader that delivers pieces of at most so many bytes. -/
def ofPieces (size : Nat) (bytes : Bytes) : Reader :=
  if positive : 0 < size then (Bytes.chunks size positive bytes).map .data else []

/-- A reader that, instead of every so-many-th read, first asks to repeat it. -/
def interruptEvery (every : Nat) : Nat → Reader → Reader
  | _, [] => []
  | call, event :: rest =>
    if call % every = 0 then .interrupted :: event :: interruptEvery every (call + 2) rest
    else event :: interruptEvery every (call + 1) rest

/-- How much a reader can still deliver: its bytes and its events. -/
def weight : Reader → Nat
  | [] => 0
  | .data bytes :: rest => 1 + bytes.length + weight rest
  | .interrupted :: rest => 1 + weight rest
  | .failed _ :: rest => 1 + weight rest

/-- Reads until `need` bytes are gathered or the input ends. The bytes gathered
so far are held newest first. -/
def fillInto (gathered : Bytes) : Nat → Reader → Except Fault (Bytes × Reader)
  | 0, reader => .ok (gathered.reverse, reader)
  | _ + 1, [] => .ok (gathered.reverse, [])
  | need + 1, .interrupted :: rest => fillInto gathered (need + 1) rest
  | _ + 1, .failed fault :: _ => .error fault
  | _ + 1, .data [] :: rest => .ok (gathered.reverse, rest)
  | need + 1, .data (byte :: bytes) :: rest =>
    if bytes.length ≤ need then
      fillInto (bytes.reverse ++ byte :: gathered) (need - bytes.length) rest
    else
      .ok (gathered.reverse ++ (byte :: bytes).take (need + 1),
        .data ((byte :: bytes).drop (need + 1)) :: rest)

/-- Reads until `need` bytes are gathered or the input ends. -/
def fill (need : Nat) (reader : Reader) : Except Fault (Bytes × Reader) := fillInto [] need reader

/-- Nothing is delivered twice: what was gathered is missing from the reader. -/
theorem weight_fillInto {gathered filled : Bytes} {need : Nat} {reader rest : Reader}
    (done : fillInto gathered need reader = .ok (filled, rest)) :
    filled.length + rest.weight ≤ gathered.length + reader.weight := by
  induction reader generalizing gathered need with
  | nil => cases need <;> · simp only [fillInto] at done; cases done; simp
  | cons event events ih =>
    cases need with
    | zero => simp only [fillInto] at done; cases done; simp
    | succ need =>
      match event with
      | .interrupted =>
        simp only [fillInto] at done
        have := ih done
        simp only [weight]; omega
      | .failed _ => simp [fillInto] at done
      | .data [] =>
        simp only [fillInto] at done
        cases done
        simp only [weight, List.length_reverse, List.length_nil]; omega
      | .data (byte :: bytes) =>
        simp only [fillInto] at done
        split at done
        · have := ih done
          simp only [weight, List.length_cons, List.length_append, List.length_reverse] at this ⊢
          omega
        · cases done
          simp only [weight, List.length_append, List.length_reverse, List.length_take,
            List.length_drop, List.length_cons]
          omega

/-- A fill makes the reader lighter by what it gathered. -/
theorem weight_fill {filled : Bytes} {need : Nat} {reader rest : Reader}
    (done : fill need reader = .ok (filled, rest)) :
    filled.length + rest.weight ≤ reader.weight := by
  simpa using weight_fillInto done

end Reader

end BlockDelta
