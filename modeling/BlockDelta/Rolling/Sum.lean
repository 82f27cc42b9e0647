import BlockDelta.Bytes

/-!
# The rolling sum of a window

Two 16-bit sums over the bytes of a window: the first adds every byte's term,
the second adds the first sum after every byte. Both can be updated when the
window slides by one byte or loses its oldest byte, so a target is scanned at
constant cost per position.
-/

namespace BlockDelta.Rolling

/-- What can go wrong with a window. -/
inductive Error where
  /-- A slide needs a byte to remove. -/
  | emptyWindow
  /-- A window is longer than its limit. -/
  | windowTooLarge (length limit : Nat)
  /-- A span of a buffer ends behind the buffer's end. -/
  | spanOutsideBuffer (stop size : Nat)
  deriving DecidableEq, Repr

/-- The wording of each cause. -/
def Error.message : Error → String
  | .emptyWindow => "rolling checksum requires a non-empty window"
  | .windowTooLarge length limit =>
    s!"rolling checksum window of {length} bytes exceeds its limit of {limit}"
  | .spanOutsideBuffer stop size => s!"span ends at {stop} in a buffer of {size} bytes"

/-- The longest window a sum can slide: lengths are 32-bit words. -/
def longestWindow : Nat := UInt32.size - 1

/-- Every byte is shifted by this much, so that zero bytes count too. -/
def byteShift : UInt16 := 31

/-- The term a byte contributes to the first sum. -/
def term (byte : UInt8) : UInt16 := byte.toUInt16 + byteShift

/-- The two sums of a window and its length; all sums are modulo `2 ^ 16`. -/
structure Sum where
  /-- The sum of the terms. -/
  first : UInt16
  /-- The sum of the prefix sums. -/
  second : UInt16
  /-- How many bytes the window holds. -/
  length : Nat
  deriving DecidableEq, Repr, Inhabited

namespace Sum

/-- The sums of the empty window. -/
def empty : Sum := ⟨0, 0, 0⟩

/-- The window is extended by its next byte. -/
def absorb (sum : Sum) (byte : UInt8) : Sum :=
  let first := sum.first + term byte
  ⟨first, sum.second + first, sum.length + 1⟩

/-- The window is extended by a chunk. -/
def update (sum : Sum) (chunk : Bytes) : Sum := chunk.foldl absorb sum

/-- The sums of a window computed afresh. -/
def ofBytes (window : Bytes) : Sum := empty.update window

/-- Both sums in one word, the second in the high half. -/
def value (sum : Sum) : UInt32 := (sum.second.toUInt32 <<< 16) ||| sum.first.toUInt32

/-- The sums that a word packs, for a window of known length. -/
def ofValue (value : UInt32) (length : Nat) : Sum :=
  ⟨value.toUInt16, (value >>> 16).toUInt16, length⟩

/-- Sums agree when both halves do; the lengths are not compared. -/
def agrees (left right : Sum) : Bool := left.first == right.first && left.second == right.second

/-- The length as a word, refused for an empty window and beyond 32 bits. -/
def checkedLength (sum : Sum) : Except Error UInt16 :=
  if sum.length = 0 then .error .emptyWindow
  else if longestWindow < sum.length then .error (.windowTooLarge sum.length longestWindow)
  else .ok (UInt16.ofNat sum.length)

/-- The window slides: its oldest byte leaves and a new one enters. -/
def roll (sum : Sum) (outgoing incoming : UInt8) : Except Error Sum := do
  let length ← sum.checkedLength
  let first := sum.first - term outgoing + term incoming
  return ⟨first, sum.second - length * term outgoing + first, sum.length⟩

/-- The window loses its oldest byte. -/
def trim (sum : Sum) (outgoing : UInt8) : Except Error Sum := do
  let length ← sum.checkedLength
  return ⟨sum.first - term outgoing, sum.second - length * term outgoing, sum.length - 1⟩

/-- Updating chunk by chunk is updating with the whole. -/
theorem update_append (sum : Sum) (front back : Bytes) :
    sum.update (front ++ back) = (sum.update front).update back :=
  List.foldl_append

/-- The length counts every byte absorbed. -/
theorem length_update (sum : Sum) (chunk : Bytes) :
    (sum.update chunk).length = sum.length + chunk.length := by
  induction chunk generalizing sum with
  | nil => rfl
  | cons byte rest ih =>
    have step := ih (sum.absorb byte)
    simp only [update, List.foldl_cons, List.length_cons] at step ⊢
    rw [step]
    simp only [absorb]
    omega

end Sum

end BlockDelta.Rolling
