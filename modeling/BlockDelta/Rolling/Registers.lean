import BlockDelta.Rolling.Sum

/-!
# The rolling sum in registers

`Sum` reduces both of its sums with every step. A processor adds words of 32
bits: through a chunk the sums run on in two registers, four bytes at a time,
and what overflows is lost; they are cut to their lower halves only at the end
of the chunk. A slide or a shrink is computed in 32 bits as well, with the
length of the window as a factor, and then cut. The length is a word of 64 bits,
which stays where it is once it is at its greatest.
-/

namespace BlockDelta.Rolling

/-- The two sums of a window in registers of 32 bits, and its length. -/
structure Registers where
  /-- The sum of the terms. -/
  first : UInt32
  /-- The sum of the prefix sums. -/
  second : UInt32
  /-- How many bytes the window holds, as far as that can be counted. -/
  length : Nat
  deriving DecidableEq, Repr

namespace Registers

/-- The greatest length that is counted. -/
def longest : Nat := UInt64.size - 1

/-- The registers of the empty window. -/
def empty : Registers := ⟨0, 0, 0⟩

/-- What a byte adds to the first register. -/
def term (byte : UInt8) : UInt32 := byte.toUInt32 + 31

/-- The lower half of a register. -/
def lower (register : UInt32) : UInt32 := register &&& 0xffff

/-- A byte is added to the running sums. -/
def absorb (running : UInt32 × UInt32) (byte : UInt8) : UInt32 × UInt32 :=
  let first := running.1 + term byte
  (first, running.2 + first)

/-- A chunk is added to the running sums, four bytes at a time and what is left one by one. -/
def absorbAll (running : UInt32 × UInt32) : Bytes → UInt32 × UInt32
  | a :: b :: c :: d :: rest =>
    absorbAll (absorb (absorb (absorb (absorb running a) b) c) d) rest
  | rest => rest.foldl absorb running

/-- The window is extended by a chunk; nothing happens for an empty one. -/
def update (registers : Registers) (chunk : Bytes) : Registers :=
  if chunk.isEmpty then registers
  else
    let running := absorbAll (registers.first, registers.second) chunk
    ⟨lower running.1, lower running.2, min (registers.length + chunk.length) longest⟩

/-- The registers of a window computed afresh. -/
def ofBytes (window : Bytes) : Registers := empty.update window

/-- The length as a word of 32 bits, refused for an empty window and where it is none. -/
def checkedLength (registers : Registers) : Except Error UInt32 :=
  if registers.length = 0 then .error .emptyWindow
  else if longestWindow < registers.length then
    .error (.windowTooLarge registers.length longestWindow)
  else .ok (UInt32.ofNat registers.length)

/-- The window slides: its oldest byte leaves and a new one enters. -/
def roll (registers : Registers) (outgoing incoming : UInt8) : Except Error Registers := do
  let length ← registers.checkedLength
  let first := lower (registers.first - term outgoing + term incoming)
  let second := lower (registers.second - length * term outgoing + first)
  return ⟨first, second, registers.length⟩

/-- The window loses its oldest byte. -/
def trim (registers : Registers) (outgoing : UInt8) : Except Error Registers := do
  let length ← registers.checkedLength
  let first := lower (registers.first - term outgoing)
  let second := lower (registers.second - length * term outgoing)
  return ⟨first, second, registers.length - 1⟩

/-- Both registers in one word, the second in the high half. -/
def value (registers : Registers) : UInt32 := (registers.second <<< 16) ||| registers.first

end Registers

end BlockDelta.Rolling
