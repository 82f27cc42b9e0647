import BlockDelta.Bytes
import BlockDelta.Storage.Fault

/-!
# Sinks

A sink keeps what it accepts and may have room for a limited number of bytes.
A write that crosses the limit is accepted up to it and then fails; every later
write that is not empty fails too. So a sink always holds a prefix of what was
offered.
-/

namespace BlockDelta

/-- What has been written, and how many more bytes fit. -/
structure Sink where
  /-- Everything accepted so far. -/
  accepted : ByteArray
  /-- The room left; without a limit there is always room. -/
  room : Option Nat

/-- An action on a sink; a failure keeps what was accepted. -/
abbrev Writing := EStateM Fault Sink

namespace Sink

/-- A sink without a limit. -/
def unlimited : Sink := ⟨.empty, none⟩

/-- An empty sink for at most so many bytes, or for any number. -/
def ofLimit (limit : Option Nat) : Sink := ⟨.empty, limit⟩

/-- Bytes are stored behind what was accepted. -/
def store (stored : ByteArray) (piece : Bytes) : ByteArray := piece.foldl ByteArray.push stored

/-- A piece is written, as far as there is room. -/
def write (piece : Bytes) : Writing Unit := fun sink =>
  match sink with
  | ⟨accepted, none⟩ => .ok () ⟨store accepted piece, none⟩
  | ⟨accepted, some room⟩ =>
    if piece.length ≤ room then .ok () ⟨store accepted piece, some (room - piece.length)⟩
    else .error .sinkFull ⟨store accepted (piece.take room), some 0⟩

/-- Pieces are written one after the other until one fails. -/
def writeEach : List Bytes → Writing Unit
  | [] => pure ()
  | piece :: rest => do
    write piece
    writeEach rest

end Sink

end BlockDelta
