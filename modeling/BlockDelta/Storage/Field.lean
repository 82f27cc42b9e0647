import BlockDelta.Bytes
import BlockDelta.Storage.Fault

/-!
# Fields of a stream

A stream is read from the front, field by field; each read returns the field
and the bytes behind it. A stream that ends inside a field is a fault.
-/

namespace BlockDelta.Field

/-- The next bytes of a stream. -/
def bytes (count : Nat) (stream : Bytes) : Except Fault (Bytes × Bytes) :=
  match Bytes.splitExactly count stream with
  | some parts => .ok parts
  | none => .error .shortRead

/-- The next word of a stream, most significant byte first. -/
def word (width : Nat) (stream : Bytes) : Except Fault (Nat × Bytes) :=
  (bytes width stream).map fun (digits, rest) => (Bytes.toWord digits, rest)

/-- A field and what follows it make up the stream. -/
theorem bytes_eq_ok {count : Nat} {stream found rest : Bytes}
    (read : bytes count stream = .ok (found, rest)) :
    stream = found ++ rest ∧ found.length = count := by
  simp only [bytes] at read
  split at read
  · rename_i split
    cases read
    exact Bytes.splitExactly_eq_some split
  · cases read

/-- A word takes its width from the stream. -/
theorem length_of_word {width value : Nat} {stream rest : Bytes}
    (read : word width stream = .ok (value, rest)) : stream.length = width + rest.length := by
  simp only [word, Except.map] at read
  split at read
  · cases read
  · rename_i parts found
    cases read
    have := bytes_eq_ok found
    simp [this.1, this.2]

end BlockDelta.Field
