/-!
# Byte strings and words of a fixed width

Bytes in motion (literals, windows, encoded streams) are lists; bytes at rest
(the content of a file) are byte arrays. A word is written with its most
significant byte first, so `toWord` after `ofWord` is reduction modulo the
width and `ofWord` after `toWord` is the identity.
-/

namespace BlockDelta

/-- A finite byte string in stream order. -/
abbrev Bytes := List UInt8

namespace Bytes

/-- The last `width` base-256 digits of a number, most significant first. -/
def ofWord : Nat → Nat → Bytes
  | 0, _ => []
  | width + 1, value => UInt8.ofNat (value >>> (8 * width)) :: ofWord width value

/-- The number whose base-256 digits are the given bytes, most significant first. -/
def toWord (bytes : Bytes) : Nat :=
  bytes.foldl (fun value byte => value * 256 + byte.toNat) 0

/-- The last `width` base-256 digits of a number, least significant first. -/
def ofWordReversed (width value : Nat) : Bytes := (ofWord width value).reverse

/-- The number whose base-256 digits are the given bytes, least significant first. -/
def toWordReversed (bytes : Bytes) : Nat := toWord bytes.reverse

/-- Bytes brought to rest. -/
def toArray (bytes : Bytes) : ByteArray := ⟨List.toArray bytes⟩

/-- Bytes set in motion. -/
def ofArray (stored : ByteArray) : Bytes := stored.data.toList

/-- A byte as two hexadecimal digits. -/
def hexadecimal (byte : UInt8) : String :=
  String.ofList [Nat.digitChar (byte.toNat / 16), Nat.digitChar (byte.toNat % 16)]

/-- Bytes as a list of hexadecimal numbers in brackets. -/
def hexadecimalList (bytes : Bytes) : String :=
  "[" ++ ", ".intercalate (List.map hexadecimal bytes) ++ "]"

/-- The first `count` bytes and the rest, when there are that many. -/
def splitExactly (count : Nat) (bytes : Bytes) : Option (Bytes × Bytes) :=
  let front := bytes.take count
  if front.length = count then some (front, bytes.drop count) else none

/-- Pieces of `size` bytes, the last one possibly shorter, behind the pieces already cut. -/
def chunksInto (size : Nat) (positive : 0 < size) (done : List Bytes) : Bytes → List Bytes
  | [] => done.reverse
  | byte :: rest =>
    chunksInto size positive ((byte :: rest).take size :: done) ((byte :: rest).drop size)
termination_by bytes => bytes.length
decreasing_by simp only [List.length_drop, List.length_cons]; omega

/-- Consecutive pieces of `size` bytes, the last one possibly shorter. -/
def chunks (size : Nat) (positive : 0 < size) (bytes : Bytes) : List Bytes :=
  chunksInto size positive [] bytes

/-- A word is written in exactly its width. -/
theorem length_ofWord (width value : Nat) : (ofWord width value).length = width := by
  induction width with
  | zero => rfl
  | succ width ih => simp [ofWord, ih]

/-- The order of the digits does not change the width. -/
theorem length_ofWordReversed (width value : Nat) :
    (ofWordReversed width value).length = width := by
  rw [ofWordReversed, List.length_reverse, length_ofWord]

/-- A split gives back what was split, in parts of the lengths asked for. -/
theorem splitExactly_eq_some {count : Nat} {bytes front rest : Bytes}
    (split : splitExactly count bytes = some (front, rest)) :
    bytes = front ++ rest ∧ front.length = count := by
  simp only [splitExactly] at split
  split at split
  · rename_i enough
    cases split
    exact ⟨(List.take_append_drop count bytes).symm, enough⟩
  · cases split

/-- Bytes followed by anything split behind themselves. -/
theorem splitExactly_append (front rest : Bytes) :
    splitExactly front.length (front ++ rest) = some (front, rest) := by
  simp [splitExactly]

/-- The pieces already cut stay in front. -/
theorem chunksInto_eq (size : Nat) (positive : 0 < size) (done : List Bytes) (bytes : Bytes) :
    chunksInto size positive done bytes = done.reverse ++ chunks size positive bytes := by
  induction count : bytes.length using Nat.strongRecOn generalizing bytes done with
  | ind count ih =>
    cases bytes with
    | nil => simp [chunks, chunksInto]
    | cons byte rest =>
      have shorter : ((byte :: rest).drop size).length < (byte :: rest).length := by
        simp only [List.length_drop, List.length_cons]; omega
      rw [chunks, chunksInto, chunksInto, ih _ (by omega) _ _ rfl, ih _ (by omega) [_] _ rfl]
      simp

/-- Pieces are cut from the front. -/
theorem chunks_cons (size : Nat) (positive : 0 < size) (byte : UInt8) (rest : Bytes) :
    chunks size positive (byte :: rest) =
      (byte :: rest).take size :: chunks size positive ((byte :: rest).drop size) := by
  rw [chunks, chunksInto, chunksInto_eq]
  rfl

end Bytes

end BlockDelta
