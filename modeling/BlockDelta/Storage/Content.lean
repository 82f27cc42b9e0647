import BlockDelta.Storage.Fault

/-!
# The content of a file

Spans of a file are read exactly and written in place. A write behind the end
fills the gap with zero bytes; a write that crosses the end makes the file
longer; bytes outside the written span stay as they are.
-/

namespace BlockDelta.Content

/-- The bytes of a span that must lie inside the content. -/
def read (content : ByteArray) (offset count : Nat) : Except Fault ByteArray :=
  if offset + count ≤ content.size then .ok (content.extract offset (offset + count))
  else .error .shortRead

/-- Zero bytes behind the end, up to a size. -/
def grow (content : ByteArray) (size : Nat) : ByteArray :=
  if content.size < size then content ++ ⟨Array.replicate (size - content.size) 0⟩ else content

/-- A piece takes the place of the bytes at an offset; an empty piece changes nothing. -/
def write (content : ByteArray) (offset : Nat) (piece : ByteArray) : ByteArray :=
  if piece.size = 0 then content
  else piece.copySlice 0 (grow content offset) offset piece.size

/-- The content is cut, or filled with zero bytes, to a size. -/
def resize (content : ByteArray) (size : Nat) : ByteArray :=
  if size < content.size then content.extract 0 size else grow content size

/-- Growing reaches the size asked for and never cuts. -/
theorem size_grow (content : ByteArray) (size : Nat) :
    (grow content size).size = max content.size size := by
  simp only [grow]
  split
  · simp only [ByteArray.size_append]
    simp only [ByteArray.size, Array.size_replicate] at *
    omega
  · omega

/-- A write reaches at least as far as the piece and never cuts. -/
theorem size_write (content piece : ByteArray) (offset : Nat) (something : 0 < piece.size) :
    (write content offset piece).size = max content.size (offset + piece.size) := by
  have grown := size_grow content offset
  simp only [ByteArray.size] at grown something
  simp only [write, ByteArray.size, Nat.ne_of_gt something, if_false, ByteArray.copySlice,
    Array.size_append, Array.size_extract]
  omega

/-- A resized content has the size asked for. -/
theorem size_resize (content : ByteArray) (size : Nat) : (resize content size).size = size := by
  simp only [resize]
  split
  · simp only [ByteArray.size_extract]; omega
  · rw [size_grow]; omega

/-- A span that is read has the length asked for. -/
theorem size_of_read {content piece : ByteArray} {offset count : Nat}
    (done : read content offset count = .ok piece) : piece.size = count := by
  simp only [read] at done
  split at done
  · cases done
    simp only [ByteArray.size_extract]
    omega
  · cases done

end BlockDelta.Content
