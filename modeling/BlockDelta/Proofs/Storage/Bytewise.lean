import BlockDelta.Bytes
import BlockDelta.Storage.Content
import Mathlib

/-!
# The bytes of a file, one by one

A content is determined by its size and its bytes. Behind the end every byte
reads as zero, so filling a gap with zero bytes shows in the size only, and
what a write or a resize does can be said of each offset alone.
-/

namespace BlockDelta.Content

/-- The byte at an offset; behind the end it is zero. -/
def byteAt (content : ByteArray) (offset : Nat) : UInt8 := content.data.toList.getD offset 0

/-- Behind the end there are zero bytes only. -/
theorem byteAt_of_size_le {content : ByteArray} {offset : Nat} (behind : content.size ≤ offset) :
    byteAt content offset = 0 := by
  unfold byteAt
  exact List.getD_eq_default _ _ behind

/-- Two contents are equal when they have the same size and the same bytes. -/
theorem ext_byteAt {left right : ByteArray} (size : left.size = right.size)
    (bytes : ∀ offset < left.size, byteAt left offset = byteAt right offset) : left = right := by
  have length : left.data.toList.length = right.data.toList.length := size
  apply ByteArray.ext
  apply Array.toList_inj.1
  apply List.ext_getElem length
  intro offset inside inside'
  have same := bytes offset inside
  unfold byteAt at same
  rwa [List.getD_eq_getElem _ _ inside, List.getD_eq_getElem _ _ inside'] at same

/-- Bytes at rest are the bytes that were brought there. -/
theorem byteAt_toArray (bytes : Bytes) (offset : Nat) :
    byteAt (Bytes.toArray bytes) offset = bytes.getD offset 0 := by
  simp [byteAt, Bytes.toArray]

/-- A file has as many bytes as were brought there. -/
theorem size_toArray (bytes : Bytes) : (Bytes.toArray bytes).size = bytes.length := by
  simp [Bytes.toArray, ByteArray.size]

/-- A byte of a part of the content. -/
theorem byteAt_extract {content : ByteArray} {start stop offset : Nat}
    (inside : start + offset < stop) :
    byteAt (content.extract start stop) offset = byteAt content (start + offset) := by
  unfold byteAt
  rw [ByteArray.data_extract, Array.toList_extract, List.extract_eq_take_drop,
    List.getD_eq_getElem?_getD, List.getD_eq_getElem?_getD, List.getElem?_take_of_lt (by omega),
    List.getElem?_drop]

/-- A byte of two contents one behind the other. -/
theorem byteAt_append (front back : ByteArray) (offset : Nat) :
    byteAt (front ++ back) offset =
      if offset < front.size then byteAt front offset else byteAt back (offset - front.size) := by
  unfold byteAt
  rw [ByteArray.data_append, Array.toList_append]
  by_cases inside : offset < front.size
  · rw [if_pos inside, List.getD_append _ _ _ _ inside]
  · rw [if_neg inside, List.getD_append_right _ _ _ _ (Nat.le_of_not_lt inside)]
    rfl

/-- Zero bytes behind the end change no byte. -/
@[simp]
theorem byteAt_grow (content : ByteArray) (size offset : Nat) :
    byteAt (grow content size) offset = byteAt content offset := by
  unfold grow
  split
  · rw [byteAt_append]
    split
    · rfl
    · rename_i behind
      rw [byteAt_of_size_le (Nat.le_of_not_lt behind)]
      simp only [byteAt, Array.toList_replicate, List.getD_eq_getElem?_getD,
        List.getElem?_replicate]
      split <;> rfl
  · rfl

/-- A write keeps what stands before and behind its span. -/
theorem write_eq_append {content piece : ByteArray} {start : Nat} (something : piece.size ≠ 0) :
    write content start piece =
      (grow content start).extract 0 start ++ piece ++
        (grow content start).extract (start + piece.size) (grow content start).size := by
  unfold write
  rw [if_neg something, ByteArray.copySlice_eq_append, Nat.zero_add, Nat.sub_zero,
    ByteArray.size_data, Nat.min_self, ByteArray.extract_zero_size, ByteArray.size_data]

/-- Inside its span a write leaves the bytes of the piece, elsewhere the bytes that were there. -/
theorem byteAt_write (content piece : ByteArray) (start offset : Nat) :
    byteAt (write content start piece) offset =
      if start ≤ offset ∧ offset < start + piece.size then byteAt piece (offset - start)
      else byteAt content offset := by
  by_cases nothing : piece.size = 0
  · rw [write, if_pos nothing, if_neg (by omega)]
  rw [← byteAt_grow content start offset, write_eq_append nothing, byteAt_append, byteAt_append]
  have reached := size_grow content start
  generalize grow content start = grown at reached ⊢
  have front : (grown.extract 0 start).size = start := by
    rw [ByteArray.size_extract]
    omega
  rw [ByteArray.size_append, front]
  by_cases before : offset < start
  · rw [if_pos (by omega), if_pos before, if_neg (by omega), byteAt_extract (by omega),
      Nat.zero_add]
  by_cases within : offset < start + piece.size
  · rw [if_pos within, if_neg before, if_pos ⟨by omega, within⟩]
  · rw [if_neg within, if_neg fun inside => within inside.2]
    by_cases inside : offset < grown.size
    · rw [byteAt_extract (by omega)]
      congr 1
      omega
    · rw [byteAt_of_size_le (by rw [ByteArray.size_extract]; omega),
        byteAt_of_size_le (by omega)]

/-- A resize changes no byte before the new end. -/
theorem byteAt_resize {content : ByteArray} {size offset : Nat} (inside : offset < size) :
    byteAt (resize content size) offset = byteAt content offset := by
  unfold resize
  split
  · rw [byteAt_extract (by omega), Nat.zero_add]
  · rw [byteAt_grow]

/-- A write never makes a file shorter. -/
theorem size_le_write (content piece : ByteArray) (start : Nat) :
    content.size ≤ (write content start piece).size := by
  by_cases nothing : piece.size = 0
  · have unchanged : write content start piece = content := by rw [write, if_pos nothing]
    exact Nat.le_of_eq (congrArg ByteArray.size unchanged.symm)
  · rw [size_write content piece start (by omega)]
    exact Nat.le_max_left ..

/-- A span inside a file can be read. -/
theorem read_eq_ok {content : ByteArray} {offset count : Nat}
    (inside : offset + count ≤ content.size) :
    read content offset count = .ok (content.extract offset (offset + count)) := by
  rw [read, if_pos inside]

/-- A span inside a file has its length when it is cut out. -/
theorem size_extract_span {content : ByteArray} {offset count : Nat}
    (inside : offset + count ≤ content.size) :
    (content.extract offset (offset + count)).size = count :=
  size_of_read (read_eq_ok inside)

end BlockDelta.Content
