import BlockDelta.Proofs.Running
import BlockDelta.Proofs.Signature.RoundTrip
import BlockDelta.Proofs.Storage.Delivery

/-!
# A reader is described as what it delivers

Whatever pieces a reader delivers its bytes in, and however often it asks to
repeat a read, gathering a block takes the next bytes up to the length of a
block, and fewer only at the end. A block gets its number before it is known
how many will follow, while a basis in memory is counted by a division before
any block is described. Still the outcome of gathering is given by two things
alone, the bytes that the reader delivers and the way in which it ends. So a
basis behind a reader gets the signature that the same bytes get in memory, and
a reader that fails passes its failure on, unless the numbers are used up first.
-/

namespace BlockDelta

namespace Signature.Generator

variable {generator : Generator}

/-- Behind a first piece of full length a basis is cut on its own. -/
theorem pieces_append {piece : Bytes} (full : piece.length = generator.blockLength.toNat)
    (rest : Bytes) : generator.pieces (piece ++ rest) = piece :: generator.pieces rest := by
  have positive := generator.blockLength.positive
  have filled : piece ≠ [] := List.length_pos_iff.1 (full ▸ positive)
  rw [pieces, Bytes.chunks_append _ positive 1 piece rest (by omega),
    Bytes.chunks_of_short _ positive (Nat.le_of_eq full) filled]
  rfl

/-- The outcome of gathering behind the blocks already described (newest first), given the bytes
still delivered and the failure, if any, behind them. There is a number for one block more than a
layout allows, and bytes in front of a failure that do not fill a block need none. -/
def gathered (generator : Generator) (described : List Block) (number total : Nat)
    (delivered : Bytes) : Option Fault → Except Error (List Block × Nat)
  | none =>
    if number + (generator.pieces delivered).length ≤ Layout.mostBlocks + 1 then
      .ok (described.reverse ++ generator.describeFrom total number (generator.pieces delivered),
        total + delivered.length)
    else .error (.tooManyBlocks Layout.mostBlocks)
  | some fault =>
    if number + delivered.length / generator.blockLength.toNat ≤ Layout.mostBlocks + 1 then
      .error (.io fault)
    else .error (.tooManyBlocks Layout.mostBlocks)

section

variable {described : List Block} {number total : Nat}

/-- At the end nothing is gathered. -/
theorem gathered_nil (few : number ≤ Layout.mostBlocks + 1) :
    generator.gathered described number total [] none = .ok (described.reverse, total) := by
  have nothing : generator.pieces [] = [] := Bytes.chunks_nil ..
  have counted : number + ([] : List Bytes).length ≤ Layout.mostBlocks + 1 := few
  rw [gathered, nothing, if_pos counted, describeFrom, List.append_nil]
  rfl

/-- A whole block is described, and gathering goes on behind it. -/
theorem gathered_append {piece : Bytes} (full : piece.length = generator.blockLength.toNat)
    (delivered : Bytes) (ending : Option Fault) :
    generator.gathered described number total (piece ++ delivered) ending =
      generator.gathered (generator.describe total number piece :: described) (number + 1)
        (total + piece.length) delivered ending := by
  have positive := generator.blockLength.positive
  cases ending with
  | none =>
    simp only [gathered, pieces_append full, describeFrom, List.length_cons, List.length_append,
      List.reverse_cons, List.append_assoc, List.singleton_append, Nat.add_assoc, Nat.add_comm 1]
  | some fault =>
    simp only [gathered, List.length_append, full, Nat.add_div_left _ positive, Nat.add_assoc,
      Nat.add_comm 1]

/-- A block that is not whole is the last one. -/
theorem gathered_short {piece : Bytes} (something : piece ≠ [])
    (short : piece.length < generator.blockLength.toNat) (few : number ≤ Layout.mostBlocks) :
    generator.gathered described number total piece none =
      .ok ((generator.describe total number piece :: described).reverse, total + piece.length) := by
  have single : generator.pieces piece = [piece] :=
    Bytes.chunks_of_short _ generator.blockLength.positive (Nat.le_of_lt short) something
  have counted : number + [piece].length ≤ Layout.mostBlocks + 1 := Nat.succ_le_succ few
  rw [gathered, single, if_pos counted, List.reverse_cons]
  rfl

/-- When the numbers are used up, another block is refused; in front of a failure it is one only if
it is whole. -/
theorem gathered_many {delivered : Bytes} {ending : Option Fault}
    (many : Layout.mostBlocks < number) (something : delivered ≠ [])
    (whole : ending ≠ none → generator.blockLength.toNat ≤ delivered.length) :
    generator.gathered described number total delivered ending =
      .error (.tooManyBlocks Layout.mostBlocks) := by
  have positive := generator.blockLength.positive
  cases ending with
  | none =>
    have filled := List.length_pos_iff.2 something
    have another : 0 < (generator.pieces delivered).length := by
      rw [pieces, Bytes.length_chunks]
      exact Nat.div_pos (by omega) positive
    rw [gathered, if_neg (by omega)]
  | some fault =>
    have another := Nat.div_pos (whole (Option.some_ne_none fault)) positive
    rw [gathered, if_neg (by omega)]

end

/-- Gathering depends only on the bytes that a reader delivers and on the way in which it ends. -/
theorem blocksOfReader_eq {described : List Block} {number total : Nat} {reader : Reader}
    (few : number ≤ Layout.mostBlocks + 1) :
    generator.blocksOfReader described number total reader =
      generator.gathered described number total reader.delivered reader.fault? := by
  have positive := generator.blockLength.positive
  fun_induction blocksOfReader generator described number total reader with
  | case1 described number total reader fault failed =>
    -- the bytes in front of the failure are fewer than a block
    obtain ⟨short, ending⟩ := Reader.short_of_fillInto_eq_error failed
    rw [ending, gathered, Nat.div_eq_of_lt short, Nat.add_zero, if_pos few]
  | case2 described number total reader piece rest filled nothing =>
    rcases Reader.split_of_fill filled with ⟨full, -⟩ | ⟨-, last, ends⟩
    · omega
    · rw [ends, last, List.length_eq_zero_iff.1 nothing, gathered_nil few]
  | case3 described number total reader piece rest filled something many =>
    have content : piece ≠ [] := fun none => something (List.length_eq_zero_iff.2 none)
    rcases Reader.split_of_fill filled with ⟨full, more, -⟩ | ⟨-, last, ends⟩
    · rw [more, gathered_many many (List.append_ne_nil_of_left_ne_nil content _)]
      intro _
      rw [List.length_append]
      omega
    · rw [ends, last, gathered_many many content fun failing => absurd rfl failing]
  | case4 described number total reader piece rest filled something further longer whole short =>
    have content : piece ≠ [] := fun none => something (List.length_eq_zero_iff.2 none)
    rcases Reader.split_of_fill filled with ⟨full, -⟩ | ⟨-, last, ends⟩
    · omega
    · rw [ends, last, gathered_short content short (Nat.le_of_not_lt further)]
  | case5 described number total reader piece rest filled something further longer whole long ih =>
    rcases Reader.split_of_fill filled with ⟨full, more, same⟩ | ⟨short, -⟩
    · rw [ih (by omega), more, same, gathered_append full]
    · omega

/-- The pieces of a basis are as many as the blocks that are begun. -/
theorem length_pieces (basis : Bytes) :
    (generator.pieces basis).length = basis.length ⌈/⌉ generator.blockLength.toNat := by
  rw [pieces, Bytes.length_chunks, Nat.ceilDiv_eq_add_pred_div]

/-- A reader that ends is described as its bytes in memory, errors included, up to the first block
that gets no number. -/
theorem ofReader_of_ends {reader : Reader} (ends : reader.fault? = none) :
    generator.ofReader reader =
      if reader.delivered.length ⌈/⌉ generator.blockLength.toNat ≤ Layout.mostBlocks + 1 then
        generator.ofBuffer 0 reader.delivered
      else .error (.tooManyBlocks Layout.mostBlocks) := by
  rw [ofReader, blocksOfReader_eq (Nat.zero_le _), ends, gathered, length_pieces, Nat.zero_add,
    Nat.zero_add]
  split
  · cases cut : Layout.ofLength reader.delivered.length generator.blockLength with
    | error error =>
      simp only [ofBuffer, cut]
      simp only [bind, Except.bind, cut]
      rfl
    | ok layout =>
      rw [ofBuffer_eq_ok 0 cut]
      simp only [bind, Except.bind, cut]
      rfl
  · rfl

/-- A reader that fails passes its failure on, up to the first whole block that gets no number. -/
theorem ofReader_of_fails {reader : Reader} {fault : Fault} (fails : reader.fault? = some fault) :
    generator.ofReader reader =
      if reader.delivered.length / generator.blockLength.toNat ≤ Layout.mostBlocks + 1 then
        .error (.io fault)
      else .error (.tooManyBlocks Layout.mostBlocks) := by
  rw [ofReader, blocksOfReader_eq (Nat.zero_le _), fails, gathered, Nat.zero_add]
  split
  · rfl
  · rfl

/-- The signature of what a reader delivers is that of the same bytes in memory. -/
theorem ofBuffer_of_ofReader {signature : Signature} {reader : Reader}
    (made : generator.ofReader reader = .ok signature) :
    generator.ofBuffer 0 reader.delivered = .ok signature := by
  cases ending : reader.fault? with
  | none =>
    rw [ofReader_of_ends ending] at made
    split at made
    · exact made
    · cases made
  | some fault =>
    rw [ofReader_of_fails ending] at made
    split at made <;> cases made

end Signature.Generator

end BlockDelta
