import BlockDelta.Proofs.Pieces
import BlockDelta.Proofs.Rolling.Law
import BlockDelta.Signature.Generate

/-!
# The blocks of a signature

The blocks of a basis in memory are described piece by piece, with a running
offset and a running number; that each offset is computed as a product makes no
difference, because only the last piece can be short. The layout, which knows
nothing but lengths, gives every piece its length. So a record, which carries
neither length nor offset nor number, loses nothing.
-/

namespace BlockDelta

namespace Rolling.Sum

/-- The word of a sum holds its second half above its first. -/
theorem toNat_value (sum : Sum) :
    sum.value.toNat = sum.second.toNat * 2 ^ 16 + sum.first.toNat := by
  have first := sum.first.toNat_lt
  have second := sum.second.toNat_lt
  unfold value
  rw [UInt32.toNat_or, UInt32.toNat_shiftLeft, UInt16.toNat_toUInt32, UInt16.toNat_toUInt32]
  have shift : (16 : UInt32).toNat % 32 = 16 := rfl
  rw [shift, Nat.mod_eq_of_lt (by rw [Nat.shiftLeft_eq]; omega),
    ← Nat.shiftLeft_add_eq_or_of_lt first, Nat.shiftLeft_eq]

/-- A sum is given back by its word and its length. -/
theorem ofValue_value (sum : Sum) : ofValue sum.value sum.length = sum := by
  have first := sum.first.toNat_lt
  have second := sum.second.toNat_lt
  have low : sum.value.toUInt16 = sum.first := by
    rw [← UInt16.toNat_inj, UInt32.toNat_toUInt16, toNat_value]
    omega
  have high : (sum.value >>> 16).toUInt16 = sum.second := by
    have shift : (16 : UInt32).toNat % 32 = 16 := rfl
    rw [← UInt16.toNat_inj, UInt32.toNat_toUInt16, UInt32.toNat_shiftRight, shift, toNat_value,
      Nat.shiftRight_eq_div_pow]
    omega
  rw [ofValue, low, high]

/-- A word is given back by the sum that it is unpacked to. -/
theorem value_ofValue (value : UInt32) (length : Nat) : (ofValue value length).value = value := by
  rw [← UInt32.toNat_inj, toNat_value]
  have shift : (16 : UInt32).toNat % 32 = 16 := rfl
  have bound := value.toNat_lt
  simp only [ofValue, UInt32.toNat_toUInt16, UInt32.toNat_shiftRight, shift,
    Nat.shiftRight_eq_div_pow]
  omega

end Rolling.Sum

namespace Layout

/-- What a cut that succeeds says about the basis. -/
theorem ofLength_eq_ok {total : Nat} {blockLength : BlockLength} {layout : Layout}
    (cut : ofLength total blockLength = .ok layout) :
    layout = ⟨blockLength, total % blockLength.toNat,
      (total + blockLength.toNat - 1) / blockLength.toNat⟩ ∧ layout.blockCount ≤ mostBlocks := by
  unfold ofLength at cut
  simp only [] at cut
  split at cut
  · cases cut
  · rename_i few
    cases cut
    exact ⟨rfl, Nat.le_of_not_lt few⟩

/-- Behind whole blocks the number of blocks goes on with that of the rest. -/
theorem blocks_add (number left : Nat) {size : Nat} (positive : 0 < size) :
    (number * size + left + size - 1) / size = number + (left + size - 1) / size := by
  rw [show number * size + left + size - 1 = left + size - 1 + size * number by
    rw [Nat.mul_comm size]
    omega, Nat.add_mul_div_left _ _ positive, Nat.add_comm]

/-- A layout knows the length of every piece of the basis that it cuts. -/
theorem lengthAt?_ofLength {total number left : Nat} {blockLength : BlockLength} {layout : Layout}
    (cut : ofLength total blockLength = .ok layout) (something : 0 < left)
    (place : total = number * blockLength.toNat + left) :
    layout.lengthAt? number = some (min blockLength.toNat left) := by
  have positive := blockLength.positive
  obtain ⟨rfl, _⟩ := ofLength_eq_ok cut
  have count := blocks_add number left positive
  rw [← place] at count
  simp only [lengthAt?, count]
  by_cases short : left < blockLength.toNat
  · have one : (left + blockLength.toNat - 1) / blockLength.toNat = 1 :=
      Nat.div_eq_of_lt_le (by omega) (by omega)
    have rest : total % blockLength.toNat = left := by
      rw [place, Nat.add_comm, Nat.add_mul_mod_self_right, Nat.mod_eq_of_lt short]
    rw [one, rest, if_neg (by omega), if_pos ⟨rfl, by omega⟩, Nat.min_eq_right (by omega)]
  · have least : 1 ≤ (left + blockLength.toNat - 1) / blockLength.toNat :=
      (Nat.one_le_div_iff positive).2 (by omega)
    rw [if_neg (by omega), if_neg ?_, Nat.min_eq_left (by omega)]
    rintro ⟨last, short⟩
    -- a last block that is as long as the others leaves no remainder
    have full : left = blockLength.toNat := by
      by_contra longer
      have two : 2 ≤ (left + blockLength.toNat - 1) / blockLength.toNat :=
        (Nat.le_div_iff_mul_le positive).2 (by omega)
      omega
    rw [place, full, Nat.add_mod_right, Nat.mul_mod_left] at short
    exact short rfl

end Layout

namespace Bytes

/-- The pieces of a basis are as many as its layout counts. -/
theorem length_chunks {size : Nat} (positive : 0 < size) (bytes : Bytes) :
    (chunks size positive bytes).length = (bytes.length + size - 1) / size := by
  induction bytes using dropInduction size positive with
  | nil =>
    simp only [chunks_nil, List.length_nil, Nat.zero_add]
    exact (Nat.div_eq_of_lt (by omega)).symm
  | cons byte rest ih =>
    have filled : 0 < (byte :: rest).length := Nat.succ_pos _
    rw [chunks_cons, List.length_cons, ih, List.length_drop]
    by_cases last : (byte :: rest).length ≤ size
    · rw [Nat.sub_eq_zero_of_le last, Nat.zero_add, Nat.div_eq_of_lt (by omega)]
      exact (Nat.div_eq_of_lt_le (by omega) (by omega)).symm
    · have split := Layout.blocks_add 1 ((byte :: rest).length - size) positive
      rw [Nat.one_mul, Nat.add_sub_cancel' (by omega)] at split
      omega

end Bytes

namespace Signature.Generator

/-- The blocks of pieces, with a running offset and a running number. -/
def describeFrom (generator : Generator) (offset number : Nat) : List Bytes → List Block
  | [] => []
  | piece :: rest =>
    generator.describe offset number piece ::
      generator.describeFrom (offset + piece.length) (number + 1) rest

/-- That the offset of each piece is computed as a product makes no difference. -/
theorem mapIdx_describe (generator : Generator) (base number : Nat) (basis : Bytes) :
    ((generator.pieces basis).mapIdx fun index piece => generator.describe
        (base + (number + index) * generator.blockLength.toNat) (number + index) piece) =
      generator.describeFrom (base + number * generator.blockLength.toNat) number
        (generator.pieces basis) := by
  unfold pieces
  induction basis using Bytes.dropInduction generator.blockLength.toNat
    generator.blockLength.positive generalizing number with
  | nil => simp [describeFrom]
  | cons byte rest ih =>
    rw [Bytes.chunks_cons, List.mapIdx_cons, describeFrom, Nat.add_zero]
    by_cases last : (byte :: rest).length ≤ generator.blockLength.toNat
    · rw [List.drop_of_length_le last, Bytes.chunks_nil, List.mapIdx_nil, describeFrom]
    · have full : ((byte :: rest).take generator.blockLength.toNat).length =
          generator.blockLength.toNat := List.length_take_of_le (by omega)
      have moved : base + number * generator.blockLength.toNat + generator.blockLength.toNat =
          base + (number + 1) * generator.blockLength.toNat := by
        rw [Nat.succ_mul, Nat.add_assoc]
      rw [full, moved, ← ih (number + 1)]
      simp only [Nat.add_assoc, Nat.add_comm 1]

/-- Each block describes one of the pieces, at the place and under the number of that piece. -/
theorem exists_of_mem_describeFrom {generator : Generator} {offset number : Nat}
    {pieces : List Bytes} {block : Block}
    (among : block ∈ generator.describeFrom offset number pieces) :
    ∃ front piece back, pieces = front ++ piece :: back ∧
      block = generator.describe (offset + front.flatten.length) (number + front.length) piece := by
  induction pieces generalizing offset number with
  | nil => cases among
  | cons piece rest ih =>
    rcases List.mem_cons.1 among with rfl | later
    · exact ⟨[], piece, rest, rfl, rfl⟩
    · obtain ⟨front, other, back, rfl, rfl⟩ := ih later
      refine ⟨piece :: front, other, back, rfl, ?_⟩
      rw [List.flatten_cons, List.length_append, List.length_cons, Nat.add_assoc, Nat.add_assoc,
        Nat.add_comm 1]

/-- Each block of a basis has the length and the sums of one of its pieces, and its offset is where
that piece stands. -/
theorem exists_piece_of_mem {generator : Generator} {basis : Bytes} {block : Block}
    (small : basis.length < UInt64.size)
    (among : block ∈ generator.describeFrom 0 0 (generator.pieces basis)) :
    ∃ front piece back, basis = front ++ (piece ++ back) ∧ piece ∈ generator.pieces basis ∧
      block.offset.toNat = front.length ∧ block.length = piece.length ∧
      block.weak = (Rolling.Sum.ofBytes piece).value ∧ block.strong = generator.spec.sum piece := by
  obtain ⟨front, piece, back, cut, rfl⟩ := exists_of_mem_describeFrom among
  have listed : piece ∈ generator.pieces basis := by
    rw [cut]
    exact List.mem_append_right _ (List.mem_cons_self ..)
  have whole : basis = front.flatten ++ (piece ++ back.flatten) := by
    rw [← List.flatten_cons, ← List.flatten_append, ← cut]
    exact (Bytes.flatten_chunks ..).symm
  have inside : front.flatten.length < UInt64.size := by
    refine Nat.lt_of_le_of_lt ?_ small
    rw [whole, List.length_append]
    exact Nat.le_add_right ..
  have narrow : piece.length < UInt32.size :=
    Nat.lt_of_le_of_lt (Bytes.mem_chunks listed).2 generator.blockLength.fits
  refine ⟨front.flatten, piece, back.flatten, whole, listed, ?_, ?_, rfl, rfl⟩
  · change (UInt64.ofNat (0 + front.flatten.length)).toNat = _
    rw [Nat.zero_add]
    exact UInt64.toNat_ofNat_of_lt' inside
  · change (Rolling.Sum.ofBytes piece).length % UInt32.size = _
    rw [Rolling.Sum.length_ofBytes, Nat.mod_eq_of_lt narrow]

end Signature.Generator

end BlockDelta
