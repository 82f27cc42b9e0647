import BlockDelta.Proofs.Signature.Canonical
import BlockDelta.Proofs.Signature.Reading
import BlockDelta.Signature.Parallel

/-!
# Every signature is well formed

A signature is made of a basis in memory, at once or shared out, of a basis
behind a reader, or of a stream in which no block says its length or where it
stands. All ways come to blocks that stand where the layout says and are as long
as it says; what follows from that, follows once for all of them.
-/

namespace BlockDelta

namespace Bytes

/-- A piece starts behind those before it and is as long as what is left allows. -/
theorem getElem?_chunks {size : Nat} (positive : 0 < size) (bytes : Bytes) (index : Nat) :
    (chunks size positive bytes)[index]? =
      if index * size < bytes.length then some (span bytes (index * size) size) else none := by
  induction bytes using dropInduction size positive generalizing index with
  | nil => simp
  | cons byte rest ih =>
    rw [chunks_cons]
    cases index with
    | zero =>
      rw [List.getElem?_cons_zero, Nat.zero_mul, List.length_cons, if_pos (Nat.succ_pos _)]
      rfl
    | succ index =>
      have further : index * size < ((byte :: rest).drop size).length ↔
          (index + 1) * size < (byte :: rest).length := by
        rw [List.length_drop, Nat.succ_mul]
        omega
      rw [List.getElem?_cons_succ, ih]
      simp only [further, span, List.drop_drop, Nat.succ_mul, Nat.add_comm size]

end Bytes

namespace Layout

variable {total : Nat} {blockLength : BlockLength} {layout : Layout}

/-- Something of the basis is left for every block that is counted, and for no other. -/
theorem lt_blockCount_iff (cut : ofLength total blockLength = .ok layout) (index : Nat) :
    index < layout.blockCount ↔ index * blockLength.toNat < total := by
  have positive := blockLength.positive
  obtain ⟨rfl, -⟩ := ofLength_eq_ok cut
  change index + 1 ≤ _ ↔ _
  rw [Nat.le_div_iff_mul_le positive, Nat.succ_mul]
  omega

/-- A block is as long as all others, or as what is left of the basis. -/
theorem lengthAt?_eq (cut : ofLength total blockLength = .ok layout) {index : Nat}
    (counted : index < layout.blockCount) :
    layout.lengthAt? index =
      some (min blockLength.toNat (total - index * blockLength.toNat)) := by
  have left := (lt_blockCount_iff cut index).1 counted
  exact lengthAt?_ofLength cut (by omega) (by omega)

/-- Only the last block can be shorter than the others. -/
theorem full_of_succ_lt (cut : ofLength total blockLength = .ok layout) {index : Nat}
    (another : index + 1 < layout.blockCount) :
    blockLength.toNat ≤ total - index * blockLength.toNat := by
  have left := (lt_blockCount_iff cut (index + 1)).1 another
  rw [Nat.succ_mul] at left
  omega

/-- The layout counts as many blocks as are begun. -/
theorem blockCount_eq (cut : ofLength total blockLength = .ok layout) :
    layout.blockCount = total ⌈/⌉ blockLength.toNat := by
  obtain ⟨rfl, -⟩ := ofLength_eq_ok cut
  exact (Nat.ceilDiv_eq_add_pred_div ..).symm

/-- A basis is refused when its blocks cannot be numbered, and only then. -/
theorem ofLength_eq_error_iff :
    (∃ error, ofLength total blockLength = .error error) ↔
      mostBlocks < total ⌈/⌉ blockLength.toNat := by
  rw [Nat.ceilDiv_eq_add_pred_div, ofLength]
  split
  · rename_i many
    exact ⟨fun _ => many, fun _ => ⟨_, rfl⟩⟩
  · rename_i few
    refine ⟨fun refused => ?_, fun many => absurd many few⟩
    obtain ⟨error, impossible⟩ := refused
    cases impossible

/-- As long as something is left, the first blocks make up that much of the basis. -/
theorem sum_lengths (total size count : Nat) :
    ((List.range count).map fun index => min size (total - index * size)).sum =
      min (count * size) total := by
  induction count with
  | zero => simp
  | succ count ih =>
    rw [List.range_succ, List.map_append, List.sum_append, ih, Nat.succ_mul]
    simp only [List.map_cons, List.map_nil, List.sum_cons, List.sum_nil]
    omega

end Layout

namespace Signature

/-- A block is the one with a number, counted from zero, in a layout of what starts at a base. -/
structure Placed (layout : Layout) (base index : Nat) (block : Block) : Prop where
  /-- It has the number. -/
  number : block.number.toNat = index
  /-- It stands behind whole blocks. -/
  offset : block.offset.toNat = base + index * layout.blockLength.toNat
  /-- It has the length that the layout says. -/
  length : layout.lengthAt? index = some block.length
  /-- Before another one it is of full length. -/
  full : index + 1 < layout.blockCount → block.length = layout.blockLength.toNat
  /-- It is neither empty nor longer than that. -/
  short : 1 ≤ block.length ∧ block.length ≤ layout.blockLength.toNat

/-- The blocks of a signature stand one behind the other from a base on, numbered from zero, and
make up a basis of the length that the signature tells. -/
structure WellFormed (signature : Signature) (base : Nat) : Prop where
  /-- There are as many blocks as the layout counts. -/
  counted : signature.blocks.length = signature.layout.blockCount
  /-- The layout counts the blocks that are begun. -/
  ceiling : signature.layout.blockCount = signature.total ⌈/⌉ signature.layout.blockLength.toNat
  /-- All blocks can be numbered. -/
  few : signature.layout.blockCount ≤ 2 ^ 32 - 1
  /-- Every block is in its place. -/
  placed : ∀ (index : Nat) (block : Block), signature.blocks[index]? = some block →
    Placed signature.layout base index block
  /-- The blocks make up the basis. -/
  whole : (signature.blocks.map Block.length).sum = signature.total
  /-- Every strong sum has the length that the rule gives it. -/
  strong : ∀ block ∈ signature.blocks, block.strong.length = signature.spec.length

/-- The blocks of a signature are those of a basis: each has the sums of its slice. -/
structure DescribesBasis (signature : Signature) (generator : Generator) (basis : Bytes) :
    Prop where
  /-- The blocks have the length that was asked for. -/
  blockLength : signature.layout.blockLength = generator.blockLength
  /-- The strong sums follow the rule that was asked for. -/
  spec : signature.spec = generator.spec
  /-- The length of the basis. -/
  total : signature.total = basis.length
  /-- The rolling sums. -/
  weak : ∀ (index : Nat) (block : Block), signature.blocks[index]? = some block → block.sum =
    Rolling.Sum.ofBytes (Bytes.span basis (index * generator.blockLength.toNat) block.length)
  /-- The strong sums. -/
  strong : ∀ (index : Nat) (block : Block), signature.blocks[index]? = some block → block.strong =
    generator.spec.sum (Bytes.span basis (index * generator.blockLength.toNat) block.length)

section

variable {signature : Signature} {base : Nat}

/-- Blocks that are as many and as long as a layout says make up the basis. -/
theorem sum_of_lengths {total : Nat} {blockLength : BlockLength} {layout : Layout}
    {blocks : List Block} (cut : Layout.ofLength total blockLength = .ok layout)
    (counted : blocks.length = layout.blockCount)
    (long : ∀ (index : Nat) (block : Block), blocks[index]? = some block →
      block.length = min blockLength.toNat (total - index * blockLength.toNat)) :
    (blocks.map Block.length).sum = total := by
  have lengths : blocks.map Block.length = (List.range layout.blockCount).map fun index =>
      min blockLength.toNat (total - index * blockLength.toNat) := by
    refine List.ext_getElem (by simp [counted]) fun index here _ => ?_
    rw [List.length_map] at here
    rw [List.getElem_map, List.getElem_map, List.getElem_range]
    exact long index _ (List.getElem?_eq_getElem here)
  have last := (Layout.lt_blockCount_iff cut layout.blockCount).not.1 (Nat.lt_irrefl _)
  rw [lengths, Layout.sum_lengths, Nat.min_eq_right]
  exact Nat.le_of_not_lt last

/-- Blocks that are numbered in their order, stand behind whole blocks and are as long as the layout
says are those of a well-formed signature. -/
theorem wellFormed_of_placed
    (cut : Layout.ofLength signature.total signature.layout.blockLength = .ok signature.layout)
    (small : base + signature.total < UInt64.size)
    (counted : signature.blocks.length = signature.layout.blockCount)
    (placed : ∀ (index : Nat) (block : Block), signature.blocks[index]? = some block →
      block.number = UInt32.ofNat index ∧
        block.offset = UInt64.ofNat (base + index * signature.layout.blockLength.toNat) ∧
        signature.layout.lengthAt? index = some block.sum.length ∧
        block.strong.length = signature.spec.length) :
    signature.WellFormed base := by
  have few := (Layout.ofLength_eq_ok cut).2
  have within {index : Nat} {block : Block} (here : signature.blocks[index]? = some block) :
      index < signature.layout.blockCount := by
    rw [← counted]
    exact (List.getElem?_eq_some_iff.1 here).1
  -- a block is no longer than its length can say
  have long {index : Nat} {block : Block} (here : signature.blocks[index]? = some block) :
      block.length = min signature.layout.blockLength.toNat
        (signature.total - index * signature.layout.blockLength.toNat) := by
    obtain ⟨-, -, length, -⟩ := placed index block here
    rw [Layout.lengthAt?_eq cut (within here)] at length
    rw [Block.length, ← Option.some.inj length]
    have fits := signature.layout.blockLength.fits
    exact Nat.mod_eq_of_lt (by omega)
  refine ⟨counted, Layout.blockCount_eq cut, few, fun index block here => ?_, ?_,
    fun block among => ?_⟩
  · obtain ⟨number, offset, -⟩ := placed index block here
    have before := (Layout.lt_blockCount_iff cut index).1 (within here)
    have positive := signature.layout.blockLength.positive
    have limit : signature.layout.blockCount < UInt32.size :=
      Nat.lt_of_le_of_lt few (by decide)
    refine ⟨?_, ?_, ?_, fun another => ?_, ?_⟩
    · rw [number]
      exact UInt32.toNat_ofNat_of_lt' (Nat.lt_trans (within here) limit)
    · rw [offset]
      exact UInt64.toNat_ofNat_of_lt' (by omega)
    · rw [long here]
      exact Layout.lengthAt?_eq cut (within here)
    · rw [long here]
      exact Nat.min_eq_left (Layout.full_of_succ_lt cut another)
    · rw [long here]
      omega
  · exact sum_of_lengths cut counted fun index block here => long here
  · obtain ⟨index, here⟩ := List.mem_iff_getElem?.1 among
    exact (placed index block here).2.2.2

end

namespace Generator

variable {generator : Generator} {base : Nat} {basis : Bytes} {signature : Signature}

/-- Shared out in any way, the blocks of a basis are those described at once. -/
theorem blocksOfDivision_eq (generator : Generator) (base : Nat) (division : Division)
    (first : Nat) (part : Bytes) :
    generator.blocksOfDivision base division first part =
      (generator.pieces part).mapIdx fun number piece =>
        generator.describe (base + (first + number) * generator.blockLength.toNat)
          (first + number) piece := by
  induction division generalizing first part with
  | whole => rfl
  | cut count front back frontIh backIh =>
    rw [blocksOfDivision, frontIh, backIh]
    unfold pieces
    rcases Nat.lt_or_ge part.length (count * generator.blockLength.toNat) with beyond | inside
    · rw [Nat.min_eq_right (Nat.le_of_lt beyond), List.take_length, List.drop_length,
        Bytes.chunks_nil, List.mapIdx_nil, List.append_nil]
    · rw [Nat.min_eq_left inside]
      have positive := generator.blockLength.positive
      have taken : (part.take (count * generator.blockLength.toNat)).length =
          count * generator.blockLength.toNat := List.length_take_of_le inside
      have number : (Bytes.chunks _ positive
          (part.take (count * generator.blockLength.toNat))).length = count := by
        rw [Bytes.length_chunks, taken, Nat.add_sub_assoc positive, Nat.mul_comm,
          Nat.mul_add_div positive, Nat.div_eq_of_lt (by omega), Nat.add_zero]
      have split := Bytes.chunks_append _ positive count _
        (part.drop (count * generator.blockLength.toNat)) taken
      rw [List.take_append_drop] at split
      rw [split, List.mapIdx_append, number]
      simp only [Nat.add_assoc, Nat.add_comm count]

/-- Sharing out makes no difference. -/
theorem ofBufferParallel_eq (division : Division) :
    generator.ofBufferParallel division base basis = generator.ofBuffer base basis := by
  unfold ofBufferParallel ofBuffer
  rw [blocksOfDivision_eq]
  simp only [Nat.zero_add]

/-- Whether a basis is shared out makes no difference. -/
theorem ofBufferAuto_eq (division : Division) :
    generator.ofBufferAuto division base basis = generator.ofBuffer base basis := by
  unfold ofBufferAuto
  rw [ofBufferParallel_eq, ite_self]

/-- The blocks of a basis in memory, one by one. -/
theorem exists_of_ofBuffer (made : generator.ofBuffer base basis = .ok signature) :
    Layout.ofLength basis.length generator.blockLength = .ok signature.layout ∧
      signature.spec = generator.spec ∧ signature.total = basis.length ∧
      signature.blocks = (generator.pieces basis).mapIdx fun number piece =>
        generator.describe (base + number * generator.blockLength.toNat) number piece := by
  obtain ⟨layout, cut, made⟩ := exists_of_bind_eq_ok made
  cases made
  exact ⟨eq_ok_of_mapError cut, rfl, rfl, rfl⟩

/-- Each block of a basis in memory describes the slice of its place. -/
theorem eq_describe_of_ofBuffer (made : generator.ofBuffer base basis = .ok signature) {index : Nat}
    {block : Block} (here : signature.blocks[index]? = some block) :
    block = generator.describe (base + index * generator.blockLength.toNat) index
      (Bytes.span basis (index * generator.blockLength.toNat) generator.blockLength.toNat) := by
  obtain ⟨-, -, -, blocks⟩ := exists_of_ofBuffer made
  rw [blocks, List.getElem?_mapIdx, pieces, Bytes.getElem?_chunks] at here
  split at here
  · exact (Option.some.inj here).symm
  · cases here

/-- What is made of a basis in memory is well formed and describes the basis. -/
theorem wellFormed_of_ofBuffer (small : base + basis.length < UInt64.size)
    (made : generator.ofBuffer base basis = .ok signature) :
    signature.WellFormed base ∧ signature.DescribesBasis generator basis := by
  obtain ⟨cut, spec, total, blocks⟩ := exists_of_ofBuffer made
  have same : signature.layout.blockLength = generator.blockLength := by
    rw [(Layout.ofLength_eq_ok cut).1]
  have long (index : Nat) : (Bytes.span basis (index * generator.blockLength.toNat)
      generator.blockLength.toNat).length =
        min generator.blockLength.toNat (basis.length - index * generator.blockLength.toNat) := by
    rw [Bytes.span, List.length_take, List.length_drop]
  have counted : signature.blocks.length = signature.layout.blockCount := by
    rw [blocks, List.length_mapIdx, pieces, Bytes.length_chunks, (Layout.ofLength_eq_ok cut).1]
  have wellFormed : signature.WellFormed base := by
    refine wellFormed_of_placed (by rw [total, same]; exact cut) (by rw [total]; exact small)
      counted fun index block here => ?_
    have within : index < signature.layout.blockCount :=
      counted ▸ (List.getElem?_eq_some_iff.1 here).1
    obtain rfl := eq_describe_of_ofBuffer made here
    refine ⟨rfl, by rw [same]; rfl, ?_, ?_⟩
    · rw [Layout.lengthAt?_eq cut within, ← long index]
      exact congrArg some (Rolling.Sum.length_ofBytes _).symm
    · rw [spec]
      exact generator.spec.length_sum _
  have slice (index : Nat) (block : Block) (here : signature.blocks[index]? = some block) :
      Bytes.span basis (index * generator.blockLength.toNat) generator.blockLength.toNat =
        Bytes.span basis (index * generator.blockLength.toNat) block.length := by
    have within : index < signature.layout.blockCount :=
      counted ▸ (List.getElem?_eq_some_iff.1 here).1
    have length := (wellFormed.placed index block here).length
    rw [Layout.lengthAt?_eq cut within, Option.some.injEq] at length
    rw [Bytes.span, Bytes.span, List.take_eq_take_iff, ← length, List.length_drop]
    omega
  refine ⟨wellFormed, same, spec, total, fun index block here => ?_, fun index block here => ?_⟩
  · rw [← slice index block here]
    exact congrArg Block.sum (eq_describe_of_ofBuffer made here)
  · rw [← slice index block here]
    exact congrArg Block.strong (eq_describe_of_ofBuffer made here)

/-- A basis in memory is refused when its blocks cannot be numbered, and only then. -/
theorem ofBuffer_eq_error_iff :
    (∃ error, generator.ofBuffer base basis = .error error) ↔
      2 ^ 32 - 1 < basis.length ⌈/⌉ generator.blockLength.toNat := by
  have many : Layout.mostBlocks = 2 ^ 32 - 1 := rfl
  rw [← many, ← Layout.ofLength_eq_error_iff, ofBuffer]
  cases Layout.ofLength basis.length generator.blockLength with
  | error error => exact ⟨fun _ => ⟨error, rfl⟩, fun _ => ⟨_, rfl⟩⟩
  | ok layout =>
    constructor <;>
    · intro refused
      obtain ⟨error, impossible⟩ := refused
      cases impossible

end Generator

/-- Records that are as many as the layout counts, or fewer, are read as blocks behind whole blocks.
-/
theorem exists_of_placeFrom {total : Nat} {blockLength : BlockLength} {layout : Layout}
    (cut : Layout.ofLength total blockLength = .ok layout) {records : List Record}
    {number index : Nat} {block : Block} (few : number + records.length ≤ layout.blockCount)
    (here : (placeFrom layout number (number * blockLength.toNat) records)[index]? = some block) :
    ∃ record ∈ records, block = ⟨.ofValue record.weak ((layout.lengthAt? (number + index)).getD 0),
      record.strong, UInt64.ofNat ((number + index) * blockLength.toNat),
      UInt32.ofNat (number + index)⟩ := by
  induction records generalizing number index with
  | nil => cases here
  | cons first rest ih =>
    rw [List.length_cons] at few
    cases index with
    | zero =>
      cases here
      exact ⟨first, List.mem_cons_self .., rfl⟩
    | succ index =>
      rw [placeFrom, List.getElem?_cons_succ] at here
      cases rest with
      | nil => cases here
      | cons second others =>
        rw [List.length_cons] at few ih
        -- another record follows, so this block is of full length
        have full := Layout.full_of_succ_lt cut (show number + 1 < layout.blockCount by omega)
        rw [Layout.lengthAt?_eq cut (show number < layout.blockCount by omega), Option.getD_some,
          Nat.min_eq_left full, ← Nat.succ_mul] at here
        obtain ⟨record, among, same⟩ := ih (by omega) here
        rw [show number + 1 + index = number + (index + 1) by omega] at same
        exact ⟨record, List.mem_cons_of_mem _ among, same⟩

/-- The blocks of a stream that is accepted are placed records, as many as the layout counts. -/
theorem exists_records_of_decode {bytes rest : Bytes} {signature : Signature}
    (read : decode bytes = .ok (signature, rest)) :
    Layout.ofLength signature.total signature.layout.blockLength = .ok signature.layout ∧
      signature.total < UInt64.size ∧
      ∃ records : List Record, signature.blocks = placeFrom signature.layout 0 0 records ∧
        records.length = signature.layout.blockCount ∧
        ∀ record ∈ records, record.strong.length = signature.spec.length := by
  obtain ⟨header, behind, rfl, seeded⟩ := exists_header_of_decode read
  rw [decode_header header behind seeded] at read
  obtain ⟨empty, opened, recordsOn⟩ := exists_of_bind_eq_ok read
  obtain ⟨⟨blocks, last⟩, recordsRead, made⟩ := exists_of_bind_eq_ok recordsOn
  cases made
  obtain ⟨records, count, strong, rfl⟩ := exists_of_decodeRecords recordsRead
  have describes := Header.describes_of_opened opened
  have again := decodeRecords_append empty.layout strong 0 0 [] rest
  rw [count, recordsRead] at again
  refine ⟨describes.cut, describes.total ▸ header.total.toNat_lt, records, ?_, count, ?_⟩
  · exact congrArg Prod.fst (Except.ok.inj again)
  · exact describes.kept ▸ strong

/-- What is read from a stream is well formed. -/
theorem wellFormed_of_decode {bytes rest : Bytes} {signature : Signature}
    (read : decode bytes = .ok (signature, rest)) : signature.WellFormed 0 := by
  obtain ⟨cut, small, records, blocks, count, strong⟩ := exists_records_of_decode read
  have length (layout : Layout) (number offset : Nat) (records : List Record) :
      (placeFrom layout number offset records).length = records.length := by
    induction records generalizing number offset with
    | nil => rfl
    | cons first others ih => exact congrArg (· + 1) (ih _ _)
  have counted : signature.blocks.length = signature.layout.blockCount := by
    rw [blocks, length, count]
  refine wellFormed_of_placed cut (by rwa [Nat.zero_add]) counted fun index block here => ?_
  have within : index < signature.layout.blockCount :=
    counted ▸ (List.getElem?_eq_some_iff.1 here).1
  have start : (placeFrom signature.layout 0 (0 * signature.layout.blockLength.toNat)
      records)[index]? = some block := by
    rw [Nat.zero_mul, ← blocks]
    exact here
  have few : 0 + records.length ≤ signature.layout.blockCount := by omega
  obtain ⟨record, among, rfl⟩ := exists_of_placeFrom cut few start
  refine ⟨by rw [Nat.zero_add], by rw [Nat.zero_add, Nat.zero_add], ?_, strong record among⟩
  rw [Nat.zero_add, Layout.lengthAt?_eq cut within]
  rfl

/-- Every signature is well formed. One that is made of a basis in memory, however the basis is
shared out, starts at the base that was given, and its blocks have the sums of their slices of the
basis; only a basis with more blocks than can be numbered is refused. One that is made of what a
reader delivers starts at zero, and so does one that is read from a stream. -/
theorem wellFormed_of_made :
    (∀ (generator : Generator) base basis division signature,
      base + basis.length < UInt64.size →
      (generator.ofBuffer base basis = .ok signature ∨
        generator.ofBufferParallel division base basis = .ok signature ∨
        generator.ofBufferAuto division base basis = .ok signature) →
      signature.WellFormed base ∧ signature.DescribesBasis generator basis) ∧
    (∀ (generator : Generator) base basis division,
      ((∃ error, generator.ofBuffer base basis = .error error) ↔
        2 ^ 32 - 1 < basis.length ⌈/⌉ generator.blockLength.toNat) ∧
      ((∃ error, generator.ofBufferParallel division base basis = .error error) ↔
        2 ^ 32 - 1 < basis.length ⌈/⌉ generator.blockLength.toNat) ∧
      ((∃ error, generator.ofBufferAuto division base basis = .error error) ↔
        2 ^ 32 - 1 < basis.length ⌈/⌉ generator.blockLength.toNat)) ∧
    (∀ (generator : Generator) reader signature, generator.ofReader reader = .ok signature →
      signature.WellFormed 0 ∧ signature.DescribesBasis generator reader.delivered) ∧
    ∀ bytes signature rest, decode bytes = .ok (signature, rest) → signature.WellFormed 0 := by
  refine ⟨fun generator base basis division signature small made => ?_,
    fun generator base basis division => ?_, fun generator reader signature made => ?_,
    fun bytes signature rest => wellFormed_of_decode⟩
  · rw [Generator.ofBufferAuto_eq, Generator.ofBufferParallel_eq, or_self, or_self] at made
    exact Generator.wellFormed_of_ofBuffer small made
  · rw [Generator.ofBufferAuto_eq, Generator.ofBufferParallel_eq]
    have refused : (∃ error, generator.ofBuffer base basis = .error error) ↔
        2 ^ 32 - 1 < basis.length ⌈/⌉ generator.blockLength.toNat :=
      Generator.ofBuffer_eq_error_iff
    exact ⟨refused, refused, refused⟩
  · have same := Generator.ofBuffer_of_ofReader made
    obtain ⟨cut, -⟩ := Generator.exists_of_ofBuffer same
    have small := Generator.total_lt cut (Nat.le_refl _) generator.blockLength.fits
    exact Generator.wellFormed_of_ofBuffer (by rwa [Nat.zero_add]) same

/-- Five bytes in blocks of two, shared out behind the first block, behind a reader that asks to
repeat a read, and in a stream. -/
theorem wellFormed_of_made_remainder :
    let generator : Generator :=
      ⟨⟨2, by decide, by decide⟩, ⟨.xxh64 7, 3, [9], by decide, by decide⟩⟩
    let contents : Contents :=
      ⟨⟨1, 0, 2, 3, 5, [9]⟩, [⟨1, [1, 2, 3]⟩, ⟨2, [4, 5, 6]⟩, ⟨3, [7, 8, 9]⟩]⟩
    (∃ signature, generator.ofBufferParallel (.cut 1 .whole .whole) 10 [1, 2, 3, 4, 5] =
      .ok signature ∧ signature.WellFormed 10 ∧
        signature.DescribesBasis generator [1, 2, 3, 4, 5]) ∧
    (∃ signature, generator.ofReader [.data [1], .interrupted, .data [2, 3, 4, 5]] =
      .ok signature ∧ signature.DescribesBasis generator [1, 2, 3, 4, 5]) ∧
    ∃ signature rest, decode (contents.bytes ++ [255]) = .ok (signature, rest) ∧
      signature.WellFormed 0 := by
  intro generator contents
  obtain ⟨inMemory, refused, behindReader, inStream⟩ := wellFormed_of_made
  have shared : ∃ signature,
      generator.ofBufferParallel (.cut 1 .whole .whole) 10 [1, 2, 3, 4, 5] = .ok signature := by
    cases made : generator.ofBufferParallel (.cut 1 .whole .whole) 10 [1, 2, 3, 4, 5] with
    | ok signature => exact ⟨signature, rfl⟩
    | error error =>
      have many := (refused generator 10 [1, 2, 3, 4, 5] (.cut 1 .whole .whole)).2.1.1 ⟨_, made⟩
      exact absurd many (by decide)
  have gathered : ∃ signature,
      generator.ofReader [.data [1], .interrupted, .data [2, 3, 4, 5]] = .ok signature := by
    simp [Generator.ofReader, Generator.blocksOfReader, Reader.fill, Reader.fillInto, generator,
      Layout.mostBlocks, Layout.ofLength, UInt32.size, bind, Except.bind, pure, Except.pure,
      Except.mapError]
  have valid : contents.Valid := {
    header := {
      id := by decide
      blockLength := by decide
      kept := by decide
      blockCount := by decide
      seed := by decide }
    count := by decide
    strong := by simp [contents] }
  obtain ⟨signature, made⟩ := shared
  obtain ⟨read, reading⟩ := gathered
  obtain ⟨streamed, decoded, -⟩ := valid.exists_decode
  obtain ⟨placed, describes⟩ :=
    inMemory generator 10 _ (.cut 1 .whole .whole) signature (by decide) (.inr (.inl made))
  exact ⟨⟨signature, made, placed, describes⟩,
    ⟨read, reading, (behindReader generator _ read reading).2⟩,
    streamed, [255], decoded [255], inStream _ _ _ (decoded [255])⟩

end Signature

end BlockDelta
