import BlockDelta.Matching.Table
import BlockDelta.Proofs.Matching.Lookup

/-!
# The index in memory finds what a linear scan finds

The places of a rolling sum are those of its blocks in signature order, so a
search through them meets the blocks of a group in its order. A strong sum that
is known is that of the window, whenever it was computed. So the table finds
what the index finds, and both find what one would find who compares the window
with every block of the signature.
-/

namespace BlockDelta

namespace BlockTable

variable {blocks : Array Block}

/-- Places that are entered stand behind those of their rolling sum, in order. -/
theorem toList_getD_foldl_enter (entered : List (Fin blocks.size))
    (places : Std.HashMap UInt32 (Array (Fin blocks.size))) (weak : UInt32) :
    ((entered.foldl (enter blocks) places).getD weak #[]).toList =
      (places.getD weak #[]).toList ++
        entered.filter fun place => (blockIn blocks place).weak = weak := by
  induction entered generalizing places with
  | nil => rw [List.foldl_nil, List.filter_nil, List.append_nil]
  | cons place rest ih =>
    rw [List.foldl_cons, ih, enter, Std.HashMap.getD_insert]
    by_cases same : (blockIn blocks place).weak = weak
    · rw [if_pos (beq_iff_eq.2 same), List.filter_cons, if_pos (decide_eq_true same), same,
        Array.toList_push, List.append_assoc]
      rfl
    · rw [if_neg (fun equal => same (beq_iff_eq.1 equal)), List.filter_cons,
        if_neg (fun equal => same (of_decide_eq_true equal))]

/-- The blocks in all places are those of the array. -/
theorem map_finRange (blocks : Array Block) :
    (List.finRange blocks.size).map (blockIn blocks) = blocks.toList :=
  List.map_getElem_finRange blocks.toList

/-- A search that knows the strong sum of the window, or nothing, chooses among the blocks. -/
theorem search_eq_choose (table : BlockTable) (front back : Bytes) (preferred : Option UInt32)
    {known : Option Bytes} (honest : known.getD (table.spec.sumParts front back) =
      table.spec.sumParts front back)
    (first : Option Block) (places : List (Fin table.blocks.size)) :
    table.search front back preferred known first places =
      BlockIndex.choose (front.length + back.length) (table.spec.sumParts front back) preferred
        first (places.map (blockIn table.blocks)) := by
  induction places generalizing known first with
  | nil => rfl
  | cons place rest ih =>
    rw [search, List.map_cons, BlockIndex.choose, honest]
    by_cases length : (blockIn table.blocks place).length = front.length + back.length
    · by_cases strong : (blockIn table.blocks place).strong = table.spec.sumParts front back
      · simp only [length, strong, ne_eq, not_true_eq_false, if_false, and_self, if_true]
        rw [ih rfl]
      · simp only [length, strong, ne_eq, not_true_eq_false, not_false_eq_true, if_false,
          and_false, if_true]
        exact ih rfl first
    · simp only [length, ne_eq, not_false_eq_true, false_and, if_false, if_true]
      exact ih honest first

/-- The blocks in the places of a rolling sum are those of the signature that have it. -/
theorem blocks_of_places (signature : Signature) (weak : UInt32) :
    ((ofSignature signature).places.getD weak #[]).toList.map
        (blockIn (ofSignature signature).blocks) =
      signature.blocks.filter fun block => block.weak = weak := by
  let blocks := signature.blocks.toArray
  have entered := toList_getD_foldl_enter (List.finRange blocks.size) ∅ weak
  have begun : ((∅ : Std.HashMap UInt32 (Array (Fin blocks.size))).getD weak #[]).toList = [] := by
    simp
  rw [begun, List.nil_append] at entered
  have split : ((List.finRange blocks.size).filter fun place =>
      (blockIn blocks place).weak = weak).map (blockIn blocks) =
        blocks.toList.filter fun block => block.weak = weak := by
    rw [← map_finRange blocks, List.filter_map]
    rfl
  exact (congrArg _ entered).trans split

/-- Nothing is chosen where no block has the length of the window. -/
theorem choose_of_absent {length : Nat} {group : List Block}
    (absent : ∀ block ∈ group, block.length ≠ length) (strong : Bytes)
    (preferred : Option UInt32) (first : Option Block) :
    BlockIndex.choose length strong preferred first group = first := by
  induction group with
  | nil => rfl
  | cons block rest ih =>
    obtain ⟨other, others⟩ := List.forall_mem_cons.1 absent
    rw [BlockIndex.choose, if_neg (fun hit => other hit.1), ih others]

/-- The table of a signature finds what its index finds. -/
theorem find?_eq_index (signature : Signature) (sum : Rolling.Sum) (front back : Bytes)
    (preferred : Option UInt32) :
    (ofSignature signature).find? sum front back preferred =
      (BlockIndex.ofSignature signature).find? sum front back preferred := by
  let table := ofSignature signature
  let group := (BlockIndex.ofSignature signature).group sum.value
  have searched : table.find? sum front back preferred =
      table.search front back preferred none none (table.places.getD sum.value #[]).toList := by
    rw [find?, Std.HashMap.getD_eq_getD_getElem?]
    cases table.places[sum.value]? <;> rfl
  have grouped : group = signature.blocks.filter fun block => block.weak = sum.value :=
    BlockIndex.getD_groupsOf _ _
  rw [searched, search_eq_choose table front back preferred rfl, blocks_of_places, ← grouped,
    BlockIndex.find?, BlockIndex.findWith?]
  split
  · rfl
  · -- the index computes no strong sum, and the table would choose nothing with one
    rename_i missing
    refine choose_of_absent (fun block found same => missing ?_) _ _ _
    exact List.any_eq_true.2 ⟨block, found, beq_iff_eq.2 same⟩

/-- Whatever the blocks of a signature are, as long as their lengths are words of 32 bits, and
whatever sums a window in two parts is given: of the blocks that have the sums' value, the window's
length and its strong sum, in signature order, the first one with the preferred number is found, if
there is one, and otherwise the first one. -/
theorem lookup_eq_scan (signature : Signature)
    (narrow : ∀ block ∈ signature.blocks, block.sum.length < UInt32.size) (sum : Rolling.Sum)
    (front back : Bytes) (preferred : Option UInt32) :
    let hits := signature.blocks.filter fun block =>
      block.weak = sum.value ∧ block.sum.length = front.length + back.length ∧
        block.strong = signature.spec.sum (front ++ back)
    let found :=
      match hits.find? fun block => preferred = some block.number with
      | some block => some block
      | none => hits.head?
    (BlockIndex.ofSignature signature).find? sum front back preferred = found ∧
      (ofSignature signature).find? sum front back preferred = found := by
  intro hits found
  have measured : hits = signature.blocks.filter fun block =>
      block.weak = sum.value ∧ block.length = front.length + back.length ∧
        block.strong = signature.spec.sum (front ++ back) := by
    refine List.filter_congr fun block among => ?_
    rw [Block.length, Nat.mod_eq_of_lt (narrow block among)]
  have scanned : (BlockIndex.ofSignature signature).find? sum front back preferred = found := by
    refine (BlockIndex.findWith?_ofSignature signature sum _ _ preferred).trans ?_
    rw [← measured, Block.preferredOrFirst]
    cases wanted : hits.find? fun block => preferred = some block.number <;>
      simp only [found, wanted] <;> rfl
  rw [find?_eq_index]
  exact ⟨scanned, scanned⟩

/-- Of three blocks with the same bytes the last one is preferred; of no such number there is one,
so the first is found, and not the one before it, which has other bytes. -/
theorem lookup_eq_scan_repeated :
    let block (number : UInt32) (bytes : Bytes) : Block :=
      ⟨.ofBytes bytes, Strong.Spec.standard.sum bytes, 0, number⟩
    let blocks := [block 4 [1], block 7 [1, 2], block 7 [1, 2], block 2 [1, 2]]
    let signature : Signature := ⟨⟨⟨2, by decide, by decide⟩, 0, 4⟩, .standard, blocks, 7⟩
    (∀ block ∈ signature.blocks, block.sum.length < UInt32.size) ∧
      (BlockIndex.ofSignature signature).find? (.ofBytes [1, 2]) [1] [2] (some 2) =
        some (block 2 [1, 2]) ∧
      (ofSignature signature).find? (.ofBytes [1, 2]) [1] [2] (some 9) = some (block 7 [1, 2]) := by
  intro block blocks signature
  have narrow : ∀ block ∈ signature.blocks, block.sum.length < UInt32.size := by decide +kernel
  have last := (lookup_eq_scan signature narrow (.ofBytes [1, 2]) [1] [2] (some 2)).1
  have first := (lookup_eq_scan signature narrow (.ofBytes [1, 2]) [1] [2] (some 9)).2
  refine ⟨narrow, last.trans ?_, first.trans ?_⟩
  · decide +kernel
  · decide +kernel

end BlockTable

end BlockDelta
