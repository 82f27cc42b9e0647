import BlockDelta.Proofs.Delta.Joining
import BlockDelta.Proofs.Matching.Refinement
import BlockDelta.Proofs.Matching.Soundness
import BlockDelta.Proofs.Signature.WellFormed

/-!
# A basis matched with itself

A target that is the basis costs no literal, whatever stands in it. Blocks may
be equal or collide, so a window may match many of them, and which one is taken
decides whether copies continue each other. The first window takes the first
block, because no block stands before it. Every later one takes the block that
follows the last, whatever stands before that: numbers are unique, and the block
with the next number is the one that was made of the window. So each copy takes
what stands at its own place, and the copies join as far as a length can say.
-/

namespace BlockDelta

namespace Delta

/-- A copy that takes its bytes from the place in the basis, counted from a base, that they have in
the target. -/
def Unmoved (base : Nat) : Delta → Prop
  | .literal _ _ => False
  | .copy source offset _ => source.toNat = base + offset.toNat

variable {base start stop : Nat} {deltas : List Delta}

/-- Copies that move nothing are joined to one that moves nothing. -/
theorem unmoved_joint {left right joint : Delta} (made : left.joined? right = some joint)
    (first : left.Unmoved base) (_ : right.Unmoved base) : joint.Unmoved base := by
  obtain ⟨_, _, _, _, _, _, rfl, -, rfl, -⟩ := copies_of_joined? made
  exact first

/-- Copies carry nothing along. -/
theorem literalTotal_of_unmoved (unmoved : ∀ delta ∈ deltas, delta.Unmoved base) :
    literalTotal deltas = 0 := by
  have none : deltas.filter isLiteral = [] := by
    apply List.filter_eq_nil_iff.2
    intro delta among literal
    cases delta with
    | literal offset data => exact unmoved _ among
    | copy source offset length => cases literal
  rw [literalTotal, none]
  rfl

/-- Copies that move nothing, the second behind the first, are joined as long as a length can say
how long they are together. -/
theorem joined?_of_unmoved {left right : Delta} (first : left.Unmoved base)
    (second : right.Unmoved base) (behind : right.start = left.stop)
    (short : left.length + right.length < UInt32.size) :
    ∃ joint, left.joined? right = some joint := by
  cases left with
  | literal offset data => exact absurd first id
  | copy source offset length =>
    cases right with
    | literal nextOffset data => exact absurd second id
    | copy nextSource nextOffset nextLength =>
      have place : source.toNat = base + offset.toNat := first
      have nextPlace : nextSource.toNat = base + nextOffset.toNat := second
      have onward : nextOffset.toNat = offset.toNat + length.toNat := behind
      exact ⟨_, if_pos ⟨by omega, onward.symm, short⟩⟩

/-- A copy that moves nothing is joined to all that follow it in a chain. -/
theorem joinFrom_of_unmoved {current : Delta} (tiles : Tiles start (current :: deltas) stop)
    (first : current.Unmoved base) (unmoved : ∀ delta ∈ deltas, delta.Unmoved base)
    (short : stop - start < UInt32.size) : ∃ joint, joinFrom current deltas = [joint] := by
  induction deltas generalizing current with
  | nil => exact ⟨current, rfl⟩
  | cons next rest ih =>
    obtain ⟨second, others⟩ := List.forall_mem_cons.1 unmoved
    obtain ⟨begun, behind, further⟩ := tiles
    have reached : current.start + current.length + next.length ≤ stop := by
      have ended := further.le
      unfold Delta.stop at behind ended
      omega
    obtain ⟨joint, made⟩ := joined?_of_unmoved first second behind (by omega)
    obtain ⟨-, jointStart, jointStop⟩ := place_of_joined? made
    rw [joinFrom, made]
    exact ih ⟨jointStart.trans begun, jointStop ▸ further⟩ (unmoved_joint made first second) others

/-- Copies in a chain that move nothing are joined to one copy, as long as a length can say how long
they are together. -/
theorem join_of_unmoved (tiles : Tiles start deltas stop) (something : deltas ≠ [])
    (unmoved : ∀ delta ∈ deltas, delta.Unmoved base) (short : stop - start < UInt32.size) :
    join deltas =
      [.copy (UInt64.ofNat (base + start)) (UInt64.ofNat start) (UInt32.ofNat (stop - start))] := by
  have single : ∃ joint, join deltas = [joint] := by
    cases deltas with
    | nil => exact absurd rfl something
    | cons delta rest =>
      obtain ⟨first, others⟩ := List.forall_mem_cons.1 unmoved
      exact joinFrom_of_unmoved tiles first others short
  obtain ⟨joint, joined⟩ := single
  have kept := forall_mem_join unmoved_joint unmoved
  have placed := tiles.join
  rw [joined] at kept placed
  have same := kept joint (List.mem_singleton_self joint)
  rw [joined]
  cases joint with
  | literal offset data => exact absurd same id
  | copy source offset length =>
    have place : source.toNat = base + offset.toNat := same
    obtain ⟨begun, ended⟩ : offset.toNat = start ∧ offset.toNat + length.toNat = stop := placed
    have long : stop - start = length.toNat := by omega
    rw [long, ← begun, ← place, UInt64.ofNat_toNat, UInt64.ofNat_toNat, UInt32.ofNat_toNat]

end Delta

namespace Reference

variable {signature : Signature} {last : Option UInt32} {window : Bytes} {block : Block}

/-- The number of the block that stands behind the last one matched; at the start, of the first. -/
def expected (last : Option UInt32) : Nat := last.elim 0 fun number => number.toNat + 1

/-- Without a block before it, a window is copied from the first block, when this is a candidate. -/
theorem matched?_of_head (candidate : block ∈ candidates signature window)
    (front : signature.blocks.head? = some block) :
    matched? signature none window = some block := by
  have unpreferred : (candidates signature window).find? (follows none) = none :=
    List.find?_eq_none.2 fun _ _ => Bool.false_ne_true
  have foremost : (candidates signature window).head? = some block := by
    obtain ⟨others, blocks⟩ := List.head?_eq_some_iff.1 front
    have agrees := (List.mem_filter.1 candidate).2
    rw [candidates, List.head?_filter, blocks]
    exact List.find?_cons_of_pos agrees
  rw [matched?, unpreferred, foremost]
  rfl

/-- Behind the last block matched, a window is copied from the block that follows, when this is a
candidate and no other block has its number. -/
theorem matched?_of_follows (candidate : block ∈ candidates signature window)
    (next : follows last block = true)
    (alone : ∀ other ∈ signature.blocks, follows last other = true → other = block) :
    matched? signature last window = some block := by
  have preferred : (candidates signature window).find? (follows last) = some block := by
    cases found : (candidates signature window).find? (follows last) with
    | none => exact absurd next (List.find?_eq_none.1 found block candidate)
    | some other =>
      have among := List.mem_of_find?_eq_some found
      rw [alone other (List.mem_filter.1 among).1 (List.find?_some found)]
  rw [matched?, preferred]
  rfl

section

variable {generator : Signature.Generator} {base : Nat} {basis : Bytes}

/-- A block of the signature that was made of a window is a candidate for it. -/
theorem describe_mem_candidates {offset number : Nat} (spec : signature.spec = generator.spec)
    (listed : generator.describe offset number window ∈ signature.blocks)
    (narrow : window.length < UInt32.size) :
    generator.describe offset number window ∈ candidates signature window := by
  have length : (generator.describe offset number window).length = window.length := by
    show (Rolling.Sum.ofBytes window).length % UInt32.size = _
    rw [Rolling.Sum.length_ofBytes, Nat.mod_eq_of_lt narrow]
  have strong : (generator.describe offset number window).strong = signature.spec.sum window := by
    rw [spec]
    rfl
  exact List.mem_filter.2 ⟨listed, decide_eq_true ⟨length, rfl, strong⟩⟩

/-- The window at the place of the block that is expected is copied from this block, whatever other
blocks it matches. -/
theorem matched?_expected (made : generator.ofBuffer base basis = .ok signature)
    (small : base + basis.length < UInt64.size)
    (inside : expected last * generator.blockLength.toNat < basis.length) :
    ∃ block, block.number.toNat = expected last ∧
      block.offset.toNat = base + expected last * generator.blockLength.toNat ∧
      matched? signature last (Bytes.span basis (expected last * generator.blockLength.toNat)
        generator.blockLength.toNat) = some block := by
  obtain ⟨-, spec, -, blocks⟩ := Signature.Generator.exists_of_ofBuffer made
  obtain ⟨wellFormed, describes⟩ := Signature.Generator.wellFormed_of_ofBuffer small made
  have listed : signature.blocks[expected last]? = some (generator.describe
      (base + expected last * generator.blockLength.toNat) (expected last)
      (Bytes.span basis (expected last * generator.blockLength.toNat)
        generator.blockLength.toNat)) := by
    rw [blocks, List.getElem?_mapIdx, Signature.Generator.pieces, Bytes.getElem?_chunks,
      if_pos inside]
    rfl
  have narrow : (Bytes.span basis (expected last * generator.blockLength.toNat)
      generator.blockLength.toNat).length < UInt32.size :=
    Nat.lt_of_le_of_lt (List.length_take_le ..) generator.blockLength.fits
  have candidate := describe_mem_candidates spec (List.mem_of_getElem? listed) narrow
  have placed := wellFormed.placed _ _ listed
  refine ⟨_, placed.number, describes.blockLength ▸ placed.offset, ?_⟩
  cases last with
  | none => exact matched?_of_head candidate (List.head?_eq_getElem?.trans listed)
  | some previous =>
    refine matched?_of_follows candidate ?_ ?_
    · exact decide_eq_true placed.number
    · -- numbers are places, so no other block has the number
      intro other among next
      obtain ⟨index, there⟩ := List.mem_iff_getElem?.1 among
      have numbered : index = expected (some previous) := by
        rw [← (wellFormed.placed index other there).number]
        exact of_decide_eq_true next
      rw [numbered, listed] at there
      exact (Option.some.inj there).symm

/-- From the place of the block that is expected on, all of a basis is copied from where it stands.
-/
theorem layOut_unmoved (options : MatchOptions)
    (made : generator.ofBuffer base basis = .ok signature)
    (small : base + basis.length < UInt64.size) {rest : Bytes}
    (place : rest = basis.drop (expected last * generator.blockLength.toNat)) :
    ∀ delta ∈ layOut options (expected last * generator.blockLength.toNat) []
      (steps signature last rest), delta.Unmoved base := by
  have width : signature.layout.blockLength = generator.blockLength :=
    (Signature.Generator.wellFormed_of_ofBuffer small made).2.blockLength
  induction rest using Bytes.dropInduction generator.blockLength.toNat
    generator.blockLength.positive generalizing last with
  | nil => simp [steps_nil, layOut, literals]
  | cons byte later ih =>
    have inside : expected last * generator.blockLength.toNat < basis.length := by
      apply Nat.lt_of_not_le
      intro beyond
      rw [List.drop_of_length_le beyond] at place
      exact List.cons_ne_nil _ _ place
    obtain ⟨block, numbered, offset, found⟩ := matched?_expected made small inside
    have window : Bytes.span basis (expected last * generator.blockLength.toNat)
        generator.blockLength.toNat = (byte :: later).take generator.blockLength.toNat := by
      rw [place]
      rfl
    rw [window, ← width] at found
    rw [steps_of_matched _ _ (List.cons_ne_nil _ _) found, width, layOut, Bytes.chunks_nil,
      literals, List.nil_append, List.length_nil, Nat.add_zero, List.forall_mem_cons]
    constructor
    · have reached : (UInt64.ofNat (expected last * generator.blockLength.toNat)).toNat =
          expected last * generator.blockLength.toNat := UInt64.toNat_ofNat_of_lt' (by omega)
      show block.offset.toNat = base + (UInt64.ofNat _).toNat
      rw [reached]
      exact offset
    · by_cases short : (byte :: later).length ≤ generator.blockLength.toNat
      · rw [List.take_of_length_le short, List.drop_length, steps_nil]
        simp [layOut, literals]
      · have full : ((byte :: later).take generator.blockLength.toNat).length =
            generator.blockLength.toNat := List.length_take_of_le (by omega)
        have onward : expected last * generator.blockLength.toNat + generator.blockLength.toNat =
            expected (some block.number) * generator.blockLength.toNat := by
          show _ = (block.number.toNat + 1) * _
          rw [numbered, Nat.succ_mul]
        rw [full, onward]
        apply ih
        rw [place, List.drop_drop, onward]

/-- The deltas of a basis that is matched with itself copy all of it from where it stands. -/
theorem deltas_unmoved (options : MatchOptions)
    (made : generator.ofBuffer base basis = .ok signature)
    (small : base + basis.length < UInt64.size) :
    ∀ delta ∈ deltas signature options basis, delta.Unmoved base := by
  have start : expected none * generator.blockLength.toNat = 0 := Nat.zero_mul _
  have unmoved : ∀ delta ∈ layOut options (expected none * generator.blockLength.toNat) []
      (steps signature none basis), delta.Unmoved base := by
    apply layOut_unmoved options made small
    rw [start, List.drop_zero]
  rwa [start] at unmoved

end

end Reference

namespace Matching

/-- A basis that is matched with its own signature costs no literal, whatever it contains, however
short the strong sums are and wherever its offsets count from. All of it is copied, each copy takes
what stands at its own place, and there is one copy when a length can say how long it is. -/
theorem greedy_identical (generator : Signature.Generator) (base : Nat) (basis : Bytes)
    (filled : basis ≠ []) (few : basis.length ⌈/⌉ generator.blockLength.toNat ≤ 2 ^ 32 - 1)
    (small : base + basis.length < UInt64.size) :
    ∃ signature, generator.ofBuffer base basis = .ok signature ∧ ∀ options : MatchOptions,
      let script := greedy (.ofSignature signature) options basis
      script.literalBytes = 0 ∧ script.copyBytes = basis.length ∧
        (∀ delta ∈ script.deltas, delta.Unmoved base) ∧
        (basis.length ≤ 2 ^ 32 - 1 →
          script.deltas = [.copy (UInt64.ofNat base) 0 (UInt32.ofNat basis.length)]) := by
  cases made : generator.ofBuffer base basis with
  | error error =>
    have many := Signature.Generator.ofBuffer_eq_error_iff.1 ⟨error, made⟩
    exact absurd many (Nat.not_lt_of_le few)
  | ok signature =>
    refine ⟨signature, rfl, fun options => ?_⟩
    have addressed : basis.length < UInt64.size := by omega
    have tiles := (Reference.deltas_describe signature options addressed).1
    have unmoved := Reference.deltas_unmoved options made small
    have joined := Delta.forall_mem_join Delta.unmoved_joint unmoved
    have nothing := Delta.literalTotal_of_unmoved joined
    have whole := tiles.join.totalLength
    rw [← Delta.literalTotal_add_copyTotal, nothing, Nat.zero_add, Nat.zero_add] at whole
    have something : Reference.deltas signature options basis ≠ [] := by
      intro none
      rw [none] at tiles
      exact filled (List.length_eq_zero_iff.1 tiles.symm)
    simp only [script_of_greedy, Reference.script_eq, Script.deltas_ofDeltas]
    refine ⟨?_, ?_, joined, fun short => ?_⟩
    · rw [Script.ofDeltas_eq]
      exact nothing
    · rw [Script.ofDeltas_eq]
      exact whole
    · have one := Delta.join_of_unmoved tiles something unmoved (Nat.lt_succ_of_le short)
      rw [Nat.add_zero, Nat.sub_zero] at one
      exact one

/-- Two equal blocks and a shorter one, with one byte of each strong sum, are one copy. -/
theorem greedy_identical_repeated :
    let generator : Signature.Generator :=
      ⟨⟨2, by decide, by decide⟩, ⟨.md4, 1, [], by decide, by decide⟩⟩
    let basis : Bytes := [7, 7, 7, 7, 7]
    basis ≠ [] ∧ basis.length ⌈/⌉ generator.blockLength.toNat ≤ 2 ^ 32 - 1 ∧
      1000 + basis.length < UInt64.size ∧
      ∃ signature, generator.ofBuffer 1000 basis = .ok signature ∧
        (greedy (.ofSignature signature) {} basis).literalBytes = 0 ∧
        (greedy (.ofSignature signature) {} basis).deltas = [.copy 1000 0 5] := by
  intro generator basis
  have filled : basis ≠ [] := List.cons_ne_nil _ _
  have few : basis.length ⌈/⌉ generator.blockLength.toNat ≤ 2 ^ 32 - 1 := by decide
  have small : 1000 + basis.length < UInt64.size := by decide
  obtain ⟨signature, made, matched⟩ := greedy_identical generator 1000 basis filled few small
  obtain ⟨nothing, -, -, one⟩ := matched {}
  exact ⟨filled, few, small, signature, made, nothing, one (by decide)⟩

end Matching

end BlockDelta
