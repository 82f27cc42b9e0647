import BlockDelta.Proofs.Delta.Joining
import BlockDelta.Proofs.Transfer.RoundTrip

/-!
# What the script of a target says

The script of a target holds the joined deltas of the naive policy. It tiles
the target; its literals carry the bytes of the target at their places, and its
copies are composed of blocks that agree with the target in length and both
sums. This holds against every signature, be its blocks out of order, numbered
twice, of wrong lengths or with colliding sums. Against the signature of a basis
the script describes the target, unless a span of the target collides with a
block of the basis.
-/

namespace BlockDelta

namespace Reference

/-- So many bytes of the target from an offset on are composed of blocks that stand in the basis
one behind the other from a source on, each of which has the length and the sums of its part of the
target. -/
inductive Composed (signature : Signature) (target : Bytes) : Nat → Nat → Nat → Prop
  /-- A block stands for a span of the target with its length and its sums. -/
  | block {block : Block} {offset : Nat} (listed : block ∈ signature.blocks)
      (something : 0 < block.length) (inside : offset + block.length ≤ target.length)
      (weak : block.weak = (Rolling.Sum.ofBytes (Bytes.span target offset block.length)).value)
      (strong : block.strong = signature.spec.sum (Bytes.span target offset block.length)) :
      Composed signature target block.offset.toNat offset block.length
  /-- Two spans stand one behind the other, in basis and target. -/
  | behind {source offset first second : Nat}
      (front : Composed signature target source offset first)
      (back : Composed signature target (source + first) (offset + first) second) :
      Composed signature target source offset (first + second)

/-- A delta of a script says truly what stands at its place in the target. -/
def Truthful (signature : Signature) (options : MatchOptions) (target : Bytes) : Delta → Prop
  | .literal offset data =>
    data ≠ [] ∧ data.length ≤ options.maxLiteral ∧
      Bytes.span target offset.toNat data.length = data
  | .copy source offset length =>
    Composed signature target source.toNat offset.toNat length.toNat

variable {signature : Signature} {options : MatchOptions} {target : Bytes}

/-- A delta of the naive policy tells what it describes. -/
theorem Describes.truthful {delta : Delta} (describes : Describes signature options target delta) :
    Truthful signature options target delta := by
  cases delta with
  | literal offset data => exact describes
  | copy source offset length =>
    obtain ⟨something, inside, block, candidate, rfl⟩ := describes
    obtain ⟨listed, agrees⟩ := List.mem_filter.1 candidate
    obtain ⟨measured, weak, strong⟩ := of_decide_eq_true agrees
    rw [Bytes.length_span inside] at measured
    simp only [Truthful]
    rw [← measured] at something inside weak strong ⊢
    exact .block listed something inside weak strong

/-- What two copies tell, the joint copy tells. -/
theorem truthful_joint {left right joint : Delta} (made : left.joined? right = some joint)
    (first : Truthful signature options target left)
    (second : Truthful signature options target right) :
    Truthful signature options target joint := by
  obtain ⟨_, _, _, _, _, _, rfl, rfl, rfl, source, offset, both⟩ := Delta.copies_of_joined? made
  simp only [Truthful] at first second ⊢
  rw [source, offset] at second
  rw [both]
  exact .behind first second

/-- What is composed of blocks is not empty. -/
theorem Composed.positive {source offset length : Nat}
    (composed : Composed signature target source offset length) : 0 < length := by
  induction composed with
  | block _ something _ _ _ => exact something
  | behind _ _ front _ => exact Nat.lt_add_right _ front

/-- A delta that tells something is not empty. -/
theorem Truthful.isEmpty_eq {delta : Delta} (truthful : Truthful signature options target delta) :
    delta.isEmpty = false := by
  rw [Delta.isEmpty, beq_eq_false_iff_ne]
  cases delta with
  | literal offset data => exact fun empty => truthful.1 (List.length_eq_zero_iff.1 empty)
  | copy source offset length => exact Nat.ne_of_gt truthful.positive

/-- The deltas of a script stand in a chain through the target, and each tells the truth. -/
theorem join_truthful (signature : Signature) (options : MatchOptions)
    (small : target.length < UInt64.size) :
    Delta.Tiles 0 (Delta.join (deltas signature options target)) target.length ∧
      ∀ delta ∈ Delta.join (deltas signature options target),
        Truthful signature options target delta := by
  obtain ⟨tiles, describe⟩ := deltas_describe signature options small
  exact ⟨tiles.join, Delta.forall_mem_join truthful_joint fun delta among =>
    (describe delta among).truthful⟩

end Reference

namespace Layout

/-- A basis that can be cut into blocks is no longer than a 64-bit word can say. -/
theorem lt_of_ofLength {total : Nat} {blockLength : BlockLength} {layout : Layout}
    (cut : ofLength total blockLength = .ok layout) : total < UInt64.size := by
  obtain ⟨rfl, few⟩ := ofLength_eq_ok cut
  have positive := blockLength.positive
  have whole := Nat.lt_mul_div_succ (total + blockLength.toNat - 1) positive
  have bounded : blockLength.toNat * ((total + blockLength.toNat - 1) / blockLength.toNat + 1) ≤
      (UInt32.size - 1) * (mostBlocks + 1) :=
    Nat.mul_le_mul (Nat.le_sub_one_of_lt blockLength.fits) (Nat.succ_le_succ few)
  have limit : (UInt32.size - 1) * (mostBlocks + 1) < UInt64.size := by decide
  omega

end Layout

namespace Transfer

open Reference

variable {signature : Signature} {generator : Signature.Generator} {basis : ByteArray}
variable {target : Bytes}

/-- The signature of a basis in memory holds its pieces. -/
theorem blocks_of_ofBuffer (made : generator.ofBuffer 0 (Bytes.ofArray basis) = .ok signature) :
    basis.size < UInt64.size ∧ signature.spec = generator.spec ∧
      signature.blocks = generator.describeFrom 0 0 (generator.pieces (Bytes.ofArray basis)) := by
  cases cut : Layout.ofLength (Bytes.ofArray basis).length generator.blockLength with
  | error error =>
    simp only [Signature.Generator.ofBuffer, cut, Except.mapError] at made
    cases made
  | ok layout =>
    rw [Signature.Generator.ofBuffer_eq_ok 0 cut] at made
    cases made
    exact ⟨Layout.lt_of_ofLength cut, rfl, rfl⟩

/-- What a joint copy reads, its two parts read one behind the other. -/
theorem stands_joint {left right joint : Delta} (made : left.joined? right = some joint)
    (first : left.Fits basis.size ∧
      left.pieceBytes basis = Bytes.span target left.start left.length)
    (second : right.Fits basis.size ∧
      right.pieceBytes basis = Bytes.span target right.start right.length) :
    joint.Fits basis.size ∧
      joint.pieceBytes basis = Bytes.span target joint.start joint.length := by
  obtain ⟨source, offset, length, nextSource, nextOffset, nextLength, rfl, rfl, rfl, sourceBehind,
    offsetBehind, both⟩ := Delta.copies_of_joined? made
  have read (source offset : UInt64) (length : UInt32) :
      (Delta.copy source offset length).pieceBytes basis =
        Bytes.span (Bytes.ofArray basis) source.toNat length.toNat :=
    ofArray_extract ..
  simp only [Delta.Fits, Delta.start, Delta.length, read, sourceBehind, offsetBehind, both]
    at first second ⊢
  refine ⟨by omega, ?_⟩
  rw [← Bytes.span_append_span, ← Bytes.span_append_span, first.2, second.2]

/-- The script of a target tiles it, whatever the signature it is matched against: it is as long as
the target, and each of its deltas tells truly what stands at its place. Offsets are 64-bit words,
so the target is no longer than these can say. When the signature is that of a basis, the script
applied to this basis gives the target, or a span of the target collides with a block of the
basis. -/
theorem greedy_sound (signature : Signature) (options : MatchOptions) (target : Bytes)
    (small : target.length < UInt64.size) :
    let script := Matching.greedy (.ofSignature signature) options target
    script.checkTiling target.length = .ok () ∧ script.totalBytes = target.length ∧
      (∀ delta ∈ script.deltas, Truthful signature options target delta) ∧
      ∀ (generator : Signature.Generator) (basis : ByteArray),
        generator.ofBuffer 0 (Bytes.ofArray basis) = .ok signature →
          script.applyTo basis = some (Bytes.toArray target) ∨
            Collision generator (Bytes.ofArray basis) target := by
  obtain ⟨tiles, truthful⟩ := join_truthful signature options small
  simp only [Matching.script_of_greedy, script_eq]
  refine ⟨?_, ?_, ?_, fun generator basis made => ?_⟩
  · rw [Script.checkTiling, Script.deltas_ofDeltas]
    exact tiles.checkTiling_eq fun delta among => (truthful delta among).isEmpty_eq
  · rw [Script.totalBytes_ofDeltas, ← tiles.totalLength, Nat.zero_add]
  · rw [Script.deltas_ofDeltas]
    exact truthful
  · obtain ⟨bounded, spec, blocks⟩ := blocks_of_ofBuffer made
    by_cases distinct : Collision generator (Bytes.ofArray basis) target
    · exact .inr distinct
    · have describe := (deltas_describe signature options small).2
      have stands := Delta.forall_mem_join stands_joint fun delta among =>
        pieceBytes_eq_span spec blocks bounded distinct (describe delta among)
      have whole := tiles.flatMap_eq_span fun delta among => (stands delta among).2
      rw [Nat.sub_zero, Bytes.span, List.drop_zero, List.take_length] at whole
      rw [Script.applyTo_ofDeltas tiles fun delta among => (stands delta among).1, whole]
      exact .inl rfl

/-- A target is matched against the signature of a basis in blocks of two bytes. -/
theorem greedy_sound_of_pairs :
    let generator : Signature.Generator := ⟨⟨2, by decide, by decide⟩, .standard⟩
    let basis : ByteArray := ⟨#[1, 2, 3, 4, 5]⟩
    let target : Bytes := [3, 4, 9, 1, 2]
    ∃ signature, generator.ofBuffer 0 (Bytes.ofArray basis) = .ok signature ∧
      target.length < UInt64.size ∧
      (Matching.greedy (.ofSignature signature) {} target).checkTiling 5 = .ok () ∧
      ((Matching.greedy (.ofSignature signature) {} target).applyTo basis =
          some (Bytes.toArray target) ∨
        Collision generator (Bytes.ofArray basis) target) := by
  intro generator basis target
  have cut : Layout.ofLength (Bytes.ofArray basis).length generator.blockLength =
      .ok ⟨generator.blockLength, 1, 3⟩ := by cbv
  have made := Signature.Generator.ofBuffer_eq_ok 0 cut
  obtain ⟨tiled, _, _, described⟩ := greedy_sound _ {} target (by decide)
  exact ⟨_, made, by decide, tiled, described generator basis made⟩

end Transfer

end BlockDelta
