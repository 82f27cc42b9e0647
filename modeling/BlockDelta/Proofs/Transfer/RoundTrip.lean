import BlockDelta.Proofs.Rebuild.InPlace
import BlockDelta.Proofs.Transfer.Sending

/-!
# The target arrives, or sums collide

A copy stands for a span of the target that agrees with a block of the basis
in length, rolling sum and strong sum. Unless some span does so without being
that block, the block is the span; then every delta stands for its span of the
target, and the target that is rebuilt, afresh or in place, is the one that was
sent.
-/

namespace BlockDelta

namespace Transfer

open Reference

/-- A span of the target is as long as a block of the basis and has the same sums, but differs
from it. -/
def Collision (generator : Signature.Generator) (basis target : Bytes) : Prop :=
  ∃ block ∈ generator.pieces basis, ∃ window, window <:+: target ∧
    window.length = block.length ∧ window ≠ block ∧
    (Rolling.Sum.ofBytes window).value = (Rolling.Sum.ofBytes block).value ∧
    generator.spec.sum window = generator.spec.sum block

variable {generator : Signature.Generator} {basis : ByteArray} {target : Bytes}
variable {signature : Signature} {options : MatchOptions}

/-- A part of a file, set in motion, is a span of its bytes. -/
theorem ofArray_extract (content : ByteArray) (offset length : Nat) :
    Bytes.ofArray (content.extract offset (offset + length)) =
      Bytes.span (Bytes.ofArray content) offset length := by
  rw [Bytes.ofArray, ByteArray.data_extract, Array.toList_extract, List.extract_eq_take_drop,
    Nat.add_sub_cancel_left]
  rfl

/-- A block of the basis that agrees with a span of the target is that span, unless they collide. -/
theorem span_of_candidate (spec : signature.spec = generator.spec)
    (blocks : signature.blocks =
      generator.describeFrom 0 0 (generator.pieces (Bytes.ofArray basis)))
    (small : basis.size < UInt64.size)
    (distinct : ¬Collision generator (Bytes.ofArray basis) target)
    {window : Bytes} {block : Block} (inside : window <:+: target)
    (candidate : block ∈ candidates signature window) :
    block.offset.toNat + window.length ≤ basis.size ∧
      Bytes.span (Bytes.ofArray basis) block.offset.toNat window.length = window := by
  obtain ⟨among, agrees⟩ := List.mem_filter.1 candidate
  obtain ⟨length, weak, strong⟩ := of_decide_eq_true agrees
  rw [blocks] at among
  have bounded : (Bytes.ofArray basis).length < UInt64.size := small
  obtain ⟨front, piece, back, whole, listed, place, measured, weak', strong'⟩ :=
    Signature.Generator.exists_piece_of_mem bounded among
  have equal : window.length = piece.length := length.symm.trans measured
  have same : window = piece := by
    by_contra differ
    refine distinct ⟨piece, listed, window, inside, equal, differ, weak.symm.trans weak', ?_⟩
    rw [← spec, ← strong, strong', spec]
  have total : basis.size = front.length + (piece.length + back.length) := by
    have lengths := congrArg List.length whole
    rw [List.length_append, List.length_append] at lengths
    exact lengths
  rw [place, same]
  constructor
  · omega
  · rw [whole]
    exact Bytes.span_append front piece back

/-- Without collisions, every delta reads inside the basis and stands for its span of the target. -/
theorem pieceBytes_eq_span (spec : signature.spec = generator.spec)
    (blocks : signature.blocks =
      generator.describeFrom 0 0 (generator.pieces (Bytes.ofArray basis)))
    (small : basis.size < UInt64.size)
    (distinct : ¬Collision generator (Bytes.ofArray basis) target)
    {delta : Delta} (describes : Describes signature options target delta) :
    delta.Fits basis.size ∧
      delta.pieceBytes basis = Bytes.span target delta.start delta.length := by
  cases delta with
  | literal offset data => exact ⟨trivial, describes.2.2.symm⟩
  | copy source offset length =>
    obtain ⟨_, within, block, candidate, rfl⟩ := describes
    obtain ⟨fits, same⟩ := span_of_candidate spec blocks small distinct
      (Bytes.span_infix target offset.toNat length.toNat) candidate
    rw [Bytes.length_span within] at fits same
    exact ⟨fits, (ofArray_extract ..).trans same⟩

/-- Without collisions, the deltas of the naive policy are a plan in range, and its target is the
target that they were found in. -/
theorem exists_plan_of_distinct (options : MatchOptions) (spec : signature.spec = generator.spec)
    (blocks : signature.blocks =
      generator.describeFrom 0 0 (generator.pieces (Bytes.ofArray basis)))
    (small : basis.size < UInt64.size) (short : target.length < UInt64.size)
    (distinct : ¬Collision generator (Bytes.ofArray basis) target) :
    ∃ plan, Rebuild.Plan.ofDeltas (deltas signature options target) = .ok plan ∧
      plan.checkCopies basis.size = .ok () ∧ plan.target basis = Bytes.toArray target := by
  obtain ⟨tiles, describe⟩ := deltas_describe signature options short
  have stands := fun delta among =>
    pieceBytes_eq_span spec blocks small distinct (describe delta among)
  refine ⟨⟨deltas signature options target, target.length⟩, ?_, ?_, ?_⟩
  · exact Rebuild.Plan.ofDeltas_of_tiles tiles short fun delta among =>
      (describe delta among).isEmpty_eq
  · exact Rebuild.Plan.checkCopiesOf_eq_ok_iff.2 fun delta among => (stands delta among).1
  · have whole := tiles.flatMap_eq_span fun delta among => (stands delta among).2
    rw [Rebuild.Plan.target, whole, Nat.sub_zero, Bytes.span, List.drop_zero, List.take_length]

/-- From basis to target and back. A signature that is made of a basis can be sent, and however a
target is cut into pieces, the delta that is sent for it is received; offsets are 64-bit words, so
the target is no longer than these can say. Then either the target is rebuilt from the basis,
afresh and in place of any file that holds the basis, with buffers of any size, or a span of the
target collides with a block of the basis. -/
theorem rebuilt_or_collision (options : Signature.Options) (basis : ByteArray)
    (generator : Signature.Generator) (made : options.generator basis.size = .ok generator)
    (seeded : options.seed.length ≤ Signature.longestSeed) (matching : MatchOptions)
    (narrow : matching.maxLiteral < UInt32.size) (pieces : List Bytes)
    (short : pieces.flatten.length < UInt64.size) :
    ∃ signature stream received summary sent decoded,
      generator.ofBuffer 0 (Bytes.ofArray basis) = .ok signature ∧
      sendSignature signature = .ok (stream, received) ∧
      sendDelta (BlockIndex.ofSignature received) matching pieces = .ok (summary, sent) ∧
      receiveDelta sent = .ok decoded ∧
      (Collision generator (Bytes.ofArray basis) pieces.flatten ∨
        (∀ buffer, ∃ report, rebuildFresh buffer basis decoded.script.deltas =
          .ok (report, Bytes.toArray pieces.flatten)) ∧
        (∀ (buffer : Rebuild.Buffer) (tree : FileTree) (path : String), tree.Holds path basis →
          ∃ report after, Rebuild.fileInPlace buffer path decoded.script.deltas tree =
              .ok report after ∧
            after.Holds path (Bytes.toArray pieces.flatten))) := by
  obtain ⟨⟨layout, cut⟩, bounded, seed⟩ := Signature.Options.generator_eq_ok made
  have small : basis.size < UInt64.size := Signature.Generator.total_lt cut bounded
  obtain ⟨signature, stream, generated, arrived, spec, blocks⟩ :=
    sendSignature_eq_ok (show Layout.ofLength (Bytes.ofArray basis).length _ = _ from cut) bounded
      (seed ▸ seeded)
  refine ⟨signature, stream, signature, _, _, _, generated, arrived,
    sendDelta_eq_ok signature pieces narrow, receiveDelta_eq_ok signature narrow short, ?_⟩
  rw [Script.deltas_ofDeltas]
  by_cases distinct : Collision generator (Bytes.ofArray basis) pieces.flatten
  · exact .inl distinct
  obtain ⟨plan, planned, checked, described⟩ :=
    exists_plan_of_distinct matching spec blocks small short distinct
  refine .inr ⟨fun buffer => ⟨plan.report, ?_⟩, fun buffer tree path held => ?_⟩
  · simp only [rebuildFresh, Rebuild.fromContent_eq_ok buffer planned checked, described]
  · obtain ⟨after, ran, holds⟩ := Rebuild.planFileInPlace_of_holds buffer planned checked held
    rw [Rebuild.fileInPlace_of_plan buffer planned]
    rw [described] at holds
    exact ⟨_, after, ran, holds⟩

/-- A basis in blocks of two bytes is sent, and a target is rebuilt from it or collides with it. -/
theorem rebuilt_or_collision_of_pairs :
    let generator : Signature.Generator := ⟨⟨2, by decide, by decide⟩, .standard⟩
    let basis : ByteArray := ⟨#[1, 2, 3, 4, 5]⟩
    ∃ sent decoded, receiveDelta sent = .ok decoded ∧
      (Collision generator (Bytes.ofArray basis) [3, 4, 9, 1, 2] ∨
        ∃ report, rebuildFresh ⟨1, by decide⟩ basis decoded.script.deltas =
          .ok (report, ⟨#[3, 4, 9, 1, 2]⟩)) := by
  intro generator basis
  have made : (Signature.Options.generator { blockLength := some 2 } basis.size) =
      .ok generator := by cbv
  obtain ⟨_, _, _, _, sent, decoded, _, _, _, received, outcome⟩ :=
    rebuilt_or_collision { blockLength := some 2 } basis generator made (by decide) {} (by decide)
      [[3], [4, 9], [1, 2]] (by decide)
  exact ⟨sent, decoded, received, outcome.imp id fun rebuilt => rebuilt.1 ⟨1, by decide⟩⟩

end Transfer

end BlockDelta
