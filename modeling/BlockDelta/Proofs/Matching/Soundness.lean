import BlockDelta.Proofs.Delta.Tiling
import BlockDelta.Proofs.Matching.Reference

/-!
# What a target is matched to describes it

The deltas of the naive policy stand one behind the other from the start of
the target to its end. A literal carries the bytes of the target at its place;
a copy takes a block that agrees in length and both sums with the span of the
target at its place. This holds for every signature, whatever its blocks are.
-/

namespace BlockDelta

namespace Reference

variable {signature : Signature} {options : MatchOptions}

/-- A delta says truly what stands at its place in the target. -/
def Describes (signature : Signature) (options : MatchOptions) (target : Bytes) : Delta → Prop
  | .literal offset data =>
    data ≠ [] ∧ data.length ≤ options.maxLiteral ∧ Bytes.span target offset.toNat data.length = data
  | .copy source offset length =>
    0 < length.toNat ∧ offset.toNat + length.toNat ≤ target.length ∧
      ∃ block ∈ candidates signature (Bytes.span target offset.toNat length.toNat),
        block.offset = source

/-- A delta that describes a span is not empty. -/
theorem Describes.isEmpty_eq {target : Bytes} {delta : Delta}
    (describes : Describes signature options target delta) : delta.isEmpty = false := by
  rw [Delta.isEmpty, beq_eq_false_iff_ne]
  cases delta with
  | literal offset data => exact fun empty => describes.1 (List.length_eq_zero_iff.1 empty)
  | copy source offset length => exact Nat.ne_of_gt describes.1

/-- Pieces of a target become literals that describe it. -/
theorem literals_describe (signature : Signature) {before after target : Bytes}
    {pieces : List Bytes}
    (whole : target = before ++ (pieces.flatten ++ after)) (small : target.length < UInt64.size)
    (fit : ∀ piece ∈ pieces, piece ≠ [] ∧ piece.length ≤ options.maxLiteral) :
    Delta.Tiles before.length (literals before.length pieces)
        (before.length + pieces.flatten.length) ∧
      ∀ delta ∈ literals before.length pieces, Describes signature options target delta := by
  induction pieces generalizing before with
  | nil => exact ⟨rfl, by simp [literals]⟩
  | cons piece rest ih =>
    obtain ⟨own, others⟩ := List.forall_mem_cons.1 fit
    rw [List.flatten_cons, List.append_assoc] at whole
    have place : (UInt64.ofNat before.length).toNat = before.length := by
      refine UInt64.toNat_ofNat_of_lt' (Nat.lt_of_le_of_lt ?_ small)
      rw [whole, List.length_append]
      exact Nat.le_add_right ..
    have further : target = (before ++ piece) ++ (rest.flatten ++ after) := by
      rw [whole, List.append_assoc]
    obtain ⟨tiles, describe⟩ := ih further others
    rw [List.length_append] at tiles describe
    rw [List.flatten_cons, List.length_append, ← Nat.add_assoc]
    refine ⟨⟨place, ?_⟩, List.forall_mem_cons.2 ⟨⟨own.1, own.2, ?_⟩, describe⟩⟩
    · rw [Delta.stop, Delta.start, place]
      exact tiles
    · rw [place, whole]
      exact Bytes.span_append before piece _

/-- A run of bytes becomes literals that describe it. -/
theorem run_describes (signature : Signature) (options : MatchOptions)
    {before run after target : Bytes}
    (whole : target = before ++ (run ++ after)) (small : target.length < UInt64.size) :
    let deltas := literals before.length (Bytes.chunks options.maxLiteral options.positive run)
    Delta.Tiles before.length deltas (before.length + run.length) ∧
      ∀ delta ∈ deltas, Describes signature options target delta := by
  have flat := Bytes.flatten_chunks options.maxLiteral options.positive run
  have cut : target = before ++
      ((Bytes.chunks options.maxLiteral options.positive run).flatten ++ after) := by
    rw [flat]
    exact whole
  have described := literals_describe signature cut small fun piece among =>
    Bytes.mem_chunks among
  rwa [flat] at described

/-- A block that is matched agrees with the window in length and both sums. -/
theorem mem_candidates_of_matched {last : Option UInt32} {window : Bytes} {block : Block}
    (found : matched? signature last window = some block) :
    block ∈ candidates signature window := by
  unfold matched? at found
  cases following : (candidates signature window).find? (follows last) with
  | none =>
    rw [following] at found
    exact List.mem_of_head? found
  | some other =>
    rw [following] at found
    cases found
    exact List.mem_of_find?_eq_some following

/-- A window that agrees with a block becomes a copy that describes it and ends where it ends. -/
theorem copy_describes (options : MatchOptions) {front window back target : Bytes} {block : Block}
    (whole : target = front ++ (window ++ back)) (small : target.length < UInt64.size)
    (filled : window ≠ []) (narrow : window.length < UInt32.size)
    (candidate : block ∈ candidates signature window) :
    let copy := Delta.copy block.offset (UInt64.ofNat front.length) (UInt32.ofNat window.length)
    copy.start = front.length ∧ copy.stop = front.length + window.length ∧
      Describes signature options target copy := by
  have total : target.length = front.length + (window.length + back.length) := by
    rw [whole, List.length_append, List.length_append]
  have place : (UInt64.ofNat front.length).toNat = front.length :=
    UInt64.toNat_ofNat_of_lt' (by omega)
  have length : (UInt32.ofNat window.length).toNat = window.length :=
    UInt32.toNat_ofNat_of_lt' narrow
  have positive := List.length_pos_iff.2 filled
  have here : Bytes.span target front.length window.length = window := by
    rw [whole]
    exact Bytes.span_append front window back
  refine ⟨place, ?_, ?_⟩
  · simp only [Delta.stop, Delta.start, Delta.length, place, length]
  · simp only [Describes, place, length, here]
    exact ⟨positive, by omega, block, candidate, rfl⟩

/-- The deltas behind what is described already describe the rest of the target. -/
theorem layOut_describes (last : Option UInt32) {before run rest target : Bytes}
    (whole : target = before ++ (run ++ rest)) (small : target.length < UInt64.size) :
    let deltas := layOut options before.length run (steps signature last rest)
    Delta.Tiles before.length deltas target.length ∧
      ∀ delta ∈ deltas, Describes signature options target delta := by
  fun_induction steps signature last rest generalizing before run with
  | case1 last =>
    have described := run_describes signature options whole small
    have length : target.length = before.length + run.length := by
      rw [whole, List.append_nil, List.length_append]
    rw [length]
    exact described
  | case2 last byte later window block found =>
    rename_i ih
    obtain ⟨front, frontDescribes⟩ := run_describes signature options whole small
    have cut : byte :: later = window ++ (byte :: later).drop window.length :=
      (List.prefix_iff_eq_append.1 (List.take_prefix ..)).symm
    have split : target = (before ++ run) ++ (window ++ (byte :: later).drop window.length) := by
      rw [← cut, whole, List.append_assoc]
    have next : target =
        (before ++ run ++ window) ++ ([] ++ (byte :: later).drop window.length) := by
      rw [split, List.append_assoc (before ++ run), List.nil_append]
    have filled : window ≠ [] := by
      have positive := signature.layout.blockLength.positive
      simp only [window, ne_eq, List.take_eq_nil_iff, List.cons_ne_nil, or_false]
      exact Nat.ne_of_gt positive
    have narrow : window.length < UInt32.size :=
      Nat.lt_of_le_of_lt (List.length_take_le ..) signature.layout.blockLength.fits
    obtain ⟨start, stop, copied⟩ :=
      copy_describes options split small filled narrow (mem_candidates_of_matched found)
    obtain ⟨back, backDescribes⟩ := ih next
    simp only [List.length_append] at start stop copied back backDescribes
    rw [layOut]
    refine ⟨front.append ⟨start, ?_⟩, ?_⟩
    · rw [stop]
      exact back
    · rw [List.forall_mem_append, List.forall_mem_cons]
      exact ⟨frontDescribes, copied, backDescribes⟩
  | case3 last byte later window unmatched =>
    rename_i ih
    refine ih ?_
    rw [whole, List.append_assoc]
    rfl

/-- The deltas of a target tile it, and each says truly what stands at its place. -/
theorem deltas_describe (signature : Signature) (options : MatchOptions) {target : Bytes}
    (small : target.length < UInt64.size) :
    Delta.Tiles 0 (deltas signature options target) target.length ∧
      ∀ delta ∈ deltas signature options target, Describes signature options target delta := by
  have whole : target = [] ++ ([] ++ target) := rfl
  exact layOut_describes none whole small

end Reference

end BlockDelta
