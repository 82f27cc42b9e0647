import BlockDelta.Proofs.Matching.Reference
import BlockDelta.Proofs.Rolling.Law

/-!
# The scan refines the naive policy

A scan keeps the sums of its window, the target behind the window, the pending
bytes and the last block in step while the window slides, shrinks or jumps.
`Aligned` is what ties window, sums and target together at every position, and
`Progress.Within` what ties the pending bytes to the position; under both, the
script of a scan is that of the naive steps through the rest of the target.

Sums that refuse to slide or to shrink would be computed afresh. `scanStrictly`
gives up instead, and it never does: the refusals are out of reach.
-/

namespace BlockDelta

/-- A window of a block's length can slide: such lengths are 32-bit words. -/
theorem BlockLength.toNat_le_longestWindow (length : BlockLength) :
    length.toNat ≤ Rolling.longestWindow :=
  Nat.le_sub_one_of_lt length.fits

namespace Reference

/-- The number after the last one matched is what a block that follows has. -/
theorem successor_eq_some_iff (last : Option UInt32) (block : Block) :
    BlockIndex.successor last = some block.number ↔ follows last block = true := by
  cases last with
  | none => simp [BlockIndex.successor, follows]
  | some number =>
    have below := block.number.toNat_lt_size
    simp only [BlockIndex.successor, follows, Option.bind_some, Option.any_some,
      decide_eq_true_eq]
    by_cases fits : number.toNat + 1 < UInt32.size
    · rw [if_pos fits, Option.some.injEq, ← UInt32.toNat_inj, UInt32.toNat_add]
      change (number.toNat + 1) % UInt32.size = _ ↔ _
      rw [Nat.mod_eq_of_lt fits]
      exact eq_comm
    · rw [if_neg fits]
      constructor
      · intro impossible
        cases impossible
      · intro next
        omega

/-- The index finds for a window, however it is split, what the naive policy copies it from. -/
theorem findWith?_eq_matched? (signature : Signature) (last : Option UInt32) (content : Bytes)
    (window : Unit → Bytes × Bytes) (split : (window ()).1 ++ (window ()).2 = content) :
    (BlockIndex.ofSignature signature).findWith? (Rolling.Sum.ofBytes content) content.length
        window (BlockIndex.successor last) =
      matched? signature last content := by
  have same : (signature.blocks.filter fun block =>
        block.weak = (Rolling.Sum.ofBytes content).value ∧ block.length = content.length ∧
          block.strong = signature.spec.sum content) =
      candidates signature content := by
    rw [candidates]
    congr 1
    funext block
    simp only [decide_eq_decide]
    exact and_left_comm
  have preferred : (fun block : Block => decide (BlockIndex.successor last = some block.number)) =
      follows last := by
    funext block
    rw [Bool.eq_iff_iff, decide_eq_true_iff, successor_eq_some_iff]
  rw [BlockIndex.findWith?_ofSignature, split, same, Block.preferredOrFirst, preferred, matched?]

/-- Nothing is left to match. -/
theorem steps_nil (signature : Signature) (last : Option UInt32) :
    steps signature last [] = [] := by
  rw [steps]

/-- A window with a block is copied, and the policy goes on behind it. -/
theorem steps_of_matched (signature : Signature) (last : Option UInt32) {rest : Bytes}
    {block : Block} (filled : rest ≠ [])
    (found : matched? signature last (rest.take signature.layout.blockLength.toNat) = some block) :
    steps signature last rest =
      .copied block (rest.take signature.layout.blockLength.toNat).length ::
        steps signature (some block.number)
          (rest.drop (rest.take signature.layout.blockLength.toNat).length) := by
  cases rest with
  | nil => exact absurd rfl filled
  | cons byte later =>
    rw [steps]
    simp only [found]

/-- The first byte of a window without a block is passed over. -/
theorem steps_of_unmatched (signature : Signature) (last : Option UInt32) {byte : UInt8}
    {later : Bytes}
    (found : matched? signature last
      ((byte :: later).take signature.layout.blockLength.toNat) = none) :
    steps signature last (byte :: later) = .passed byte :: steps signature last later := by
  rw [steps]
  simp only [found]

end Reference

namespace Matching

open Reference

namespace Progress

/-- Pending bytes are counted, lie before the position, and are fewer than a literal carries. -/
structure Within (progress : Progress) (options : MatchOptions) : Prop where
  /-- The pending bytes are counted. -/
  counted : progress.pendingLength = progress.pending.length
  /-- The pending bytes lie before the position. -/
  behind : progress.pending.length ≤ progress.position
  /-- The pending bytes do not fill a literal. -/
  short : progress.pending.length < options.maxLiteral

/-- The script that is reached when given steps lie ahead. -/
def ahead (progress : Progress) (options : MatchOptions) (steps : List Step) : Script :=
  progress.script.extend
    (layOutEagerly options (progress.position - progress.pending.length)
      progress.pending.reverse steps)

variable {progress : Progress} {options : MatchOptions}

/-- Pending bytes that become a literal are pending no longer. -/
theorem flush_eq (counted : progress.pendingLength = progress.pending.length) :
    progress.flush =
      { progress with
        script := progress.script.extend
          (pendingLiteral (progress.position - progress.pending.length) progress.pending.reverse)
        pending := []
        pendingLength := 0 } := by
  obtain ⟨script, last, position, pending, pendingLength⟩ := progress
  cases pending with
  | nil =>
    simp only [List.length_nil] at counted
    rw [flush, counted]
    rfl
  | cons byte rest =>
    simp only at counted
    rw [flush, counted, List.reverse_cons, pendingLiteral_concat, ← List.reverse_cons]
    rfl

/-- With nothing ahead, the pending bytes become a literal. -/
theorem script_flush (within : progress.Within options) :
    progress.flush.script = progress.ahead options [] := by
  rw [flush_eq within.counted]
  rfl

/-- A copied window leaves ahead what is behind it. -/
theorem ahead_copy (within : progress.Within options) (block : Block) (length : Nat)
    (rest : List Step) :
    (progress.copy block length).ahead options rest =
      progress.ahead options (.copied block length :: rest) := by
  have back := within.behind
  simp only [ahead, copy, flush_eq within.counted, layOutEagerly, Script.extend, Script.push,
    List.foldl_append, List.foldl_cons, List.length_nil, List.reverse_nil, List.length_reverse,
    Nat.sub_zero]
  rw [Nat.sub_add_cancel back]

/-- What a byte passed over does, when the pending bytes are counted. -/
theorem skip_eq (within : progress.Within options) (byte : UInt8) :
    progress.skip options.maxLiteral byte =
      if progress.pending.length + 1 = options.maxLiteral then
        { progress with
          script := progress.script.push
            (.literal (UInt64.ofNat (progress.position - progress.pending.length))
              (progress.pending.reverse ++ [byte]))
          position := progress.position + 1
          pending := []
          pendingLength := 0 }
      else
        { progress with
          position := progress.position + 1
          pending := byte :: progress.pending
          pendingLength := progress.pending.length + 1 } := by
  rw [skip, within.counted]
  split
  · -- The bound is reached, so the literal that starts before the position is handed out.
    rw [flush_eq rfl]
    have started : progress.position + 1 - (progress.pending.length + 1) =
        progress.position - progress.pending.length := by
      omega
    rw [List.length_cons, started, List.reverse_cons, pendingLiteral_concat]
    rfl
  · rfl

/-- A byte passed over leaves ahead what is behind it. -/
theorem ahead_skip (within : progress.Within options) (byte : UInt8) (rest : List Step) :
    (progress.skip options.maxLiteral byte).ahead options rest =
      progress.ahead options (.passed byte :: rest) := by
  have back := within.behind
  rw [skip_eq within]
  split
  · rename_i full
    have onward : progress.position - progress.pending.length + (progress.pending.length + 1) =
        progress.position + 1 := by
      omega
    simp only [ahead, layOutEagerly, List.length_reverse, if_pos full, onward]
    rfl
  · rename_i free
    have onward : progress.position + 1 - (progress.pending.length + 1) =
        progress.position - progress.pending.length := by
      omega
    simp only [ahead, layOutEagerly, List.length_reverse, if_neg free, List.length_cons, onward,
      List.reverse_cons]

/-- A copied window leaves nothing pending. -/
theorem Within.copy (within : progress.Within options) (block : Block) (length : Nat) :
    (progress.copy block length).Within options := by
  rw [Progress.copy, flush_eq within.counted]
  exact ⟨rfl, Nat.zero_le _, options.positive⟩

/-- A byte passed over is counted, and fills a literal only to hand it out. -/
theorem Within.skip (within : progress.Within options) (byte : UInt8) :
    (progress.skip options.maxLiteral byte).Within options := by
  have back := within.behind
  have short := within.short
  rw [skip_eq within]
  split
  · exact ⟨rfl, Nat.zero_le _, options.positive⟩
  · rename_i open'
    refine ⟨rfl, ?_, ?_⟩
    · simp only [List.length_cons]
      omega
    · simp only [List.length_cons]
      omega

/-- A byte passed over matches no block. -/
theorem last_skip (within : progress.Within options) (byte : UInt8) :
    (progress.skip options.maxLiteral byte).last = progress.last := by
  rw [skip_eq within]
  split <;> rfl

end Progress

/-- A scan that gives up when the sums refuse to slide or to shrink. -/
def scanStrictly (index : BlockIndex) (maxLiteral : Nat) (progress : Progress)
    (sum : Rolling.Sum) (length : Nat) (rest ahead : Bytes) : Except Rolling.Error Progress :=
  match rest with
  | [] => .ok progress
  | byte :: later =>
    let window := fun _ => ((byte :: later).take length, [])
    match index.findWith? sum length window (BlockIndex.successor progress.last) with
    | some block =>
      let rest := later.drop (length - 1)
      let window := rest.take index.blockLength.toNat
      scanStrictly index maxLiteral (progress.copy block length) (Rolling.Sum.ofBytes window)
        window.length rest (rest.drop index.blockLength.toNat)
    | none =>
      match ahead with
      | next :: ahead => do
        let slid ← sum.roll byte next
        scanStrictly index maxLiteral (progress.skip maxLiteral byte) slid length later ahead
      | [] => do
        let shrunk ← sum.trim byte
        scanStrictly index maxLiteral (progress.skip maxLiteral byte) shrunk (length - 1) later []
termination_by rest.length
decreasing_by all_goals simp only [List.length_cons, List.length_drop]; omega

/-- The script of a target, unless the sums refuse to slide or to shrink. -/
def greedyStrictly (index : BlockIndex) (options : MatchOptions) (target : Bytes) :
    Except Rolling.Error Script := do
  let window := target.take index.blockLength.toNat
  let progress ← scanStrictly index options.maxLiteral Progress.start
    (Rolling.Sum.ofBytes window) window.length target (target.drop index.blockLength.toNat)
  return progress.flush.script

/-- The window at the start of the rest of a target: its sums, its length, and
the target behind it. -/
structure Aligned (width : Nat) (sum : Rolling.Sum) (length : Nat) (rest ahead : Bytes) :
    Prop where
  /-- The sums are those of the window. -/
  sums : sum = Rolling.Sum.ofBytes (rest.take width)
  /-- The length is that of the window. -/
  measured : length = (rest.take width).length
  /-- What lies ahead is behind the window. -/
  behind : ahead = rest.drop width

/-- A window set anew is aligned. -/
theorem Aligned.anew (width : Nat) (rest : Bytes) :
    Aligned width (Rolling.Sum.ofBytes (rest.take width)) (rest.take width).length rest
      (rest.drop width) :=
  ⟨rfl, rfl, rfl⟩

variable {width length : Nat} {sum : Rolling.Sum} {byte next : UInt8} {later ahead : Bytes}

/-- While something lies ahead, the window slides and stays aligned. -/
theorem Aligned.slide (aligned : Aligned width sum length (byte :: later) (next :: ahead))
    (positive : 0 < width) (fits : width ≤ Rolling.longestWindow) :
    ∃ slid, sum.roll byte next = .ok slid ∧ Aligned width slid length later ahead := by
  obtain ⟨inner, rfl⟩ : ∃ inner, width = inner + 1 := ⟨width - 1, by omega⟩
  obtain ⟨rfl, rfl, behind⟩ := aligned
  rw [List.drop_succ_cons] at behind
  have reach : inner < later.length := by
    apply Nat.lt_of_not_le
    intro short
    rw [List.drop_of_length_le short] at behind
    exact absurd behind (List.cons_ne_nil _ _)
  have entering : later[inner] = next := by
    rw [List.drop_eq_getElem_cons reach] at behind
    exact (List.cons.inj behind).1.symm
  have moved : later.take (inner + 1) = later.take inner ++ [next] := by
    rw [List.take_succ_eq_append_getElem reach, entering]
  have whole : (later.take inner).length = inner := List.length_take_of_le (Nat.le_of_lt reach)
  refine ⟨Rolling.Sum.ofBytes (later.take inner ++ [next]), ?_, ?_, ?_, ?_⟩
  · rw [List.take_succ_cons]
    exact Rolling.Sum.roll_ofBytes byte next _ (by omega)
  · rw [moved]
  · rw [moved, List.take_succ_cons]
    simp
  · rw [List.drop_eq_getElem_cons reach] at behind
    exact (List.cons.inj behind).2

/-- With nothing ahead, the window shrinks and stays aligned. -/
theorem Aligned.shrink (aligned : Aligned width sum length (byte :: later) [])
    (positive : 0 < width) (fits : width ≤ Rolling.longestWindow) :
    ∃ shrunk, sum.trim byte = .ok shrunk ∧ Aligned width shrunk (length - 1) later [] := by
  obtain ⟨inner, rfl⟩ : ∃ inner, width = inner + 1 := ⟨width - 1, by omega⟩
  obtain ⟨rfl, rfl, behind⟩ := aligned
  rw [List.drop_succ_cons] at behind
  have reach : later.length ≤ inner := List.drop_eq_nil_iff.mp behind.symm
  have inside : later.take inner = later := List.take_of_length_le reach
  have outside : later.take (inner + 1) = later := List.take_of_length_le (by omega)
  refine ⟨Rolling.Sum.ofBytes later, ?_, ?_, ?_, ?_⟩
  · rw [List.take_succ_cons, inside]
    exact Rolling.Sum.trim_ofBytes byte later (by omega)
  · rw [outside]
  · rw [List.take_succ_cons, inside, outside]
    simp
  · rw [List.drop_of_length_le (by omega)]

/-- A scan never computes sums afresh to go on, and its script is that of the
naive steps through the rest of the target. -/
theorem scan_eq_steps (signature : Signature) (options : MatchOptions) (progress : Progress)
    (sum : Rolling.Sum) (length : Nat) (rest ahead : Bytes) (within : progress.Within options)
    (aligned : Aligned signature.layout.blockLength.toNat sum length rest ahead) :
    scanStrictly (BlockIndex.ofSignature signature) options.maxLiteral progress sum length rest
        ahead =
      .ok (scan (BlockIndex.ofSignature signature) options.maxLiteral progress sum length rest
        ahead) ∧
    (scan (BlockIndex.ofSignature signature) options.maxLiteral progress sum length rest
        ahead).flush.script =
      progress.ahead options (steps signature progress.last rest) := by
  have positive := signature.layout.blockLength.positive
  have fits := signature.layout.blockLength.toNat_le_longestWindow
  induction count : rest.length using Nat.strongRecOn
    generalizing progress sum length rest ahead with
  | ind _ ih =>
  cases rest with
  | nil =>
    rw [scanStrictly, scan, steps_nil]
    exact ⟨rfl, Progress.script_flush within⟩
  | cons byte later =>
    simp only [List.length_cons] at count
    have window : (byte :: later).take length ++ [] =
        (byte :: later).take signature.layout.blockLength.toNat := by
      rw [aligned.measured, List.append_nil, List.length_take]
      exact List.take_eq_take_iff.mpr (by simp)
    have looked := findWith?_eq_matched? signature progress.last _
      (fun _ => ((byte :: later).take length, [])) window
    rw [← aligned.sums, ← aligned.measured] at looked
    rw [scanStrictly.eq_def, scan.eq_def]
    simp only [looked]
    cases found : matched? signature progress.last
        ((byte :: later).take signature.layout.blockLength.toNat) with
    | some block =>
      have something : 0 < length := by
        rw [aligned.measured, List.length_take, List.length_cons]
        omega
      have jumped : later.drop (length - 1) = (byte :: later).drop length := by
        obtain ⟨more, rfl⟩ : ∃ more, length = more + 1 := ⟨length - 1, by omega⟩
        rfl
      have next := ih (later.drop (length - 1)).length
        (by rw [List.length_drop]; omega) (progress.copy block length)
        _ _ _ _ (within.copy block length) (Aligned.anew _ (later.drop (length - 1))) rfl
      rw [steps_of_matched _ _ (List.cons_ne_nil _ _) found, ← aligned.measured, ← jumped,
        ← Progress.ahead_copy within]
      exact next
    | none =>
      rw [steps_of_unmatched _ _ found, ← Progress.ahead_skip within,
        ← Progress.last_skip within byte]
      cases ahead with
      | cons next ahead =>
        obtain ⟨slid, rolled, onward⟩ := aligned.slide positive fits
        have step := ih later.length (by omega) (progress.skip options.maxLiteral byte) slid length
          later ahead (within.skip byte) onward rfl
        simp only [slide, rolled]
        exact step
      | nil =>
        obtain ⟨shrunk, trimmed, onward⟩ := aligned.shrink positive fits
        have step := ih later.length (by omega) (progress.skip options.maxLiteral byte) shrunk
          (length - 1) later [] (within.skip byte) onward rfl
        simp only [shrink, trimmed]
        exact step

/-- Nothing is pending at the start. -/
theorem Progress.within_start (options : MatchOptions) : Progress.start.Within options :=
  ⟨rfl, Nat.le_refl _, options.positive⟩

/-- The scan with sliding sums gives the script of the naive policy. -/
theorem script_of_greedy (signature : Signature) (options : MatchOptions) (target : Bytes) :
    greedy (BlockIndex.ofSignature signature) options target =
      Reference.script signature options target := by
  have described := (scan_eq_steps signature options Progress.start _ _ target _
    (Progress.within_start options) (Aligned.anew _ target)).2
  have joined := Script.extend_empty (Reference.deltas signature options target)
  rw [Reference.deltas, layOut_eq_eagerly] at joined
  rw [Reference.script_eq, Reference.deltas, layOut_eq_eagerly, ← joined]
  exact described

/-- The scan never has to compute sums afresh because they refuse to slide or to shrink. -/
theorem greedyStrictly_eq_ok (signature : Signature) (options : MatchOptions) (target : Bytes) :
    greedyStrictly (BlockIndex.ofSignature signature) options target =
      .ok (greedy (BlockIndex.ofSignature signature) options target) := by
  have strict := (scan_eq_steps signature options Progress.start _ _ target _
    (Progress.within_start options) (Aligned.anew _ target)).1
  have width : (BlockIndex.ofSignature signature).blockLength = signature.layout.blockLength := rfl
  rw [greedyStrictly, width]
  simp only [strict]
  rfl

/-- The scan with sliding sums gives exactly the script of the naive policy,
and never has to compute sums afresh because they refuse to slide or to shrink. -/
theorem greedy_eq_script (signature : Signature) (options : MatchOptions) (target : Bytes) :
    greedy (BlockIndex.ofSignature signature) options target =
        Reference.script signature options target ∧
      greedyStrictly (BlockIndex.ofSignature signature) options target =
        .ok (greedy (BlockIndex.ofSignature signature) options target) :=
  ⟨script_of_greedy signature options target, greedyStrictly_eq_ok signature options target⟩

end Matching

end BlockDelta
