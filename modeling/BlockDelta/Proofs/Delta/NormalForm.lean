import BlockDelta.Proofs.Delta.ExactCover
import BlockDelta.Proofs.Rebuild.Pointwise
import BlockDelta.Proofs.Strict.Pushing

/-!
# Scripts in normal form

In the script that deltas are pushed into, no copy is continued by the one
behind it, as far as one copy could be as long as both. A joint copy has the
bytes of its two parts and no others, and each of them from the same place of
the basis. So the script covers the target exactly when the deltas do, whatever
their order, and is applied to every basis with the same outcome.
-/

namespace BlockDelta

namespace Delta

/-- No delta is continued by the one behind it. -/
def Normal (deltas : List Delta) : Prop := deltas.IsChain fun left right => ¬left.Continues right

variable {basis : ByteArray} {length : Nat} {deltas : List Delta}
  {left middle right joint : Delta}

/-- A delta that is not continued by a copy is not continued by a joint copy that begins with it. -/
theorem not_continues_joint (made : middle.joined? right = some joint)
    (apart : ¬left.Continues middle) : ¬left.Continues joint := by
  obtain ⟨source, offset, length, -, -, nextLength, rfl, -, rfl, -, -, both⟩ :=
    copies_of_joined? made
  cases left with
  | literal offset data => exact id
  | copy lastSource lastOffset lastLength =>
    rintro ⟨read, written, short⟩
    exact apart ⟨read, written, by omega⟩

/-- Joined deltas are in normal form, also behind one that is not continued by the first of them. -/
theorem normal_cons_join (apart : ∀ first ∈ deltas.head?, ¬left.Continues first) :
    Normal (left :: join deltas) := by
  induction deltas using joinInduction generalizing left with
  | nil => exact List.isChain_singleton left
  | single delta => exact List.isChain_pair.2 (apart delta rfl)
  | joined first next joint rest made ih =>
    rw [join_of_joined made]
    refine ih fun taken same => ?_
    cases same
    exact not_continues_joint made (apart first rfl)
  | apart first next rest separate ih =>
    rw [join_of_apart separate]
    refine List.isChain_cons_cons.2 ⟨apart first rfl, ih fun second same => ?_⟩
    cases same
    exact joined?_eq_none_iff.1 separate

/-- Joined deltas are in normal form. -/
theorem normal_join (deltas : List Delta) : Normal (join deltas) := by
  -- nothing continues a literal, so one may stand in front
  have apart : ∀ first ∈ deltas.head?, ¬(literal 0 []).Continues first := fun _ _ => id
  exact (normal_cons_join apart).tail

/-- Deltas in normal form are not joined any further. -/
theorem join_of_normal (normal : Normal deltas) : join deltas = deltas := by
  induction deltas using joinInduction with
  | nil => rfl
  | single delta => rfl
  | joined left right joint rest made ih =>
    have separate := joined?_eq_none_iff.2 (List.isChain_cons_cons.1 normal).1
    rw [made] at separate
    cases separate
  | apart left right rest separate ih =>
    rw [join_of_apart separate, ih (List.isChain_cons_cons.1 normal).2]

/-- Each byte of the target lies in as many deltas when two of them are joined. -/
theorem countP_covers_joint (made : left.joined? right = some joint) (offset : Nat)
    (rest : List Delta) :
    (joint :: rest).countP (covers offset) = (left :: right :: rest).countP (covers offset) := by
  obtain ⟨behind, first, last⟩ := place_of_joined? made
  have onward : left.start ≤ left.stop ∧ right.start ≤ right.stop :=
    ⟨Nat.le_add_right .., Nat.le_add_right ..⟩
  simp only [List.countP_cons, covers_iff, first, last]
  split <;> split <;> split <;> omega

/-- Joining deltas does not change in how many of them a byte lies. -/
theorem countP_covers_join (offset : Nat) (deltas : List Delta) :
    (join deltas).countP (covers offset) = deltas.countP (covers offset) := by
  induction deltas using joinInduction with
  | nil => rfl
  | single delta => rfl
  | joined left right joint rest made ih =>
    rw [join_of_joined made, ih, countP_covers_joint made]
  | apart left right rest separate ih =>
    rw [join_of_apart separate, List.countP_cons, ih, ← List.countP_cons]

/-- Joined deltas cover a target exactly when the deltas do. -/
theorem ExactCover.join (cover : ExactCover deltas length) : ExactCover (join deltas) length where
  filled := forall_mem_join
    (fun made first _ => (joined?_eq_some made).2.2.2 ▸ Nat.add_pos_left first _) cover.filled
  inside := forall_mem_join
    (fun made _ second => (place_of_joined? made).2.2 ▸ second) cover.inside
  once offset before := by
    rw [countP_covers_join]
    exact cover.once offset before

/-- What passes from a joint copy to its parts passes from the joined deltas to all. -/
theorem forall_mem_of_join {property : Delta → Prop}
    (splits : ∀ {left right joint : Delta}, left.joined? right = some joint → property joint →
      property left ∧ property right)
    (each : ∀ delta ∈ Delta.join deltas, property delta) : ∀ delta ∈ deltas, property delta := by
  induction deltas using joinInduction with
  | nil => exact each
  | single delta => exact each
  | joined left right joint rest made ih =>
    rw [join_of_joined made] at each
    obtain ⟨both, others⟩ := List.forall_mem_cons.1 (ih each)
    obtain ⟨first, second⟩ := splits made both
    exact List.forall_mem_cons.2 ⟨first, List.forall_mem_cons.2 ⟨second, others⟩⟩
  | apart left right rest separate ih =>
    rw [join_of_apart separate] at each
    obtain ⟨first, others⟩ := List.forall_mem_cons.1 each
    exact List.forall_mem_cons.2 ⟨first, ih others⟩

/-- A joint copy reads inside a basis when both its parts do. -/
theorem fits_joint_iff {basisLength : Nat} (made : left.joined? right = some joint) :
    joint.Fits basisLength ↔ left.Fits basisLength ∧ right.Fits basisLength := by
  obtain ⟨source, offset, length, nextSource, nextOffset, nextLength, rfl, rfl, rfl, onward, -,
    both⟩ := copies_of_joined? made
  simp only [Fits]
  omega

/-- Joined deltas read inside a basis when all deltas do. -/
theorem fits_join_iff {basisLength : Nat} :
    (∀ delta ∈ Delta.join deltas, delta.Fits basisLength) ↔
      ∀ delta ∈ deltas, delta.Fits basisLength :=
  ⟨forall_mem_of_join fun made => (fits_joint_iff made).1,
    forall_mem_join fun made first second => (fits_joint_iff made).2 ⟨first, second⟩⟩

/-- A delta has each of its bytes from where some of the deltas has it. -/
def Drawn (deltas : List Delta) (basis : ByteArray) (delta : Delta) : Prop :=
  ∀ offset, delta.covers offset = true → ∃ other ∈ deltas, other.covers offset = true ∧
    other.byteFor? basis offset = delta.byteFor? basis offset

/-- A joint copy has its bytes from where its parts have them. -/
theorem drawn_joint (made : left.joined? right = some joint) (first : left.Drawn deltas basis)
    (second : right.Drawn deltas basis) : joint.Drawn deltas basis := by
  intro offset covered
  obtain ⟨start, before⟩ := (covers_iff ..).1 covered
  obtain ⟨behind, begun, ended⟩ := place_of_joined? made
  have same :
      (left.covers offset = true →
        left.byteFor? basis offset = joint.byteFor? basis offset) ∧
      (right.covers offset = true →
        right.byteFor? basis offset = joint.byteFor? basis offset) := by
    obtain ⟨source, place, length, nextSource, nextPlace, nextLength, rfl, rfl, rfl, onward, next,
      -⟩ := copies_of_joined? made
    refine ⟨fun _ => rfl, fun inside => ?_⟩
    have further : nextPlace.toNat ≤ offset := ((covers_iff ..).1 inside).1
    simp only [byteFor?]
    congr 1
    omega
  by_cases front : offset < left.stop
  · have inside : left.covers offset = true := (covers_iff ..).2 ⟨begun ▸ start, front⟩
    rw [← same.1 inside]
    exact first offset inside
  · have inside : right.covers offset = true :=
      (covers_iff ..).2 ⟨behind ▸ Nat.le_of_not_lt front, ended ▸ before⟩
    rw [← same.2 inside]
    exact second offset inside

/-- Joined deltas have their bytes from where the deltas have them. -/
theorem drawn_join (deltas : List Delta) (basis : ByteArray) :
    ∀ delta ∈ Delta.join deltas, delta.Drawn deltas basis :=
  forall_mem_join drawn_joint fun delta among _ covered => ⟨delta, among, covered, rfl⟩

/-- Joined deltas describe what the deltas describe. -/
theorem Describe.join {target : ByteArray} (describe : Describe deltas basis target)
    (filled : ∀ delta ∈ deltas, delta.isEmpty = false) :
    Describe (Delta.join deltas) basis target where
  addressed := describe.addressed
  partition := (exactCover_iff.1 (exactCover_iff.2 ⟨describe.partition, filled⟩).join).1
  bytes delta among offset covered := by
    obtain ⟨other, given, inside, same⟩ := drawn_join deltas basis delta among offset covered
    rw [describe.bytes other given offset inside, same]

/-- Deltas describe one target of a length. -/
theorem Describe.eq_of_size_eq {target other : ByteArray} (describe : Describe deltas basis target)
    (also : Describe deltas basis other) (size : target.size = other.size) : target = other := by
  refine Content.ext_byteAt size fun offset inside => ?_
  have single := describe.partition.once offset inside
  obtain ⟨delta, among, covered⟩ := List.countP_pos_iff.1 (single.symm ▸ Nat.one_pos)
  have first := describe.bytes delta among offset covered
  have second := also.bytes delta among offset covered
  rw [Content.getElem?_ofArray inside] at first
  rw [Content.getElem?_ofArray (size ▸ inside)] at second
  exact Option.some.inj (first.trans second.symm)

end Delta

namespace Script

variable {deltas : List Delta} {basis : ByteArray} {length : Nat}

/-- Deltas that tile a target and read inside a basis are applied to it as they describe. -/
theorem exists_applyTo_ofDeltas (tiled : Delta.checkTiling deltas length = .ok ())
    (addressed : length < UInt64.size) (fits : ∀ delta ∈ deltas, delta.Fits basis.size) :
    ∃ target, (ofDeltas deltas).applyTo basis = some target ∧ target.size = length ∧
      Delta.Describe deltas basis target := by
  have planned := Rebuild.Plan.ofDeltas_of_checkTiling tiled addressed
  have checked := (Rebuild.Plan.checkCopies_iff_fits planned basis.size).2
    fun delta among _ => fits delta among
  have applied : (ofDeltas deltas).applyTo basis =
      some ((⟨Delta.inTargetOrder deltas, length⟩ : Rebuild.Plan).target basis) := by
    have listed : ∀ delta ∈ (ofDeltas deltas).deltas, delta.Fits basis.size := by
      rwa [deltas_ofDeltas]
    rw [applyTo_eq_target (ofDeltas deltas) listed, deltas_ofDeltas]
  exact ⟨_, applied, Rebuild.Plan.size_target (Rebuild.Plan.ofDeltas_eq_ok planned).2
    (Rebuild.Plan.checkCopiesOf_eq_ok_iff.1 checked), Rebuild.Plan.describe_target planned checked⟩

/-- Deltas that tile a target are applied to a basis with the same outcome when they are joined. -/
theorem applyTo_join (tiled : Delta.checkTiling deltas length = .ok ())
    (addressed : length < UInt64.size) (basis : ByteArray) :
    (ofDeltas (Delta.join deltas)).applyTo basis = (ofDeltas deltas).applyTo basis := by
  have cover := Delta.checkTiling_eq_ok_iff.1 tiled
  have joinTiled := Delta.checkTiling_eq_ok_iff.2 cover.join
  by_cases fits : ∀ delta ∈ deltas, delta.Fits basis.size
  · obtain ⟨target, applied, size, describe⟩ := exists_applyTo_ofDeltas tiled addressed fits
    obtain ⟨other, joinApplied, otherSize, otherDescribe⟩ :=
      exists_applyTo_ofDeltas joinTiled addressed (Delta.fits_join_iff.2 fits)
    have joined := describe.join (Delta.exactCover_iff.1 cover).2
    rw [joinApplied, applied,
      joined.eq_of_size_eq otherDescribe (size.trans otherSize.symm)]
  · have misfit := Delta.fits_join_iff.not.2 fits
    rw [((ofDeltas deltas).applyTo_eq_none_iff basis).2, applyTo_eq_none_iff, Delta.outrun_iff,
      deltas_ofDeltas]
    · exact misfit
    · rw [Delta.outrun_iff, deltas_ofDeltas]
      exact fits

/-- Deltas in any order that tile a target still do when they are pushed into a script one by one.
The script has the same totals as the deltas, and is applied to every basis with the same outcome,
also to one that a copy outruns. No copy in it is continued by the one behind it, and to push its
deltas once more gives the same script. When the copies end at words in the basis, pushing takes no
sum that is none. -/
theorem extend_normalizes (deltas : List Delta) (length : UInt64)
    (tiled : (ofDeltas deltas).checkTiling length.toNat = .ok ()) :
    let pushed := empty.extend deltas
    pushed.checkTiling length.toNat = .ok () ∧
      pushed.literalBytes = (ofDeltas deltas).literalBytes ∧
      pushed.copyBytes = (ofDeltas deltas).copyBytes ∧
      pushed.totalBytes = (ofDeltas deltas).totalBytes ∧
      (∀ basis, pushed.applyTo basis = (ofDeltas deltas).applyTo basis) ∧
      Delta.Normal pushed.deltas ∧
      empty.extend pushed.deltas = pushed ∧
      ((∀ delta ∈ deltas, delta.Fits (UInt64.size - 1)) →
        Strict.extend empty deltas = .ok pushed) := by
  intro pushed
  have joined : pushed = ofDeltas (Delta.join deltas) := extend_empty deltas
  have listed : pushed.deltas = Delta.join deltas := by rw [joined, deltas_ofDeltas]
  rw [checkTiling, deltas_ofDeltas] at tiled
  have cover := Delta.checkTiling_eq_ok_iff.1 tiled
  obtain ⟨literals, copies⟩ := Delta.totals_join deltas
  have literalBytes : pushed.literalBytes = (ofDeltas deltas).literalBytes := by
    rw [joined, ofDeltas_eq, ofDeltas_eq, literals]
  have copyBytes : pushed.copyBytes = (ofDeltas deltas).copyBytes := by
    rw [joined, ofDeltas_eq, ofDeltas_eq, copies]
  refine ⟨?tiling, literalBytes, copyBytes, ?total, fun basis => ?_, ?normal, ?again,
    fun fits => ?_⟩
  case tiling =>
    rw [checkTiling, listed]
    exact Delta.checkTiling_eq_ok_iff.2 cover.join
  case total => rw [totalBytes, totalBytes, literalBytes, copyBytes]
  case normal =>
    rw [listed]
    exact Delta.normal_join deltas
  case again =>
    rw [extend_empty, listed, Delta.join_of_normal (Delta.normal_join deltas), joined]
  · rw [joined]
    exact applyTo_join tiled length.toNat_lt basis
  · have whole := Delta.totalLength_of_checkTiling tiled
    refine Strict.extend_eq_ok (List.forall_mem_nil _)
      (fun delta among => ⟨fits delta among, ?_⟩) ?_
    · exact Nat.lt_of_le_of_lt (cover.inside delta among) length.toNat_lt
    · have nothing : empty.totalBytes = 0 := rfl
      rw [nothing, Nat.zero_add, whole]
      exact length.toNat_lt

/-- Two copies behind the literal that follows them in the target become one; a third one follows
them in the target only. -/
theorem extend_normalizes_unordered :
    let deltas : List Delta := [.literal 4 [9], .copy 0 0 2, .copy 2 2 2, .copy 3 5 1]
    let pushed := empty.extend deltas
    pushed.deltas = [.literal 4 [9], .copy 0 0 4, .copy 3 5 1] ∧
      pushed.checkTiling 6 = .ok () ∧
      (∀ basis, pushed.applyTo basis = (ofDeltas deltas).applyTo basis) ∧
      Delta.Normal pushed.deltas ∧
      Strict.extend empty deltas = .ok pushed := by
  intro deltas pushed
  have tiled : (ofDeltas deltas).checkTiling (6 : UInt64).toNat = .ok () := by cbv
  have fits : ∀ delta ∈ deltas, delta.Fits (UInt64.size - 1) := by decide
  obtain ⟨passed, -, -, -, applied, normal, -, strict⟩ := extend_normalizes deltas 6 tiled
  exact ⟨by decide, passed, applied, normal, strict fits⟩

end Script

end BlockDelta
