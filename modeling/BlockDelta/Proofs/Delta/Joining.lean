import BlockDelta.Proofs.Delta.Coalescing
import BlockDelta.Proofs.Rebuild.Fresh

/-!
# What joining keeps

A joint copy begins where its first part begins and stops where its second part
stops, and the second part begins where the first stops. So deltas that stand
in a chain still do when they are joined, and what holds of a joint copy
whenever it holds of its parts holds of all joined deltas. Deltas in a chain
are applied one behind the other, each contributing its own bytes.
-/

namespace BlockDelta

namespace Delta

variable {start stop : Nat} {deltas : List Delta}

/-- Two deltas that join are copies, of which the second continues the first in basis and target,
and the joint copy has the length of both. -/
theorem copies_of_joined? {left right joint : Delta} (made : left.joined? right = some joint) :
    ∃ source offset length nextSource nextOffset nextLength,
      left = .copy source offset length ∧ right = .copy nextSource nextOffset nextLength ∧
      joint = .copy source offset (length + nextLength) ∧
      nextSource.toNat = source.toNat + length.toNat ∧
      nextOffset.toNat = offset.toNat + length.toNat ∧
      (length + nextLength).toNat = length.toNat + nextLength.toNat := by
  cases left with
  | literal offset data => simp [joined?] at made
  | copy source offset length =>
    cases right with
    | literal nextOffset data => simp [joined?] at made
    | copy nextSource nextOffset nextLength =>
      simp only [joined?] at made
      split at made
      · rename_i fits
        cases made
        refine ⟨_, _, _, _, _, _, rfl, rfl, rfl, fits.1.symm, fits.2.1.symm, ?_⟩
        rw [UInt32.toNat_add, Nat.mod_eq_of_lt fits.2.2]
      · cases made

/-- A joint copy stands where its two parts stand, one behind the other. -/
theorem place_of_joined? {left right joint : Delta} (made : left.joined? right = some joint) :
    right.start = left.stop ∧ joint.start = left.start ∧ joint.stop = right.stop := by
  obtain ⟨_, _, _, _, _, _, rfl, rfl, rfl, _, behind, both⟩ := copies_of_joined? made
  refine ⟨behind, rfl, ?_⟩
  simp only [Delta.stop, Delta.start, Delta.length, both, behind, Nat.add_assoc]

/-- Deltas in a chain still stand in a chain when they are joined. -/
theorem Tiles.join (tiles : Tiles start deltas stop) : Tiles start (join deltas) stop := by
  induction deltas using joinInduction generalizing start with
  | nil => exact tiles
  | single delta => exact tiles
  | joined left right joint rest made ih =>
    obtain ⟨begun, middle, others⟩ := tiles
    obtain ⟨_, first, last⟩ := place_of_joined? made
    rw [join_of_joined made]
    exact ih ⟨first.trans begun, last ▸ others⟩
  | apart left right rest separate ih =>
    rw [join_of_apart separate]
    exact ⟨tiles.1, ih tiles.2⟩

/-- What passes from the parts to a joint copy passes from deltas to the joined ones. -/
theorem forall_mem_join {property : Delta → Prop}
    (joins : ∀ {left right joint : Delta}, left.joined? right = some joint → property left →
      property right → property joint)
    (each : ∀ delta ∈ deltas, property delta) : ∀ delta ∈ join deltas, property delta := by
  induction deltas using joinInduction with
  | nil => exact each
  | single delta => exact each
  | joined left right joint rest made ih =>
    obtain ⟨first, others⟩ := List.forall_mem_cons.1 each
    obtain ⟨second, later⟩ := List.forall_mem_cons.1 others
    rw [join_of_joined made]
    exact ih (List.forall_mem_cons.2 ⟨joins made first second, later⟩)
  | apart left right rest separate ih =>
    obtain ⟨first, others⟩ := List.forall_mem_cons.1 each
    rw [join_of_apart separate]
    exact List.forall_mem_cons.2 ⟨first, ih others⟩

/-- A delta that reads inside the basis is applied as its bytes. -/
theorem bytesOf?_of_fits {basis : ByteArray} {delta : Delta} (fits : delta.Fits basis.size) :
    Script.bytesOf? basis delta = some (delta.piece basis) := by
  cases delta with
  | literal offset data => rfl
  | copy source offset length => exact if_pos fits

end Delta

namespace Script

/-- The bytes of deltas that read inside the basis are put one behind the other. -/
theorem foldlM_bytesOf? {basis : ByteArray} {deltas : List Delta} (front : ByteArray)
    (fits : ∀ delta ∈ deltas, delta.Fits basis.size) :
    deltas.foldlM (fun target delta => (bytesOf? basis delta).map (target ++ ·)) front =
      some (front ++ Bytes.toArray (deltas.flatMap (Delta.pieceBytes basis))) := by
  induction deltas generalizing front with
  | nil =>
    rw [List.flatMap_nil]
    exact congrArg some ByteArray.append_empty.symm
  | cons delta rest ih =>
    obtain ⟨own, others⟩ := List.forall_mem_cons.1 fits
    have piece : Bytes.toArray (delta.pieceBytes basis) = delta.piece basis := rfl
    rw [List.foldlM_cons, Delta.bytesOf?_of_fits own, List.flatMap_cons, Bytes.toArray_append,
      piece, ← ByteArray.append_assoc]
    exact ih (front ++ delta.piece basis) others

/-- Deltas that stand in a chain and read inside the basis are applied one behind the other. -/
theorem applyTo_ofDeltas {deltas : List Delta} {basis : ByteArray} {stop : Nat}
    (tiles : Delta.Tiles 0 deltas stop) (fits : ∀ delta ∈ deltas, delta.Fits basis.size) :
    (ofDeltas deltas).applyTo basis =
      some (Bytes.toArray (deltas.flatMap (Delta.pieceBytes basis))) := by
  rw [applyTo, deltas_ofDeltas, tiles.inTargetOrder_eq, foldlM_bytesOf? _ fits,
    ByteArray.empty_append]

end Script

end BlockDelta
