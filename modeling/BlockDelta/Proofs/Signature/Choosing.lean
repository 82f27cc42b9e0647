import BlockDelta.Proofs.Running
import BlockDelta.Proofs.Signature.Root
import BlockDelta.Signature.Basic
import Mathlib

/-!
# What a generator is made of

A block length is forced or derived. A forced one is refused beyond the longest
length, and a derived one is a root that is cut to it. So every generator has a
block length that a signature stream allows.
-/

namespace BlockDelta

/-- A block length that is made is the number that it is made of. -/
theorem BlockLength.ofNat?_eq_some {length : Nat} {blockLength : BlockLength}
    (sized : ofNat? length = some blockLength) : blockLength.toNat = length := by
  unfold ofNat? at sized
  split at sized
  · cases sized
    rfl
  · cases sized

/-- A specification that is made has the parts that it is made of. -/
theorem Strong.Spec.ofParts_eq_ok {algorithm : Strong.Algorithm}
    {length : { count : Nat // 0 < count }} {seed : Bytes} {spec : Strong.Spec}
    (ruled : ofParts algorithm length seed = .ok spec) :
    spec.algorithm = algorithm ∧ spec.length = length.val ∧ spec.seed = seed := by
  unfold ofParts at ruled
  split at ruled
  · cases ruled
    exact ⟨rfl, rfl, rfl⟩
  · cases ruled

namespace Layout

/-- A cut that is chosen has a block length within the longest. -/
theorem choose_eq_ok {basisLength : Nat} {forced : Option Nat} {layout : Layout}
    (chosen : choose basisLength forced = .ok layout) :
    ofLength basisLength layout.blockLength = .ok layout ∧
      layout.blockLength.toNat ≤ longestLength := by
  unfold choose at chosen
  simp only [] at chosen
  split at chosen
  · cases chosen
  rename_i allowed
  cases known : BlockLength.ofNat? (forced.getD (derivedLength basisLength)) with
  | none => simp [known] at chosen
  | some blockLength =>
    simp only [known] at chosen
    have length := BlockLength.ofNat?_eq_some known
    have same : layout.blockLength = blockLength := by
      unfold ofLength at chosen
      simp only [] at chosen
      split at chosen <;> cases chosen
      rfl
    rw [same]
    refine ⟨chosen, ?_⟩
    rw [length]
    cases forced with
    | none => exact (derivedLength_bounds basisLength).2
    | some forced => simpa using allowed

end Layout

namespace Signature

/-- What a generator that is made can do: it cuts the basis, into blocks that a stream allows, and
has the seed that was asked for. -/
theorem Options.generator_eq_ok {options : Options} {basisLength : Nat} {generator : Generator}
    (made : options.generator basisLength = .ok generator) :
    (∃ layout, Layout.ofLength basisLength generator.blockLength = .ok layout) ∧
      generator.blockLength.toNat ≤ Layout.longestLength ∧
      generator.spec.seed = options.seed := by
  obtain ⟨spec, ruled, made⟩ := exists_of_bind_eq_ok made
  obtain ⟨layout, cut, made⟩ := exists_of_bind_eq_ok made
  cases made
  obtain ⟨fits, narrow⟩ := Layout.choose_eq_ok (eq_ok_of_mapError cut)
  obtain ⟨_, _, seed⟩ := Strong.Spec.ofParts_eq_ok (eq_ok_of_mapError ruled)
  exact ⟨⟨layout, fits⟩, narrow, seed⟩

end Signature

end BlockDelta
