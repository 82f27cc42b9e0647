import BlockDelta.Proofs.Signature.WellFormed

/-!
# A basis gets one signature behind a reader and in memory

Both ways to a signature refuse a basis whose blocks cannot be numbered, one of
them when it divides and the other when it comes to the last number. Up to there
they agree, and only a reader can fail.
-/

namespace BlockDelta.Signature.Generator

/-- Whatever pieces a basis is delivered in and however often a read is to be repeated, behind a
reader that ends it gets the very signature that it gets in memory, each block with its length, and
both ways refuse it exactly when its blocks cannot be numbered. A reader that fails behind no more
blocks than there are numbers has its failure reported, and there is no signature. -/
theorem ofReader_agrees (generator : Generator) (basis : Bytes) (reader : Reader)
    (delivers : reader.delivered = basis) :
    (reader.fault? = none →
      (∀ signature, generator.ofReader reader = .ok signature ↔
        generator.ofBuffer 0 basis = .ok signature) ∧
      ((∃ error, generator.ofReader reader = .error error) ↔
        2 ^ 32 - 1 < basis.length ⌈/⌉ generator.blockLength.toNat) ∧
      ((∃ error, generator.ofBuffer 0 basis = .error error) ↔
        2 ^ 32 - 1 < basis.length ⌈/⌉ generator.blockLength.toNat)) ∧
    ∀ fault, reader.fault? = some fault →
      basis.length ≤ (2 ^ 32 - 1) * generator.blockLength.toNat →
      generator.ofReader reader = .error (.io fault) := by
  subst delivers
  have most : Layout.mostBlocks = 2 ^ 32 - 1 := rfl
  refine ⟨fun ends => ?_, fun fault fails few => ?_⟩
  · have refused : (∃ error, generator.ofBuffer 0 reader.delivered = .error error) ↔
        2 ^ 32 - 1 < reader.delivered.length ⌈/⌉ generator.blockLength.toNat :=
      ofBuffer_eq_error_iff
    rw [ofReader_of_ends ends]
    split
    · exact ⟨fun signature => Iff.rfl, refused, refused⟩
    · rename_i many
      have uncounted : 2 ^ 32 - 1 < reader.delivered.length ⌈/⌉ generator.blockLength.toNat := by
        omega
      obtain ⟨error, missing⟩ := refused.2 uncounted
      refine ⟨fun signature => ?_, ⟨fun _ => uncounted, fun _ => ⟨_, rfl⟩⟩, refused⟩
      rw [missing]
      exact ⟨fun made => (nomatch made), fun made => (nomatch made)⟩
  · have whole := Nat.div_le_of_le_mul (Nat.mul_comm _ generator.blockLength.toNat ▸ few)
    rw [ofReader_of_fails fails, if_pos (by omega)]

/-- Five bytes in blocks of two, with the second block delivered in two pieces and an interruption
in it, get the signature that they get in memory; when the reader fails behind the fourth byte
instead, that failure is what is reported. -/
theorem ofReader_agrees_remainder :
    let generator : Generator :=
      ⟨⟨2, by decide, by decide⟩, ⟨.xxh64 7, 3, [9, 9], by decide, by decide⟩⟩
    (∃ signature, generator.ofBuffer 0 [1, 2, 3, 4, 5] = .ok signature ∧
      generator.ofReader [.data [1, 2, 3], .interrupted, .data [4, 5]] = .ok signature ∧
      signature.blocks.map Block.length = [2, 2, 1]) ∧
    generator.ofReader [.data [1, 2, 3], .interrupted, .data [4], .failed .isDirectory] =
      .error (.io .isDirectory) := by
  intro generator
  have cut : Layout.ofLength ([1, 2, 3, 4, 5] : Bytes).length generator.blockLength =
      .ok ⟨generator.blockLength, 1, 3⟩ := by cbv
  have made := ofBuffer_eq_ok 0 cut
  have agrees := (ofReader_agrees generator [1, 2, 3, 4, 5]
    [.data [1, 2, 3], .interrupted, .data [4, 5]] rfl).1 rfl
  have fails := (ofReader_agrees generator [1, 2, 3, 4]
    [.data [1, 2, 3], .interrupted, .data [4], .failed .isDirectory] rfl).2
  refine ⟨⟨_, made, (agrees.1 _).2 made, ?_⟩, fails .isDirectory rfl (by decide)⟩
  simp [pieces, Bytes.chunks_cons, describeFrom, describe, Block.length, Rolling.Sum.length_ofBytes,
    UInt32.size, generator]

end BlockDelta.Signature.Generator
