import BlockDelta.Proofs.Strict.InPlace

/-!
# What a stream says does no harm

A delta stream comes from elsewhere, and its offsets and lengths are any words.
Reading it, and rebuilding from what was read, afresh or in place, is done with
sums and differences that are not checked on their way. They need not be: in a
stream that is shorter than `21 * 2 ^ 32` bytes none of them goes wrong.
-/

namespace BlockDelta.Strict

open Rebuild

/-- A stream shorter than `21 * 2 ^ 32` bytes is read, and targets are rebuilt from what was read,
without a sum that is no word, a difference below zero or an access that is out of place: strict
computations, which would end in a trap there, are the plain ones, whether these succeed or fail.
Rebuilding goes from any basis and in any file whose size is a word, with a buffer of any size. -/
theorem plain_of_short (bytes : Bytes) (short : bytes.length < 21 * 2 ^ 32) :
    decode bytes = reported (Delta.decode bytes) ∧
      ∀ decoded rest, Delta.decode bytes = .ok (decoded, rest) →
        let deltas := decoded.script.deltas
        totalBytes decoded.script = .ok decoded.script.totalBytes ∧
        (∀ (buffer : Buffer) (basis : Basis), basis.size < UInt64.size →
          toSink buffer basis deltas = plainly (Rebuild.toSink buffer basis deltas)) ∧
        ∀ (buffer : Buffer) (path : String) (tree : FileTree),
          (∀ number, tree.lookUp path = .ok (.file number) →
            (tree.content number).size < UInt64.size) →
          fileInPlace buffer path deltas tree =
            plainly (Rebuild.fileInPlace buffer path deltas) tree := by
  refine ⟨decode_eq short, fun decoded rest read => ⟨?_, ?_, ?_⟩⟩
  · obtain ⟨deltas, script, -, tiled, -, fits⟩ := Delta.exists_deltas_of_decode read
    rw [script]
    exact totalBytes_eq_ok (Delta.totalLength_of_checkTiling tiled ▸ fits)
  · exact fun buffer basis size => toSink_eq buffer _ size
  · exact fun buffer path tree size => fileInPlace_eq buffer _ size

/-- Two blocks of a file change places, and a byte is added behind them. -/
theorem plain_of_short_swapped :
    let deltas : List Delta := [.copy 0 2 2, .copy 2 0 2, .literal 4 [9]]
    let buffer : Buffer := ⟨3, by decide⟩
    let basis : ByteArray := ⟨#[1, 2, 3, 4]⟩
    let tree := (FileTree.ofWorking []).addFile ["f"] basis
    ∃ decoded, decode (Delta.stream deltas 5) = .ok (decoded, []) ∧
      totalBytes decoded.script = .ok 5 ∧
      toSink buffer (.ofContent basis) decoded.script.deltas .unlimited =
        .ok ⟨4, 1, 0, 5⟩ ⟨⟨#[3, 4, 1, 2, 9]⟩, none⟩ ∧
      ∃ after, fileInPlace buffer "f" decoded.script.deltas tree = .ok ⟨4, 1, 1, 5⟩ after ∧
        after.content 0 = ⟨#[3, 4, 1, 2, 9]⟩ := by
  intro deltas buffer basis tree
  have encodable : ∀ delta ∈ deltas, delta.Encodable := by
    simp [deltas, Delta.Encodable, Delta.length, Delta.isLiteral, UInt32.size]
  have tiled : Delta.checkTiling deltas 5 = .ok () := by cbv
  have accepted : Delta.decode (Delta.stream deltas 5) = .ok (⟨.ofDeltas deltas, 5⟩, []) := by
    have read := Delta.decode_stream [] encodable (by decide : 5 < UInt64.size)
    rwa [tiled, List.append_nil] at read
  have short : (Delta.stream deltas 5).length < 21 * 2 ^ 32 := by cbv
  have held : tree.lookUp "f" = .ok (.file 0) := by cbv
  have size : ∀ number, tree.lookUp "f" = .ok (.file number) →
      (tree.content number).size < UInt64.size := by
    intro number found
    obtain rfl : 0 = number := by simpa [held] using found
    cbv
  obtain ⟨decoded, run⟩ := plain_of_short (Delta.stream deltas 5) short
  obtain ⟨total, fresh, inPlace⟩ := run _ _ accepted
  refine ⟨⟨.ofDeltas deltas, 5⟩, by rw [decoded, accepted]; rfl, total, ?_, ?_⟩
  · rw [fresh buffer (.ofContent basis) (by decide)]
    cbv
  · rw [inPlace buffer "f" tree size]
    refine ⟨tree.store 0 ⟨#[3, 4, 1, 2, 9]⟩, ?_, ?_⟩
    · cbv
    · cbv

end BlockDelta.Strict
