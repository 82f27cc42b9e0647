import BlockDelta.Proofs.Delta.Joining
import BlockDelta.Proofs.Strict.Decoding

/-!
# Pushing deltas does not go wrong

To find out whether a copy continues the last one it is computed where that one
ends, in the basis and, if the two meet there, in the target. Where all deltas
end at words, so do the copies that they are joined to, because a joint copy
ends where its second part does.
-/

namespace BlockDelta

namespace Delta

/-- A delta ends at a word in the target, and a copy does in the basis as well. -/
def Addressed (delta : Delta) : Prop := delta.Fits (UInt64.size - 1) ∧ delta.stop < UInt64.size

/-- A joint copy ends where its second part ends, in the basis and in the target. -/
theorem addressed_joint {left right joint : Delta} (made : left.joined? right = some joint)
    (_ : left.Addressed) (second : right.Addressed) : joint.Addressed := by
  obtain ⟨-, -, stops⟩ := place_of_joined? made
  refine ⟨?_, stops ▸ second.2⟩
  obtain ⟨source, offset, length, nextSource, nextOffset, nextLength, -, rfl, rfl, onward, -,
    both⟩ :=
    copies_of_joined? made
  have read : nextSource.toNat + nextLength.toNat ≤ UInt64.size - 1 := second.1
  change source.toNat + (length + nextLength).toNat ≤ UInt64.size - 1
  omega

end Delta

namespace Strict

open Delta

/-- Where the last delta is a copy, it is computed where it ends in the basis, and if this is where
the next copy starts there, also where it ends in the target. -/
def lookBack (source : UInt64) : List Delta → Except Trap Unit
  | .copy lastSource lastOffset lastLength :: _ => do
    noOverflow lastSource.toNat lastLength.toNat
    if lastSource.toNat + lastLength.toNat = source.toNat then
      noOverflow lastOffset.toNat lastLength.toNat
    else return ()
  | _ => return ()

/-- A delta is pushed: its bytes are added to a total, and a copy looks back. Whether the lengths of
two copies fit together is a sum that may fail. -/
def push (script : Script) : Delta → Except Trap Script
  | .literal offset data => do
    noOverflow script.literalBytes data.length
    return script.push (.literal offset data)
  | .copy source offset length => do
    noOverflow script.copyBytes length.toNat
    lookBack source script.recent
    return script.push (.copy source offset length)

/-- Deltas are pushed one by one. -/
def extend (script : Script) : List Delta → Except Trap Script
  | [] => .ok script
  | delta :: rest => do
    let pushed ← push script delta
    extend pushed rest

variable {script : Script} {delta : Delta} {deltas : List Delta}

/-- Looking back at deltas that end at words makes no trouble. -/
theorem lookBack_eq_ok (source : UInt64) (last : ∀ other ∈ deltas, other.Addressed) :
    lookBack source deltas = .ok () := by
  unfold lookBack
  split
  · rename_i lastSource lastOffset lastLength older
    obtain ⟨read, written⟩ := last _ (List.mem_cons_self ..)
    have readStop : lastSource.toNat + lastLength.toNat < UInt64.size :=
      Nat.lt_of_le_of_lt read (by decide)
    have writeStop : lastOffset.toNat + lastLength.toNat < UInt64.size := written
    rw [noOverflow_eq_ok readStop, noOverflow_eq_ok writeStop]
    exact ite_self _
  · rfl

/-- A delta is pushed without trouble when the totals stay words and the deltas before it end at
words. -/
theorem push_eq_ok (last : ∀ other ∈ script.recent, other.Addressed)
    (fits : script.totalBytes + delta.length < UInt64.size) :
    push script delta = .ok (script.push delta) := by
  unfold Script.totalBytes at fits
  cases delta with
  | literal offset data =>
    change _ + data.length < _ at fits
    rw [push, noOverflow_eq_ok (by omega)]
    rfl
  | copy source offset length =>
    change _ + length.toNat < _ at fits
    rw [push, noOverflow_eq_ok (by omega), lookBack_eq_ok source last]
    rfl

/-- The deltas of a script into which one was pushed end at words when that one and those there
before do. -/
theorem addressed_push (last : ∀ other ∈ script.recent, other.Addressed)
    (own : delta.Addressed) : ∀ other ∈ (script.push delta).recent, other.Addressed := by
  have added : ∀ other ∈ (script.add delta).recent, other.Addressed := by
    unfold Script.add
    split <;> exact List.forall_mem_cons.2 ⟨own, last⟩
  unfold Script.push
  split
  · exact added
  · rename_i newest older recent
    rw [recent, List.forall_mem_cons] at last
    split
    · rename_i joint made
      exact List.forall_mem_cons.2 ⟨addressed_joint made last.1 own, last.2⟩
    · exact added

/-- What a script describes is longer by a delta that was pushed. -/
theorem totalBytes_push (script : Script) (delta : Delta) :
    (script.push delta).totalBytes = script.totalBytes + delta.length := by
  have added : (script.add delta).totalBytes = script.totalBytes + delta.length := by
    unfold Script.add Script.totalBytes
    split <;> simp only [] <;> omega
  unfold Script.push
  split
  · exact added
  · split
    · unfold Script.totalBytes
      simp only []
      omega
    · exact added

/-- Deltas that end at words, and are together with the script no longer than a word can say, are
pushed without trouble. -/
theorem extend_eq_ok (last : ∀ other ∈ script.recent, other.Addressed)
    (addressed : ∀ delta ∈ deltas, delta.Addressed)
    (fits : script.totalBytes + totalLength deltas < UInt64.size) :
    extend script deltas = .ok (script.extend deltas) := by
  induction deltas generalizing script with
  | nil => rfl
  | cons delta rest ih =>
    obtain ⟨own, others⟩ := List.forall_mem_cons.1 addressed
    rw [totalLength] at fits
    rw [extend, push_eq_ok last (by omega), ok_bind]
    exact ih (addressed_push last own) others (by rw [totalBytes_push]; omega)

/-- Without that bound a copy may end behind the last offset of the basis. -/
example : extend .empty [.copy (UInt64.ofNat (UInt64.size - 1)) 0 1, .copy 0 1 1] =
    .error (.overflow (UInt64.size - 1) 1) := by rfl

end Strict

end BlockDelta
