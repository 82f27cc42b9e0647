import BlockDelta.Proofs.Delta.Partition
import BlockDelta.Proofs.Rebuild.Fresh
import BlockDelta.Proofs.Strict.Decoding

/-!
# Rebuilding into a sink does not go wrong

The plan and the range of the copies are checked with sums that may fail, so
these checks are plain ones. What is done afterwards relies on them: a copy that
lies in a basis whose size is a word stops at a word, and deltas that cover a
target are together as long as the target.
-/

namespace BlockDelta

namespace Rebuild.Plan

/-- The deltas of a plan are together as long as its target. -/
theorem totalLength_lt {deltas : List Delta} {plan : Plan}
    (planned : Plan.ofDeltas deltas = .ok plan) :
    Delta.totalLength plan.deltas < UInt64.size := by
  have whole := (Plan.ofDeltas_eq_ok planned).2.totalLength
  have fits := targetLength_lt planned
  omega

end Rebuild.Plan

namespace Strict

open Rebuild

/-- What a rebuild by a plan does, added up delta by delta. -/
def report (plan : Plan) : Except Trap Report := do
  let (carried, copied) ← tally 0 0 plan.deltas
  return ⟨copied, carried, 0, plan.targetLength⟩

/-- So many bytes of the basis are written; those just written are taken off the rest. -/
def copyNext (buffer : Buffer) (basis : Basis) (remaining : Nat) :
    EStateM (Halt Fault) Progress Unit :=
  if remaining = 0 then pure ()
  else do
    let count := min remaining buffer.size
    let piece ← plainly (readNext basis count)
    plainly (emit (Bytes.ofArray piece))
    guarded (noUnderflow remaining count)
    copyNext buffer basis (remaining - count)
termination_by remaining
decreasing_by have := buffer.positive; omega

/-- A delta is written; behind a copy it is noted where the copy ends in the basis. -/
def emitDelta (buffer : Buffer) (basis : Basis) : Delta → EStateM (Halt Fault) Progress Unit
  | .literal _ data => plainly (emit data)
  | .copy source _ length => do
    plainly (seek source.toNat)
    copyNext buffer basis length.toNat
    guarded (noOverflow source.toNat length.toNat)
    plainly (modify fun progress =>
      { progress with lastStop := some (source.toNat + length.toNat) })

/-- Deltas are written one behind the other. -/
def emitDeltas (buffer : Buffer) (basis : Basis) :
    List Delta → EStateM (Halt Fault) Progress Unit
  | [] => pure ()
  | delta :: rest => do
    emitDelta buffer basis delta
    emitDeltas buffer basis rest

/-- The target that deltas describe is written to a sink; the report is made at the end. -/
def toSink (buffer : Buffer) (basis : Basis) (deltas : List Delta) :
    EStateM (Halt Error) Sink Report := fun sink =>
  let inRange := do
    let plan ← Plan.ofDeltas deltas
    plan.checkCopies basis.size
    return plan
  match inRange with
  | .error error => .error (.failed error) sink
  | .ok plan =>
    match emitDeltas buffer basis plan.deltas ⟨basis.size, none, sink⟩ with
    | .ok () done => guarded (report plan) done.sink
    | .error halt failed => .error (halt.map .io) failed.sink

variable {basis : Basis} {deltas : List Delta}

/-- The report of a plan is made without trouble. -/
theorem report_eq_ok {plan : Plan} (planned : Plan.ofDeltas deltas = .ok plan) :
    report plan = .ok plan.report := by
  rw [report, tally_of_totalLength_lt (Plan.totalLength_lt planned), Plan.report_eq]
  rfl

/-- No more bytes are taken off than are left. -/
theorem copyNext_eq (buffer : Buffer) (basis : Basis) (remaining : Nat) :
    copyNext buffer basis remaining = plainly (Rebuild.copyNext buffer basis remaining) := by
  induction remaining using Nat.strongRecOn with
  | ind remaining ih =>
    unfold copyNext Rebuild.copyNext
    split
    · rfl
    · have positive := buffer.positive
      refine plainly_bind_congr fun piece => plainly_bind_congr fun _ => ?_
      rw [noUnderflow_eq_ok (Nat.min_le_left ..), guarded_ok_bind, ih _ (by omega)]

/-- A copy that lies in the basis ends at a word. -/
theorem emitDelta_eq (buffer : Buffer) {delta : Delta} (fits : delta.Fits basis.size)
    (size : basis.size < UInt64.size) :
    emitDelta buffer basis delta = plainly (Rebuild.emitDelta buffer basis delta) := by
  cases delta with
  | literal offset data => rfl
  | copy source offset length =>
    have stop : source.toNat + length.toNat < UInt64.size := Nat.lt_of_le_of_lt fits size
    refine plainly_bind_congr fun _ => ?_
    rw [copyNext_eq, noOverflow_eq_ok stop]
    exact plainly_bind_congr fun _ => rfl

/-- Deltas whose copies lie in the basis are written without trouble. -/
theorem emitDeltas_eq (buffer : Buffer) (fits : ∀ delta ∈ deltas, delta.Fits basis.size)
    (size : basis.size < UInt64.size) :
    emitDeltas buffer basis deltas = plainly (Rebuild.emitDeltas buffer basis deltas) := by
  induction deltas with
  | nil => rfl
  | cons delta rest ih =>
    obtain ⟨first, others⟩ := List.forall_mem_cons.1 fits
    rw [emitDeltas, Rebuild.emitDeltas, emitDelta_eq buffer first size, ih others, plainly_bind]

/-- Rebuilding into a sink takes no step that goes wrong, whatever the deltas are and however the
basis and the sink fail. -/
theorem toSink_eq (buffer : Buffer) (deltas : List Delta) (size : basis.size < UInt64.size) :
    toSink buffer basis deltas = plainly (Rebuild.toSink buffer basis deltas) := by
  funext sink
  rw [plainly_apply]
  unfold toSink Rebuild.toSink
  cases planned : Plan.ofDeltas deltas with
  | error error => rfl
  | ok plan =>
    cases checked : plan.checkCopies basis.size with
    | error error => simp only [bind, Except.bind, checked]
    | ok _ =>
      have written := emitDeltas_eq buffer (Plan.checkCopiesOf_eq_ok_iff.1 checked) size
      simp only [bind, Except.bind, checked, pure, Except.pure, written, plainly_apply,
        report_eq_ok planned]
      cases Rebuild.emitDeltas buffer basis plan.deltas ⟨basis.size, none, sink⟩ <;> rfl

end Strict

end BlockDelta
