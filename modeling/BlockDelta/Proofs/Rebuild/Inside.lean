import BlockDelta.Proofs.Rebuild.Fresh

/-!
# A rebuild reads nothing outside the basis

A basis is whatever answers reads. Two that answer alike up to where they end
cannot be told apart by a rebuild whose copies are in range, whatever they
answer beyond: all that is read are pieces of the copies. A basis may answer
every other read with a fault of its own, and none of these is ever reported.
The same holds where reading inside the basis or writing fails.
-/

namespace BlockDelta.Rebuild

/-- Two bases end at the same place and answer all reads up to there alike. -/
def Basis.Agrees (basis other : Basis) : Prop :=
  other.size = basis.size ∧
    ∀ offset count, offset + count ≤ basis.size → other.read offset count = basis.read offset count

/-- A write that succeeds does not change from where the basis is read. -/
theorem emit_eq_ok {piece : Bytes} {progress after : Progress}
    (done : emit piece progress = .ok () after) :
    after.position = progress.position ∧ after.lastStop = progress.lastStop := by
  unfold emit at done
  split at done <;> cases done
  exact ⟨rfl, rfl⟩

/-- A read that succeeds moves on by what was read. -/
theorem readNext_eq_ok {basis : Basis} {count : Nat} {piece : ByteArray} {progress after : Progress}
    (done : readNext basis count progress = .ok piece after) :
    after.position = progress.position + count := by
  unfold readNext at done
  split at done <;> cases done
  rfl

section

variable {basis other : Basis} {progress after : Progress}

/-- A copy that succeeds moves on by its length. -/
theorem copyNext_eq_ok {buffer : Buffer} {remaining : Nat}
    (done : copyNext buffer basis remaining progress = .ok () after) :
    after.position = progress.position + remaining := by
  induction remaining using Nat.strongRecOn generalizing progress with
  | ind remaining ih =>
    have positive := buffer.positive
    unfold copyNext at done
    split at done
    · rename_i nothing
      cases done
      omega
    · obtain ⟨piece, reading, read, done⟩ := exists_of_run_eq_ok done
      obtain ⟨_, writing, written, done⟩ := exists_of_run_eq_ok done
      have moved := readNext_eq_ok read
      have stayed := (emit_eq_ok written).1
      have onwards := ih _ (by omega) done
      omega

/-- A delta that is written leaves the basis to be read where the last copy ended. -/
theorem emitDelta_placed {buffer : Buffer} {delta : Delta} (placed : progress.Placed)
    (done : emitDelta buffer basis delta progress = .ok () after) : after.Placed := by
  cases delta with
  | literal offset data =>
    obtain ⟨position, lastStop⟩ := emit_eq_ok done
    intro stop known
    rw [position]
    exact placed stop (lastStop ▸ known)
  | copy source offset length =>
    simp only [emitDelta] at done
    rw [bind_of_ok (seek_eq source.toNat placed)] at done
    obtain ⟨_, copied, ran, done⟩ := exists_of_run_eq_ok done
    have position := copyNext_eq_ok ran
    cases done
    rintro stop ⟨⟩
    exact position

/-- A read inside the basis cannot tell bases apart that agree there. -/
theorem readNext_congr (agrees : basis.Agrees other) {count : Nat}
    (inside : progress.position + count ≤ basis.size) :
    readNext other count progress = readNext basis count progress := by
  unfold readNext
  rw [agrees.2 _ _ inside]

/-- A copy inside the basis cannot tell bases apart that agree there. -/
theorem copyNext_congr (agrees : basis.Agrees other) (buffer : Buffer) {remaining : Nat}
    (inside : progress.position + remaining ≤ basis.size) :
    copyNext buffer other remaining progress = copyNext buffer basis remaining progress := by
  induction remaining using Nat.strongRecOn generalizing progress with
  | ind remaining ih =>
    have positive := buffer.positive
    unfold copyNext
    by_cases nothing : remaining = 0
    · rw [if_pos nothing, if_pos nothing]
    · rw [if_neg nothing, if_neg nothing]
      refine bind_congr_of_ok (readNext_congr agrees (by omega)) fun piece reading read => ?_
      refine bind_congr_of_ok rfl fun _ writing written => ?_
      -- what is left to be read begins where this read ended, and ends where it did
      have moved := readNext_eq_ok read
      have stayed := (emit_eq_ok written).1
      exact ih _ (by omega) (by omega)

/-- A delta in range cannot tell bases apart that agree inside. -/
theorem emitDelta_congr (agrees : basis.Agrees other) (buffer : Buffer) {delta : Delta}
    (fits : delta.Fits basis.size) (placed : progress.Placed) :
    emitDelta buffer other delta progress = emitDelta buffer basis delta progress := by
  cases delta with
  | literal offset data => rfl
  | copy source offset length =>
    -- the copy is read from its source on, also where that needs no new position
    simp only [emitDelta]
    rw [bind_of_ok (seek_eq source.toNat placed), bind_of_ok (seek_eq source.toNat placed)]
    exact bind_congr_of_ok (copyNext_congr agrees buffer fits) fun _ _ _ => rfl

/-- Deltas in range cannot tell bases apart that agree inside. -/
theorem emitDeltas_congr (agrees : basis.Agrees other) (buffer : Buffer) {deltas : List Delta}
    (progress : Progress) (fits : ∀ delta ∈ deltas, delta.Fits basis.size)
    (placed : progress.Placed) :
    emitDeltas buffer other deltas progress = emitDeltas buffer basis deltas progress := by
  induction deltas generalizing progress with
  | nil => rfl
  | cons delta rest ih =>
    obtain ⟨first, others⟩ := List.forall_mem_cons.1 fits
    refine bind_congr_of_ok (emitDelta_congr agrees buffer first placed) fun _ _ done => ?_
    exact ih _ others (emitDelta_placed placed done)

/-- A rebuild whose copies are in range cannot tell bases apart that agree inside. -/
theorem toSink_congr (agrees : basis.Agrees other) (buffer : Buffer) {deltas : List Delta}
    {plan : Plan} (planned : Plan.ofDeltas deltas = .ok plan)
    (fits : ∀ delta ∈ plan.deltas, delta.Fits basis.size) (sink : Sink) :
    toSink buffer other deltas sink = toSink buffer basis deltas sink := by
  have same := emitDeltas_congr agrees buffer ⟨basis.size, none, sink⟩ fits (by rintro stop ⟨⟩)
  unfold toSink
  simp only [planned, bind, Except.bind, agrees.1]
  cases plan.checkCopies basis.size with
  | error error => rfl
  | ok _ =>
    simp only [pure, Except.pure]
    rw [same]

end

end BlockDelta.Rebuild
