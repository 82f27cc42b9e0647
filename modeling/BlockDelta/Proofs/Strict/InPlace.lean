import BlockDelta.Proofs.Rebuild.Refused
import BlockDelta.Proofs.Strict.Fresh
import BlockDelta.Proofs.Strict.Order

/-!
# Rebuilding in place does not go wrong

The spans of a plan read inside the file and write inside the target, and both
are as long as a word can say. So the places of the pieces that a copy moves are
words, from whichever side it moves them, and the schedule names only copies
that there are.
-/

namespace BlockDelta

namespace Rebuild.Plan

variable {deltas : List Delta} {plan : Plan}

/-- The spans of a plan whose copies are in range end at words. -/
theorem addressed_spans (planned : Plan.ofDeltas deltas = .ok plan) {basisLength : Nat}
    (checked : plan.checkCopies basisLength = .ok ()) (size : basisLength < UInt64.size) :
    ∀ span ∈ plan.spans, span.Addressed := by
  intro span among
  obtain ⟨delta, member, copied⟩ := List.mem_filterMap.1 among
  cases delta with
  | literal offset data => cases copied
  | copy source offset length =>
    cases copied
    have read := checkCopiesOf_eq_ok_iff.1 checked _ member
    have written := ((Plan.ofDeltas_eq_ok planned).2.within _ member).2
    exact ⟨Nat.lt_of_le_of_lt read size, Nat.lt_of_le_of_lt written (targetLength_lt planned)⟩

/-- There are no more deltas than bytes, when none is empty. -/
theorem length_le_totalLength {deltas : List Delta}
    (something : ∀ delta ∈ deltas, 0 < delta.length) :
    deltas.length ≤ Delta.totalLength deltas := by
  induction deltas with
  | nil => exact Nat.zero_le _
  | cons delta rest ih =>
    obtain ⟨first, others⟩ := List.forall_mem_cons.1 something
    have further := ih others
    rw [List.length_cons, Delta.totalLength]
    omega

/-- The spans of a plan are no more than a word can say. -/
theorem length_spans_lt (planned : Plan.ofDeltas deltas = .ok plan) :
    plan.spans.length < UInt64.size := by
  have copies : plan.spans.length ≤ plan.deltas.length := List.length_filterMap_le ..
  have bytes := length_le_totalLength (Plan.length_pos planned)
  have fits := totalLength_lt planned
  omega

end Rebuild.Plan

namespace Strict

open Rebuild

/-- The rest of a copy, behind the bytes already moved. Where its last bytes are moved first, those
moved and the next ones are taken off its length. -/
def moveRest (buffer : Buffer) (span : CopySpan) (done : Nat) :
    EStateM (Halt Fault) ByteArray Unit :=
  if done < span.length then do
    guarded (noUnderflow span.length done)
    let count := min buffer.size (span.length - done)
    let place := if span.target < span.source then done else span.length - done - count
    guarded (if span.target < span.source then .ok () else noUnderflow (span.length - done) count)
    guarded (noOverflow span.source place)
    let piece ← plainly (readSpan (span.source + place) count)
    guarded (noOverflow span.target place)
    plainly (writeSpan (span.target + place) piece)
    guarded (noOverflow done count)
    moveRest buffer span (done + count)
  else pure ()
termination_by span.length - done
decreasing_by have := buffer.positive; omega

/-- A copy within the file; one onto itself moves nothing. -/
def moveWithin (buffer : Buffer) (span : CopySpan) : EStateM (Halt Fault) ByteArray Unit :=
  if span.source = span.target ∨ span.length = 0 then pure () else moveRest buffer span 0

/-- Copies run one after the other, each looked up by its number. -/
def moveEach (buffer : Buffer) (spans : Array CopySpan) :
    List Nat → EStateM (Halt Fault) ByteArray Unit
  | [] => pure ()
  | number :: rest => do
    let span ← guarded (entry spans number default)
    moveWithin buffer span
    moveEach buffer spans rest

/-- The sources of copies are read, each copy looked up by its number. -/
def keepEach (spans : Array CopySpan) :
    List Nat → EStateM (Halt Fault) ByteArray (List (Nat × ByteArray))
  | [] => pure []
  | number :: rest => do
    let span ← guarded (entry spans number default)
    let piece ← plainly (readSpan span.source span.length)
    let others ← keepEach spans rest
    return (span.target, piece) :: others

/-- A file becomes the target, in the order of a schedule. -/
def carryOut (buffer : Buffer) (plan : Plan) (schedule : Schedule) :
    EStateM (Halt Fault) ByteArray Unit := do
  let kept ← keepEach plan.spans.toArray schedule.fallback
  moveEach buffer plan.spans.toArray schedule.order
  plainly (writeEach plan.literals)
  plainly (writeEach kept)
  plainly (modify fun content => Content.resize content plan.targetLength)

/-- A file that is the basis becomes the target of a plan; the report is made at the end. -/
def planInPlace (buffer : Buffer) (plan : Plan) : EStateM (Halt Error) ByteArray Report :=
  fun content =>
    match plan.checkCopies content.size with
    | .error error => .error (.failed error) content
    | .ok () =>
      match ofSpans plan.spans with
      | .error trap => .error (.trap trap) content
      | .ok schedule =>
        match carryOut buffer plan schedule content with
        | .ok () rebuilt =>
          match report plan with
          | .error trap => .error (.trap trap) rebuilt
          | .ok report => .ok { report with fallback := schedule.fallback.length } rebuilt
        | .error halt torn => .error (halt.map .io) torn

/-- A file becomes the target of a plan; one that is missing is created, and reported before it is
written. That a directory cannot be written is found out behind the schedule. -/
def planFileInPlace (buffer : Buffer) (path : String) (plan : Plan) :
    EStateM (Halt Error) FileTree Report := do
  match (← get).lookUp path with
  | .error .notFound => do
    plainly (settled plan.checkNoCopy)
    let (number, created) ← plainly (access ((← get).create path))
    let report ← guarded (report plan)
    set (created.store number plan.literalContent)
    return report
  | .error fault => throw (.failed (.io fault))
  | .ok (.directory place) => do
    plainly (settled (plan.checkCopies ((← get).size (.directory place))))
    let _ ← guarded (ofSpans plan.spans)
    throw (.failed (.io .isDirectory))
  | .ok (.file number) => do
    let tree ← get
    match planInPlace buffer plan (tree.content number) with
    | .ok report content => do
      set (tree.store number content)
      return report
    | .error halt content => do
      set (tree.store number content)
      throw halt

/-- A file becomes the target that deltas describe. -/
def fileInPlace (buffer : Buffer) (path : String) (deltas : List Delta) :
    EStateM (Halt Error) FileTree Report := do
  let plan ← plainly (settled (Plan.ofDeltas deltas))
  planFileInPlace buffer path plan

variable {plan : Plan} {deltas : List Delta}

/-- The places of the pieces of a copy are words. -/
theorem moveRest_eq (buffer : Buffer) {span : CopySpan} (addressed : span.Addressed) (done : Nat) :
    moveRest buffer span done = plainly (Rebuild.moveRest buffer span done) := by
  have read := addressed.readStop
  have written := addressed.writeStop
  unfold CopySpan.readStop at read
  unfold CopySpan.writeStop at written
  induction left : span.length - done using Nat.strongRecOn generalizing done with
  | ind left ih =>
    unfold moveRest Rebuild.moveRest
    by_cases more : done < span.length
    · have positive := buffer.positive
      have taken : min buffer.size (span.length - done) ≤ span.length - done := Nat.min_le_right ..
      have first : 0 < min buffer.size (span.length - done) := by omega
      simp only [if_pos more]
      generalize min buffer.size (span.length - done) = count at taken first ⊢
      have inside : (if span.target < span.source then done else span.length - done - count) ≤
          span.length := by
        split <;> omega
      generalize (if span.target < span.source then done else span.length - done - count) = place
        at inside ⊢
      have subtracted : (if span.target < span.source then .ok () else
          noUnderflow (span.length - done) count) = (.ok () : Except Trap Unit) := by
        rw [noUnderflow_eq_ok taken, ite_self]
      rw [noUnderflow_eq_ok (Nat.le_of_lt more), guarded_ok_bind, subtracted, guarded_ok_bind,
        noOverflow_eq_ok (by omega), guarded_ok_bind]
      refine plainly_bind_congr fun piece => ?_
      rw [noOverflow_eq_ok (by omega), guarded_ok_bind]
      refine plainly_bind_congr fun _ => ?_
      rw [noOverflow_eq_ok (by omega), guarded_ok_bind]
      exact ih _ (by omega) _ rfl
    · rw [if_neg more, if_neg more]
      rfl

/-- A copy whose ends are words is moved without trouble. -/
theorem moveWithin_eq (buffer : Buffer) {span : CopySpan} (addressed : span.Addressed) :
    moveWithin buffer span = plainly (Rebuild.moveWithin buffer span) := by
  unfold moveWithin Rebuild.moveWithin
  split
  · rfl
  · exact moveRest_eq buffer addressed 0

/-- Copies that there are, and whose ends are words, are moved without trouble. -/
theorem moveEach_eq (buffer : Buffer) {spans : Array CopySpan}
    (addressed : ∀ span ∈ spans, span.Addressed) {numbers : List Nat}
    (known : ∀ number ∈ numbers, number < spans.size) :
    moveEach buffer spans numbers =
      plainly (Rebuild.moveEach buffer (numbers.map fun number => spans.getD number default)) := by
  induction numbers with
  | nil => rfl
  | cons number rest ih =>
    obtain ⟨first, others⟩ := List.forall_mem_cons.1 known
    rw [moveEach, entry_eq_ok first, guarded_ok_bind,
      moveWithin_eq buffer (Schedule.addressed_getD addressed number), ih others, List.map_cons,
      Rebuild.moveEach, plainly_bind]

/-- The sources of copies that there are are read without trouble. -/
theorem keepEach_eq {spans : Array CopySpan} {numbers : List Nat}
    (known : ∀ number ∈ numbers, number < spans.size) :
    keepEach spans numbers =
      plainly (Rebuild.keepEach (numbers.map fun number => spans.getD number default)) := by
  induction numbers with
  | nil => rfl
  | cons number rest ih =>
    obtain ⟨first, others⟩ := List.forall_mem_cons.1 known
    rw [keepEach, entry_eq_ok first, guarded_ok_bind, ih others]
    exact plainly_bind_congr fun piece => plainly_bind_congr fun others => rfl

/-- The schedule of a plan is carried out without trouble. -/
theorem carryOut_eq (buffer : Buffer) (addressed : ∀ span ∈ plan.spans, span.Addressed) :
    carryOut buffer plan (Schedule.ofSpans plan.spans) =
      plainly (Rebuild.carryOut buffer plan (Schedule.ofSpans plan.spans)) := by
  have known : ∀ number ∈ (Schedule.ofSpans plan.spans).order ++
      (Schedule.ofSpans plan.spans).fallback, number < plan.spans.toArray.size :=
    fun number among =>
      List.mem_range.1 ((Schedule.perm_ofSpans plan.spans).mem_iff.1 among)
  obtain ⟨run, kept⟩ := List.forall_mem_append.1 known
  unfold carryOut
  rw [keepEach_eq kept, moveEach_eq buffer (by simpa using addressed) run]
  refine plainly_bind_congr fun pieces => plainly_bind_congr fun _ => ?_
  exact plainly_bind_congr fun _ => plainly_bind_congr fun _ => rfl

/-- A plan is carried out in a file whose size is a word without trouble. -/
theorem planInPlace_eq (buffer : Buffer) (planned : Plan.ofDeltas deltas = .ok plan)
    {content : ByteArray} (size : content.size < UInt64.size) :
    planInPlace buffer plan content = plainly (Rebuild.planInPlace buffer plan) content := by
  rw [plainly_apply]
  unfold planInPlace Rebuild.planInPlace
  cases checked : plan.checkCopies content.size with
  | error error => rfl
  | ok _ =>
    have addressed := Plan.addressed_spans planned checked size
    simp only [ofSpans_eq_ok (Plan.length_spans_lt planned) addressed, carryOut_eq buffer addressed,
      report_eq_ok planned, plainly_apply]
    cases Rebuild.carryOut buffer plan (Schedule.ofSpans plan.spans) content <;> rfl

/-- A plan is carried out in a file tree without trouble when the size of the file is a word. -/
theorem planFileInPlace_eq (buffer : Buffer) (planned : Plan.ofDeltas deltas = .ok plan)
    {path : String} {tree : FileTree} (size : ∀ number, tree.lookUp path = .ok (.file number) →
      (tree.content number).size < UInt64.size) :
    planFileInPlace buffer path plan tree =
      plainly (Rebuild.planFileInPlace buffer path plan) tree := by
  have begun : (get : EStateM (Halt Error) FileTree FileTree) tree = .ok tree tree := rfl
  unfold planFileInPlace
  rw [bind_of_ok begun, plainly_apply (Rebuild.planFileInPlace buffer path plan)]
  cases found : tree.lookUp path with
  | error fault =>
    by_cases missing : fault = .notFound
    · subst missing
      rw [planFileInPlace_of_notFound found]
      simp only []
      cases plan.checkNoCopy with
      | error error => rfl
      | ok _ =>
        have passed : (plainly (settled (.ok ()) : Filing Unit)) tree = .ok () tree := rfl
        rw [bind_of_ok passed, bind_of_ok begun, report_eq_ok planned]
        cases tree.create path <;> rfl
    · rw [planFileInPlace_of_fault found missing]
      cases fault <;> first
        | exact absurd rfl missing
        | rfl
  | ok node =>
    cases node with
    | directory place =>
      have small : tree.size (.directory place) < UInt64.size := (by decide :
        FileTree.directorySize < UInt64.size)
      rw [planFileInPlace_of_directory found]
      simp only []
      rw [bind_of_ok begun]
      cases checked : plan.checkCopies (tree.size (.directory place)) with
      | error error => rfl
      | ok _ =>
        have addressed := Plan.addressed_spans planned checked small
        rw [ofSpans_eq_ok (Plan.length_spans_lt planned) addressed]
        rfl
    | file number =>
      rw [planFileInPlace_of_file found]
      simp only []
      rw [bind_of_ok begun, planInPlace_eq buffer planned (size number found), plainly_apply]
      cases Rebuild.planInPlace buffer plan (tree.content number) <;> rfl

/-- Rebuilding in place takes no step that goes wrong, whatever the deltas are, when the size of the
file is a word. -/
theorem fileInPlace_eq (buffer : Buffer) (deltas : List Delta) {path : String} {tree : FileTree}
    (size : ∀ number, tree.lookUp path = .ok (.file number) →
      (tree.content number).size < UInt64.size) :
    fileInPlace buffer path deltas tree =
      plainly (Rebuild.fileInPlace buffer path deltas) tree := by
  unfold fileInPlace
  cases planned : Plan.ofDeltas deltas with
  | error error =>
    rw [plainly_apply (Rebuild.fileInPlace buffer path deltas),
      fileInPlace_of_unplanned buffer path planned]
    rfl
  | ok plan =>
    have settling : (plainly (settled (.ok plan) : Filing Plan)) tree = .ok plan tree := rfl
    rw [bind_of_ok settling, planFileInPlace_eq buffer planned size, plainly_apply,
      plainly_apply, fileInPlace_of_plan buffer planned]

end Strict

end BlockDelta
