import BlockDelta.Proofs.Rebuild.Pointwise
import BlockDelta.Proofs.Storage.Sound
import BlockDelta.Proofs.Transfer.Enlarging

/-!
# What a rebuild among files has written

A rebuild that succeeds has written the target of its deltas, from first to
last, over what it found under the name of the basis when it started. Where
there was no file to read, the deltas had no copies, and an empty basis would
have done as well.
-/

namespace BlockDelta

/-- The bytes found under a path: those of a file, and none where there is no file. -/
def FileTree.bytesAt (tree : FileTree) (path : String) : ByteArray :=
  match tree.lookUp path with
  | .ok (.file number) => tree.content number
  | _ => .empty

namespace Rebuild

/-- Over a basis the deltas come to a target: there is a plan for them, and its copies are in
range. -/
def Yields (deltas : List Delta) (basis target : ByteArray) : Prop :=
  ∃ plan, Plan.ofDeltas deltas = .ok plan ∧ plan.checkCopies basis.size = .ok () ∧
    target = plan.target basis

variable {buffer : Buffer} {basis : Basis} {deltas : List Delta} {report : Report}

/-- A script that was read is applied to a basis as its deltas come to a target over it. -/
theorem Yields.applyTo_eq {bytes rest : Bytes} {decoded : DecodedDelta} {content target : ByteArray}
    (read : Delta.decode bytes = .ok (decoded, rest))
    (yields : Yields decoded.script.deltas content target) :
    decoded.script.applyTo content = some target := by
  obtain ⟨deltas, script, -, tiled, -, addressed⟩ := Delta.exists_deltas_of_decode read
  obtain ⟨plan, planned, checked, rfl⟩ := yields
  rw [script, Script.deltas_ofDeltas] at planned
  have ordered := Plan.ofDeltas_of_checkTiling tiled addressed
  rw [planned] at ordered
  cases ordered
  have fits : ∀ delta ∈ (Script.ofDeltas deltas).deltas, delta.Fits content.size := by
    rw [Script.deltas_ofDeltas]
    exact fun delta among => Plan.checkCopiesOf_eq_ok_iff.1 checked delta
      ((Delta.perm_inTargetOrder deltas).mem_iff.2 among)
  rw [script, Script.applyTo_eq_target _ fits, Script.deltas_ofDeltas]

/-- Without copies a plan is in range over every basis. -/
theorem Plan.checkCopies_of_isLiteral {plan : Plan} (basisLength : Nat)
    (literal : ∀ delta ∈ plan.deltas, delta.isLiteral = true) :
    plan.checkCopies basisLength = .ok () := by
  refine Plan.checkCopiesOf_eq_ok_iff.2 fun delta among => ?_
  cases delta with
  | literal offset data => trivial
  | copy source offset length => cases literal _ among

/-- Literals are written alike from every basis and at every position in it. -/
theorem emitDeltas_of_literals (other : Basis) (position : Nat) {progress after : Progress}
    (literal : ∀ delta ∈ deltas, delta.isLiteral = true)
    (done : emitDeltas buffer basis deltas progress = .ok () after) :
    emitDeltas buffer other deltas { progress with position } = .ok () { after with position } := by
  induction deltas generalizing progress with
  | nil =>
    cases done
    rfl
  | cons delta rest ih =>
    obtain ⟨first, others⟩ := List.forall_mem_cons.1 literal
    obtain ⟨_, between, began, further⟩ := exists_of_run_eq_ok done
    cases delta with
    | copy source offset length => cases first
    | literal offset data =>
      have emitted : emit data { progress with position } = .ok () { between with position } := by
        simp only [emitDelta, emit] at began ⊢
        cases written : Sink.write data progress.sink with
        | ok _ sink =>
          rw [written] at began
          cases began
          rfl
        | error fault sink =>
          rw [written] at began
          cases began
      exact (bind_of_ok emitted).trans (ih others further)

section

variable (unreadable : ∀ offset count, ∃ fault, basis.read offset count = .error fault)
include unreadable

/-- Nothing is copied from a basis that cannot be read. -/
theorem copyNext_of_unreadable (buffer : Buffer) {remaining : Nat} (something : 0 < remaining)
    (progress : Progress) :
    ∃ fault, copyNext buffer basis remaining progress = .error fault progress := by
  obtain ⟨fault, failed⟩ := unreadable progress.position (min remaining buffer.size)
  have stopped : readNext basis (min remaining buffer.size) progress = .error fault progress := by
    simp only [readNext, failed]
  refine ⟨fault, ?_⟩
  unfold copyNext
  rw [if_neg (Nat.ne_of_gt something), bind_of_error stopped]

/-- What is written from a basis that cannot be read are literals. -/
theorem isLiteral_of_emitDeltas {progress after : Progress}
    (filled : ∀ delta ∈ deltas, 0 < delta.length)
    (done : emitDeltas buffer basis deltas progress = .ok () after) :
    ∀ delta ∈ deltas, delta.isLiteral = true := by
  induction deltas generalizing progress with
  | nil => exact List.forall_mem_nil _
  | cons delta rest ih =>
    obtain ⟨something, others⟩ := List.forall_mem_cons.1 filled
    obtain ⟨_, between, first, further⟩ := exists_of_run_eq_ok done
    refine List.forall_mem_cons.2 ⟨?_, ih others further⟩
    cases delta with
    | literal offset data => rfl
    | copy source offset length =>
      obtain ⟨_, sought, _, copied⟩ := exists_of_run_eq_ok first
      obtain ⟨_, _, read, _⟩ := exists_of_run_eq_ok copied
      obtain ⟨fault, failed⟩ := copyNext_of_unreadable unreadable buffer something sought
      cases failed.symm.trans read

/-- A rebuild from a basis that cannot be read succeeds as one from an empty basis. -/
theorem toSink_of_unreadable {sink torn : Sink}
    (done : toSink buffer basis deltas sink = .ok report torn) :
    toSink buffer (.ofContent .empty) deltas sink = .ok report torn := by
  obtain ⟨plan, after, planned, -, ran, reported, rfl⟩ := toSink_eq_ok_iff.1 done
  have literal := isLiteral_of_emitDeltas unreadable (Plan.length_pos planned) ran
  exact toSink_eq_ok_iff.2 ⟨plan, _, planned, Plan.checkCopies_of_isLiteral _ literal,
    emitDeltas_of_literals (.ofContent .empty) 0 literal ran, reported, rfl⟩

end

/-- A rebuild into a sink of any size that succeeds has put the target behind what was there. -/
theorem accepted_of_toSink {content : ByteArray} {sink torn : Sink}
    (done : toSink buffer (.ofContent content) deltas sink = .ok report torn) :
    ∃ target, Yields deltas content target ∧ torn.accepted = sink.accepted ++ target := by
  -- with more room the same is written, and then there is nothing to see to but the plan
  have more := (toSink_enlarges buffer (.ofContent content) deltas).onward sink report torn done
  obtain ⟨plan, planned, checked, -, whole⟩ := exists_plan_of_fromContent more
  exact ⟨plan.target content, ⟨plan, planned, checked, rfl⟩, congrArg Sink.accepted whole⟩

variable {tree after : FileTree} {path : String}

/-- A rebuild from what a path leads to has the bytes that are found there. -/
theorem accepted_of_ofNode {node : Node} {sink torn : Sink} (found : tree.lookUp path = .ok node)
    (done : toSink buffer (.ofNode tree node) deltas sink = .ok report torn) :
    ∃ target, Yields deltas (tree.bytesAt path) target ∧
      torn.accepted = sink.accepted ++ target := by
  unfold FileTree.bytesAt
  rw [found]
  cases node with
  | file number => exact accepted_of_toSink done
  | directory place =>
    have unreadable (offset count : Nat) :
        ∃ fault, (Basis.ofNode tree (.directory place)).read offset count = .error fault :=
      ⟨.isDirectory, rfl⟩
    exact accepted_of_toSink (toSink_of_unreadable unreadable done)

/-- A rebuild between two files that succeeds leaves the target in its destination. -/
theorem holds_of_toFile {basis destination : String} (sound : tree.Sound)
    (done : toFile buffer basis destination deltas tree = .ok report after) :
    ∃ target, Yields deltas (tree.bytesAt basis) target ∧ after.Holds destination target := by
  rcases toFile_untouched_or_opened buffer deltas basis destination tree with
    ⟨error, failed⟩ | ⟨plan, node, number, created, opened⟩
  · cases failed.symm.trans done
  -- creating the destination has left the basis as it was
  have kept : Basis.ofNode created node = Basis.ofNode tree node := by
    cases node with
    | directory place => rfl
    | file other =>
      have content := FileTree.content_create opened.made
        (FileTree.lookUp_ne_of_distinct opened.distinct opened.found)
      simp only [Basis.ofNode, content]
  obtain ⟨found, known⟩ := sound.lookUp_created opened.made
  rw [opened.toFile_eq, kept] at done
  cases ran : toSink buffer (.ofNode tree node) deltas .unlimited with
  | error error sink =>
    rw [ran] at done
    cases done
  | ok _ sink =>
    rw [ran] at done
    cases done
    obtain ⟨target, yields, accepted⟩ := accepted_of_ofNode opened.found ran
    rw [Sink.unlimited, ByteArray.empty_append] at accepted
    exact ⟨target, yields, accepted ▸ FileTree.holds_store found known sink.accepted⟩

/-- A plan for which no basis is needed has nothing but literals. -/
theorem Plan.isLiteral_of_checkNoCopy {plan : Plan} (free : plan.checkNoCopy = .ok ()) :
    ∀ delta ∈ plan.deltas, delta.isLiteral = true := by
  intro delta among
  unfold checkNoCopy at free
  cases none : plan.firstCopy? with
  | some copy =>
    rw [none] at free
    cases free
  | none => simpa using List.find?_eq_none.1 none delta among

/-- A plan that is carried out on a file is in range over what the file holds. -/
theorem checkCopies_of_planInPlace {plan : Plan} {content left : ByteArray}
    (done : planInPlace buffer plan content = .ok report left) :
    plan.checkCopies content.size = .ok () := by
  unfold planInPlace at done
  cases checked : plan.checkCopies content.size with
  | error error =>
    rw [checked] at done
    cases done
  | ok _ => rfl

/-- A plan that is carried out under a path is in range over what was found there, and leaves its
target. -/
theorem holds_of_planFileInPlace {plan : Plan} (planned : Plan.ofDeltas deltas = .ok plan)
    (sound : tree.Sound) (done : planFileInPlace buffer path plan tree = .ok report after) :
    plan.checkCopies (tree.bytesAt path).size = .ok () ∧
      after.Holds path (plan.target (tree.bytesAt path)) := by
  have outcome := done
  unfold FileTree.bytesAt
  -- only a file, or a place where nothing is, becomes a target
  cases found : tree.lookUp path with
  | error fault =>
    by_cases missing : fault = .notFound
    · subst missing
      rw [planFileInPlace_of_notFound found] at outcome
      split at outcome
      · cases outcome
      rename_i free
      split at outcome
      · cases outcome
      rename_i made
      have checked := Plan.checkCopies_of_isLiteral 0 (Plan.isLiteral_of_checkNoCopy free)
      obtain ⟨_, ran, holds⟩ := planFileInPlace_of_missing buffer planned checked found made
      cases ran.symm.trans done
      exact ⟨checked, holds⟩
    · rw [planFileInPlace_of_fault found missing] at outcome
      cases outcome
  | ok node =>
    cases node with
    | directory place =>
      rw [planFileInPlace_of_directory found] at outcome
      split at outcome <;> cases outcome
    | file number =>
      rw [planFileInPlace_of_file found] at outcome
      split at outcome
      · rename_i ended
        have checked := checkCopies_of_planInPlace ended
        obtain ⟨_, ran, holds⟩ :=
          planFileInPlace_of_holds buffer planned checked (sound.holds found).1
        cases ran.symm.trans done
        exact ⟨checked, holds⟩
      · cases outcome

/-- A rebuild in place that succeeds leaves the target under its path. -/
theorem holds_of_fileInPlace (sound : tree.Sound)
    (done : fileInPlace buffer path deltas tree = .ok report after) :
    ∃ target, Yields deltas (tree.bytesAt path) target ∧ after.Holds path target := by
  cases planned : Plan.ofDeltas deltas with
  | error error =>
    rw [fileInPlace_of_unplanned buffer path planned] at done
    cases done
  | ok plan =>
    rw [fileInPlace_of_plan buffer planned] at done
    obtain ⟨checked, holds⟩ := holds_of_planFileInPlace planned sound done
    exact ⟨_, ⟨plan, planned, checked, rfl⟩, holds⟩

end Rebuild

end BlockDelta
