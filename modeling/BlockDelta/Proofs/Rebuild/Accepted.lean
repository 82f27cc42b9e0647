import BlockDelta.Proofs.Delta.Canonical
import BlockDelta.Proofs.Rebuild.InPlace
import BlockDelta.Proofs.Rebuild.Inside

/-!
# Deltas that are accepted can be rebuilt from

The deltas of a stream are checked twice, when the stream is read and when a
target is rebuilt, and the second check drops empty deltas where the first one
refuses them. What the first one accepts the second one plans as it is. So the
only thing left to go wrong with an accepted delta is that it was made for a
longer basis.
-/

namespace BlockDelta

namespace Delta

/-- Some copy among deltas reaches behind the end of a basis. -/
def Outrun (basisLength : Nat) (deltas : List Delta) : Prop :=
  ∃ source offset length, copy source offset length ∈ deltas ∧
    basisLength < source.toNat + length.toNat

/-- Deltas outrun a basis when not all of them fit it. -/
theorem outrun_iff {basisLength : Nat} {deltas : List Delta} :
    Outrun basisLength deltas ↔ ¬∀ delta ∈ deltas, delta.Fits basisLength := by
  constructor
  · rintro ⟨source, offset, length, among, outside⟩ all
    exact Nat.not_le_of_lt outside (all _ among)
  · intro some
    obtain ⟨delta, misfit⟩ := Classical.not_forall.1 some
    obtain ⟨among, outside⟩ := Classical.not_imp.1 misfit
    cases delta with
    | literal offset data => exact absurd trivial outside
    | copy source offset length =>
      exact ⟨source, offset, length, among, Nat.lt_of_not_le outside⟩

instance (basisLength : Nat) (delta : Delta) : Decidable (delta.Fits basisLength) :=
  match delta with
  | .literal _ _ => isTrue trivial
  | .copy source _ length =>
    inferInstanceAs (Decidable (source.toNat + length.toNat ≤ basisLength))

instance (basisLength : Nat) (deltas : List Delta) : Decidable (Outrun basisLength deltas) :=
  decidable_of_iff (¬∀ delta ∈ deltas, delta.Fits basisLength) outrun_iff.symm

end Delta

namespace Rebuild

/-- A target cannot be rebuilt because of where the deltas stand in it. -/
def Error.BlamesTiling : Error → Prop
  | .tiling _ => True
  | .lengthOverflow _ => True
  | _ => False

namespace Plan

variable {plan : Plan}

/-- Copies are refused for being out of range. -/
theorem checkCopiesOf_eq_error {basisLength : Nat} {deltas : List Delta} {error : Error}
    (refused : checkCopiesOf basisLength deltas = .error error) :
    ∃ source length, error = .copyOutOfRange source length basisLength := by
  induction deltas with
  | nil => cases refused
  | cons delta rest ih =>
    cases delta with
    | literal offset data => exact ih refused
    | copy source offset length =>
      unfold checkCopiesOf at refused
      split at refused
      · cases refused
        exact ⟨_, _, rfl⟩
      · exact ih refused

/-- The copies of a plan are in range unless the deltas that it was made of outrun the basis. -/
theorem checkCopies_eq_ok_iff (basisLength : Nat) {deltas : List Delta}
    (same : plan.deltas.Perm deltas) :
    plan.checkCopies basisLength = .ok () ↔ ¬Delta.Outrun basisLength deltas := by
  rw [checkCopies, checkCopiesOf_eq_ok_iff, Delta.outrun_iff, Classical.not_not]
  exact forall_congr' fun delta => imp_congr_left same.mem_iff

/-- A plan that is refused without a basis has a copy. -/
theorem checkNoCopy_eq_error {error : Error} (refused : plan.checkNoCopy = .error error) :
    ∃ offset, error = .copyWithoutBasis offset := by
  unfold checkNoCopy at refused
  split at refused
  · cases refused
    exact ⟨_, rfl⟩
  · cases refused

/-- Deltas that were accepted, in whatever order, are planned as they are. -/
theorem ofDeltas_of_checkTiling {deltas : List Delta} {targetLength : Nat}
    (checked : Delta.checkTiling deltas targetLength = .ok ()) (fits : targetLength < UInt64.size) :
    Plan.ofDeltas deltas = .ok ⟨Delta.inTargetOrder deltas, targetLength⟩ := by
  obtain ⟨tiles, something⟩ := Delta.tiles_of_checkTiling checked
  have kept : deltas.filter (fun delta => !delta.isEmpty) = deltas :=
    List.filter_eq_self.2 fun delta among => by rw [something delta among]; rfl
  have bounded : ∀ delta ∈ Delta.inTargetOrder deltas, delta.stop < UInt64.size :=
    fun delta among => Nat.lt_of_le_of_lt (tiles.within delta among).2 fits
  have covered := Plan.cover_eq_ok_iff.2 ⟨tiles, bounded⟩
  unfold ofDeltas
  rw [kept]
  simp only [covered]
  rfl

end Plan

/-- A plan is not refused in place for where its deltas stand. -/
theorem planInPlace_eq_error {buffer : Buffer} {plan : Plan} {content torn : ByteArray}
    {error : Error} (failed : planInPlace buffer plan content = .error error torn) :
    ¬error.BlamesTiling := by
  unfold planInPlace at failed
  split at failed
  · rename_i refused
    cases failed
    obtain ⟨_, _, rfl⟩ := Plan.checkCopiesOf_eq_error refused
    exact id
  · simp only [] at failed
    split at failed <;> cases failed
    exact id

/-- An action among files never fails for where deltas stand in a target. -/
def Blameless {α : Type} (action : Filing α) : Prop :=
  ∀ tree error torn, action tree = .error error torn → ¬error.BlamesTiling

namespace Blameless

variable {α β : Type}

/-- An action that succeeds is blameless. -/
theorem of_ok {action : Filing α}
    (succeeds : ∀ tree, ∃ value after, action tree = .ok value after) : Blameless action := by
  intro tree error torn failed
  obtain ⟨value, after, done⟩ := succeeds tree
  rw [done] at failed
  cases failed

/-- An action that fails for another cause is blameless. -/
theorem throw {error : Error} (other : ¬error.BlamesTiling) :
    Blameless (throw error : Filing α) := by
  rintro tree _ torn ⟨⟩
  exact other

/-- Blameless actions in order are blameless. -/
theorem bind {first : Filing α} {next : α → Filing β} (start : Blameless first)
    (further : ∀ value, Blameless (next value)) : Blameless (first >>= next) := by
  intro tree error torn failed
  cases done : first tree with
  | ok value between =>
    rw [bind_of_ok done] at failed
    exact further value between error torn failed
  | error cause between =>
    rw [bind_of_error done] at failed
    cases failed
    exact start tree _ _ done

/-- A result is blameless when its error is. -/
theorem settled {result : Except Error α}
    (others : ∀ error, result = .error error → ¬error.BlamesTiling) :
    Blameless (settled result) := by
  intro tree error torn failed
  cases result with
  | error cause =>
    cases failed
    exact others _ rfl
  | ok value => cases failed

/-- A faulty access to the files has nothing to do with deltas. -/
theorem access (result : Except Fault α) : Blameless (access result) := by
  refine settled fun error failed => ?_
  cases result with
  | error fault =>
    cases failed
    exact id
  | ok value => cases failed

end Blameless

/-- A plan is carried out in a file, or fails for another cause than where its deltas stand. -/
theorem blameless_planFileInPlace (buffer : Buffer) (path : String) (plan : Plan) :
    Blameless (planFileInPlace buffer path plan) := by
  have copies (basisLength : Nat) : Blameless (settled (plan.checkCopies basisLength)) := by
    refine .settled fun error refused => ?_
    obtain ⟨_, _, rfl⟩ := Plan.checkCopiesOf_eq_error refused
    exact id
  have seen : Blameless (get : Filing FileTree) := .of_ok fun tree => ⟨tree, tree, rfl⟩
  have stored (tree : FileTree) : Blameless (set tree : Filing PUnit) :=
    .of_ok fun _ => ⟨⟨⟩, tree, rfl⟩
  unfold planFileInPlace
  refine .bind seen fun tree => ?_
  split
  · refine .bind (.settled fun error refused => ?_) fun _ => .bind seen fun tree =>
      .bind (.access _) fun created => .bind (stored _) fun _ => .of_ok fun _ => ⟨_, _, rfl⟩
    obtain ⟨_, rfl⟩ := Plan.checkNoCopy_eq_error refused
    exact id
  · exact .throw id
  · exact .bind seen fun tree => .bind (copies _) fun _ => .throw id
  · refine .bind seen fun tree => ?_
    split
    · exact .bind (stored _) fun _ => .of_ok fun _ => ⟨_, _, rfl⟩
    · rename_i failed
      exact .bind (stored _) fun _ => .throw (planInPlace_eq_error failed)

section

variable {deltas : List Delta} {plan : Plan} {basis : Basis}

/-- A plan whose copies are not in range is refused before anything is written. -/
theorem toSink_of_refused (buffer : Buffer) {error : Error}
    (planned : Plan.ofDeltas deltas = .ok plan)
    (refused : plan.checkCopies basis.size = .error error) (sink : Sink) :
    toSink buffer basis deltas sink = .error error sink := by
  simp only [toSink, planned, bind, Except.bind, refused]

/-- A plan whose copies are in range fails for nothing but what reading and writing fail for. -/
theorem toSink_eq_error {buffer : Buffer} {sink torn : Sink} {error : Error}
    (planned : Plan.ofDeltas deltas = .ok plan) (checked : plan.checkCopies basis.size = .ok ())
    (failed : toSink buffer basis deltas sink = .error error torn) :
    ∃ fault, error = .io fault := by
  simp only [toSink, planned, bind, Except.bind, pure, Except.pure, checked] at failed
  split at failed <;> cases failed
  exact ⟨_, rfl⟩

/-- A plan is not refused by a fresh rebuild for where its deltas stand. -/
theorem toSink_not_blamesTiling {buffer : Buffer} {sink torn : Sink} {error : Error}
    (planned : Plan.ofDeltas deltas = .ok plan)
    (failed : toSink buffer basis deltas sink = .error error torn) : ¬error.BlamesTiling := by
  cases verdict : plan.checkCopies basis.size with
  | error refusal =>
    obtain ⟨_, _, rfl⟩ := Plan.checkCopiesOf_eq_error verdict
    rw [toSink_of_refused buffer planned verdict] at failed
    cases failed
    exact id
  | ok _ =>
    obtain ⟨_, rfl⟩ := toSink_eq_error planned verdict failed
    exact id

/-- From a basis that delivers its content, into a sink with room for it, the target is written. -/
theorem toSink_of_agrees (buffer : Buffer) {content : ByteArray} {sink : Sink}
    (planned : Plan.ofDeltas deltas = .ok plan) (checked : plan.checkCopies basis.size = .ok ())
    (delivers : (Basis.ofContent content).Agrees basis) (room : sink.HasRoom plan.targetLength) :
    toSink buffer basis deltas sink = .ok plan.report (sink.accepting (plan.target content)) ∧
      (plan.target content).size = plan.targetLength := by
  have size : basis.size = content.size := delivers.1
  rw [size] at checked
  have covered : ∀ delta ∈ plan.deltas, delta.Fits content.size :=
    Plan.checkCopiesOf_eq_ok_iff.1 checked
  -- over all that is read, the basis cannot be told from its content
  have alike := toSink_congr delivers buffer planned covered sink
  exact ⟨alike.trans (toSink_eq_ok buffer planned checked room),
    Plan.size_target (Plan.ofDeltas_eq_ok planned).2 covered⟩

end

/-- The deltas of a stream that is accepted are planned as they are, with the length that the stream
announces. So no rebuild from them, afresh or in place, is refused for where they stand in the
target. A fresh rebuild is refused when a copy reaches behind the end of the basis, and has then
written nothing. Otherwise it can only fail where reading or writing does; it makes no difference to
it what the basis answers to reads that reach behind its end; and from a basis that delivers its
content, into a sink with room for the target, it writes as many bytes as the stream announces. -/
theorem rebuilds_of_decode (bytes rest : Bytes) (decoded : DecodedDelta)
    (read : Delta.decode bytes = .ok (decoded, rest)) :
    (∃ plan, Plan.ofDeltas decoded.script.deltas = .ok plan ∧
      plan.targetLength = decoded.targetLength) ∧
    (∀ (buffer : Buffer) (path : String) (tree torn : FileTree) (error : Error),
      fileInPlace buffer path decoded.script.deltas tree = .error error torn →
        ¬error.BlamesTiling) ∧
    ∀ (buffer : Buffer) (basis : Basis),
      (∀ (sink torn : Sink) (error : Error),
        toSink buffer basis decoded.script.deltas sink = .error error torn →
          ¬error.BlamesTiling) ∧
      if Delta.Outrun basis.size decoded.script.deltas then
        ∀ sink, ∃ source length, toSink buffer basis decoded.script.deltas sink =
          .error (.copyOutOfRange source length basis.size) sink
      else
        (∀ (sink torn : Sink) (error : Error),
          toSink buffer basis decoded.script.deltas sink = .error error torn →
            ∃ fault, error = .io fault) ∧
        (∀ other, basis.Agrees other → ∀ sink,
          toSink buffer other decoded.script.deltas sink =
            toSink buffer basis decoded.script.deltas sink) ∧
        ∀ content, (Basis.ofContent content).Agrees basis →
          ∀ sink : Sink, sink.HasRoom decoded.targetLength →
            ∃ report written, toSink buffer basis decoded.script.deltas sink =
                .ok report (sink.accepting written) ∧
              written.size = decoded.targetLength ∧
              report.targetLength = decoded.targetLength := by
  obtain ⟨deltas, script, -, checked, -, fits⟩ := Delta.exists_deltas_of_decode read
  let plan : Plan := ⟨Delta.inTargetOrder deltas, decoded.targetLength⟩
  have planned : Plan.ofDeltas deltas = .ok plan := Plan.ofDeltas_of_checkTiling checked fits
  have same : plan.deltas.Perm deltas := List.mergeSort_perm ..
  rw [script, Script.deltas_ofDeltas]
  refine ⟨⟨plan, planned, rfl⟩, fun buffer path tree torn error failed => ?_,
    fun buffer basis => ?_⟩
  · rw [fileInPlace_of_plan buffer planned] at failed
    exact blameless_planFileInPlace buffer path plan tree error torn failed
  refine ⟨fun sink torn error => toSink_not_blamesTiling planned, ?_⟩
  have ranged := Plan.checkCopies_eq_ok_iff basis.size same
  cases verdict : plan.checkCopies basis.size with
  | error error =>
    -- a copy is out of range, and that is all that can be wrong with an accepted delta
    have outrun : Delta.Outrun basis.size deltas := by
      by_contra within
      rw [ranged.2 within] at verdict
      cases verdict
    obtain ⟨source, length, rfl⟩ := Plan.checkCopiesOf_eq_error verdict
    rw [if_pos outrun]
    exact fun sink => ⟨source, length, toSink_of_refused buffer planned verdict sink⟩
  | ok _ =>
    have covered := Plan.checkCopiesOf_eq_ok_iff.1 verdict
    rw [if_neg (ranged.1 verdict)]
    refine ⟨fun sink torn error => toSink_eq_error planned verdict,
      fun other agrees => toSink_congr agrees buffer planned covered,
      fun content delivers sink room => ?_⟩
    obtain ⟨rebuilt, size⟩ := toSink_of_agrees buffer planned verdict delivers room
    exact ⟨plan.report, plan.target content, rebuilt, size, rfl⟩

/-- A copy that goes behind its literal, from a basis that it fits into a sink that the target just
fills, and from a basis that it outruns. -/
theorem rebuilds_of_decode_filled :
    ∃ decoded, Delta.decode (Delta.stream [.copy 1 3 2, .literal 0 [7, 8, 9]] 5 ++ [255]) =
        .ok (decoded, [255]) ∧
      (∃ report written, toSink ⟨1, by decide⟩ (.ofContent ⟨#[1, 2, 3, 4]⟩) decoded.script.deltas
          (.ofLimit (some 5)) = .ok report ((Sink.ofLimit (some 5)).accepting written) ∧
        written.size = 5 ∧ report.targetLength = 5) ∧
      ∀ sink, ∃ source length, toSink ⟨1, by decide⟩ (.ofContent ⟨#[1, 2]⟩) decoded.script.deltas
        sink = .error (.copyOutOfRange source length 2) sink := by
  have encodable : ∀ delta ∈ [Delta.copy 1 3 2, .literal 0 [7, 8, 9]], delta.Encodable := by
    simp [Delta.Encodable, Delta.length, Delta.isLiteral, UInt32.size]
  have tiled : Delta.checkTiling [.copy 1 3 2, .literal 0 [7, 8, 9]] 5 = .ok () := by cbv
  have read := Delta.decode_stream [255] encodable (show 5 < UInt64.size by decide)
  rw [tiled] at read
  obtain ⟨-, -, rebuilt⟩ := rebuilds_of_decode _ _ _ read
  obtain ⟨-, fitting⟩ := rebuilt ⟨1, by decide⟩ (.ofContent ⟨#[1, 2, 3, 4]⟩)
  obtain ⟨-, outrun⟩ := rebuilt ⟨1, by decide⟩ (.ofContent ⟨#[1, 2]⟩)
  rw [if_neg (by decide)] at fitting
  rw [if_pos (by decide)] at outrun
  obtain ⟨-, -, filled⟩ := fitting
  refine ⟨_, read, filled _ ⟨rfl, fun _ _ _ => rfl⟩ _ ?_, outrun⟩
  rintro room ⟨⟩
  exact Nat.le_refl _

end Rebuild

end BlockDelta
