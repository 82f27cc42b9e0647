import BlockDelta.Proofs.Rebuild.Placing
import BlockDelta.Proofs.Storage.FileTree
import BlockDelta.Rebuild.Files
import BlockDelta.Transfer

/-!
# Rebuilding in place is rebuilding afresh

The pieces that a plan puts into a file share no byte. Those of the copies that
run are the original ones because no copy destroys what a later one reads;
those of the copies set aside were read before anything was written. So all
pieces end up in the file with the bytes they have in a fresh rebuild, in
whatever order they got there.
-/

namespace BlockDelta.Rebuild

open Content

namespace Plan

variable {plan : Plan} {basis : ByteArray}

/-- What a delta puts where. -/
def deltaPiece (basis : ByteArray) (delta : Delta) : Nat × ByteArray :=
  (delta.start, delta.piece basis)

/-- The pieces of the copies and of the literals are those of all deltas. -/
theorem perm_pieces (basis : ByteArray) (deltas : List Delta) :
    ((deltas.filterMap copySpan?).map (spanPiece basis) ++ deltas.filterMap literalPiece?).Perm
      (deltas.map (deltaPiece basis)) := by
  induction deltas with
  | nil => exact .refl _
  | cons delta rest ih =>
    cases delta with
    | literal offset data => exact List.perm_middle.trans (ih.cons _)
    | copy source offset length => exact ih.cons _

/-- The pieces of deltas that tile a target share no byte. -/
theorem pairwise_apart (tiles : Delta.Tiles 0 plan.deltas plan.targetLength)
    (fits : ∀ delta ∈ plan.deltas, delta.Fits basis.size) :
    (plan.deltas.map (deltaPiece basis)).Pairwise Apart := by
  rw [List.pairwise_map]
  refine (tiles.pairwise.imp_of_mem fun {earlier later} among _ before => .inl ?_)
  rw [deltaPiece, Delta.size_piece (fits earlier among)]
  exact before

/-- A file that holds the pieces of all deltas becomes the target when it gets its length. -/
theorem resize_eq_target {before after : ByteArray}
    (tiles : Delta.Tiles 0 plan.deltas plan.targetLength)
    (fits : ∀ delta ∈ plan.deltas, delta.Fits basis.size)
    (placed : Placed before (plan.deltas.map (deltaPiece basis)) after) :
    resize after plan.targetLength = plan.target basis := by
  refine ext_byteAt ?_ fun offset within => ?_
  · rw [size_resize, size_target tiles fits]
  · rw [size_resize] at within
    obtain ⟨delta, among, start, stop⟩ := tiles.exists_mem (Nat.zero_le offset) within
    unfold Delta.stop at stop
    have place : offset - delta.start < delta.length := by omega
    have expected := byteAt_target tiles fits delta among _ place
    have present := placed.inside _ (List.mem_map_of_mem (f := deltaPiece basis) among)
      (offset - delta.start) (by rw [deltaPiece, Delta.size_piece (fits delta among)]; exact place)
    rw [deltaPiece] at present
    simp only [Nat.add_sub_cancel' start] at expected present
    rw [byteAt_resize within, present, expected]

/-- Copies that read inside the basis are spans inside it, and none of them is empty. -/
theorem spans_inside (fits : ∀ delta ∈ plan.deltas, delta.Fits basis.size)
    (something : ∀ delta ∈ plan.deltas, 0 < delta.length) :
    ∀ span ∈ plan.spans, span.source + span.length ≤ basis.size ∧ 0 < span.length := by
  intro span among
  obtain ⟨delta, member, copied⟩ := List.mem_filterMap.1 among
  cases delta with
  | literal offset data => cases copied
  | copy source offset length =>
    cases copied
    exact ⟨fits _ member, something _ member⟩

/-- The copies with all numbers are all copies. -/
theorem spansAt_range (plan : Plan) : plan.spansAt (List.range plan.spans.length) = plan.spans := by
  refine List.ext_getElem (by simp [spansAt]) fun place _ inside => ?_
  simp [spansAt, inside]

/-- The copies that run and those that are kept are all copies. -/
theorem perm_spansAt (plan : Plan) :
    (plan.spansAt (Schedule.ofSpans plan.spans).order ++
      plan.spansAt (Schedule.ofSpans plan.spans).fallback).Perm plan.spans := by
  have numbers := (Schedule.perm_ofSpans plan.spans).map fun number =>
    plan.spans.toArray.getD number default
  rw [List.map_append] at numbers
  refine numbers.trans ?_
  rw [show (List.range plan.spans.length).map _ = plan.spans from spansAt_range plan]

/-- Of the copies that run, none destroys what a later one reads. -/
theorem pairwise_spansAt_order (something : ∀ span ∈ plan.spans, 0 < span.length) :
    (plan.spansAt (Schedule.ofSpans plan.spans).order).Pairwise
      fun earlier later => earlier.overwrites later = false := by
  have perm := Schedule.perm_ofSpans plan.spans
  have known : ∀ number ∈ (Schedule.ofSpans plan.spans).order, number < plan.spans.length :=
    fun number among => List.mem_range.1 (perm.mem_iff.1 (List.mem_append_left _ among))
  have once : (Schedule.ofSpans plan.spans).order.Nodup :=
    (List.nodup_append.1 (perm.nodup_iff.2 List.nodup_range)).1
  have positive : ∀ number < plan.spans.length,
      0 < (plan.spans.toArray.getD number default).length := by
    intro number inside
    refine something _ ?_
    simp [inside]
  unfold spansAt
  rw [List.pairwise_map]
  refine ((Schedule.pairwise_order plan.spans).and once).imp_of_mem ?_
  rintro earlier later first second ⟨safe, distinct⟩
  rw [← Bool.not_eq_true]
  exact fun destroyed => safe ⟨by simpa using known _ first, by simpa using known _ second,
    distinct, positive _ (known _ first), positive _ (known _ second), destroyed⟩

end Plan

/-- A file that is the basis becomes the target: the schedule keeps and runs every copy once, and
no copy is disturbed by what is written before it is read. -/
theorem carryOut_eq_ok (buffer : Buffer) {plan : Plan} {basis : ByteArray}
    (tiles : Delta.Tiles 0 plan.deltas plan.targetLength)
    (fits : ∀ delta ∈ plan.deltas, delta.Fits basis.size)
    (something : ∀ delta ∈ plan.deltas, 0 < delta.length) :
    carryOut buffer plan (Schedule.ofSpans plan.spans) basis = .ok () (plan.target basis) := by
  let schedule := Schedule.ofSpans plan.spans
  let run := (plan.spansAt schedule.order).map (spanPiece basis)
  let kept := (plan.spansAt schedule.fallback).map (spanPiece basis)
  have inside := Plan.spans_inside fits something
  have spans : ∀ span ∈ plan.spansAt schedule.order ++ plan.spansAt schedule.fallback,
      span.source + span.length ≤ basis.size :=
    fun span among => (inside span ((plan.perm_spansAt).mem_iff.1 among)).1
  have all : (run ++ (plan.literals ++ kept)).Perm (plan.deltas.map (Plan.deltaPiece basis)) := by
    have copies := (plan.perm_spansAt).map (spanPiece basis)
    rw [List.map_append] at copies
    refine List.Perm.trans ?_ (Plan.perm_pieces basis plan.deltas)
    refine List.Perm.trans ?_ (copies.append_right _)
    rw [List.append_assoc]
    exact List.perm_append_comm.append_left _
  have apart : (run ++ (plan.literals ++ kept)).Pairwise Apart :=
    (all.pairwise_iff fun {_ _} => Apart.symm).2 (Plan.pairwise_apart tiles fits)
  obtain ⟨apartRun, apartRest, acrossRun⟩ := List.pairwise_append.1 apart
  have safe := Plan.pairwise_spansAt_order fun span among => (inside span among).2
  obtain ⟨moved, ran, placedRun⟩ := moveEach_placed buffer
    (fun span among => spans span (List.mem_append_left _ among)) safe apartRun
  have placed := (placedRun.append (placed_foldl apartRest moved) acrossRun).perm all
  have keeping := keepEach_eq fun span among => spans span (List.mem_append_right _ among)
  unfold carryOut
  rw [bind_of_ok keeping, bind_of_ok ran, bind_of_ok (writeEach_eq ..),
    bind_of_ok (writeEach_eq ..), ← List.foldl_append]
  change EStateM.Result.ok () (resize _ plan.targetLength) = _
  rw [Plan.resize_eq_target tiles fits placed]

/-- A file that is the basis becomes the target of a plan whose copies are in range. -/
theorem planInPlace_eq_ok (buffer : Buffer) {deltas : List Delta} {plan : Plan} {basis : ByteArray}
    (planned : Plan.ofDeltas deltas = .ok plan) (checked : plan.checkCopies basis.size = .ok ()) :
    planInPlace buffer plan basis =
      .ok { plan.report with fallback := (Schedule.ofSpans plan.spans).fallback.length }
        (plan.target basis) := by
  have done := carryOut_eq_ok buffer (Plan.ofDeltas_eq_ok planned).2
    (Plan.checkCopiesOf_eq_ok_iff.1 checked) (Plan.length_pos planned)
  simp only [planInPlace, checked, done]

/-- A fresh rebuild in memory that succeeds has followed a plan. -/
theorem exists_plan_of_rebuildFresh {buffer : Buffer} {basis target : ByteArray}
    {deltas : List Delta} {report : Report}
    (rebuilt : Transfer.rebuildFresh buffer basis deltas = .ok (report, target)) :
    ∃ plan, Plan.ofDeltas deltas = .ok plan ∧ plan.checkCopies basis.size = .ok () ∧
      report = plan.report ∧ target = plan.target basis := by
  unfold Transfer.rebuildFresh at rebuilt
  cases wrote : fromContent buffer basis deltas .unlimited with
  | error error sink => simp [wrote] at rebuilt
  | ok report' sink =>
    simp only [wrote, Except.ok.injEq, Prod.mk.injEq] at rebuilt
    obtain ⟨plan, planned, checked, reported, rfl⟩ := exists_plan_of_fromContent wrote
    have accepted : target = plan.target basis := by
      rw [← rebuilt.2, ByteArray.empty_append]
    exact ⟨plan, planned, checked, rebuilt.1 ▸ reported, accepted⟩

/-- Over an empty basis a plan in range has no copies. -/
theorem Plan.isLiteral_of_checkCopies {deltas : List Delta} {plan : Plan}
    (planned : Plan.ofDeltas deltas = .ok plan) (checked : plan.checkCopies 0 = .ok ()) :
    ∀ delta ∈ plan.deltas, delta.isLiteral = true := by
  intro delta among
  have fits := Plan.checkCopiesOf_eq_ok_iff.1 checked delta among
  have something := Plan.length_pos planned delta among
  cases delta with
  | literal offset data => rfl
  | copy source offset length =>
    simp only [Delta.Fits] at fits
    simp only [Delta.length] at something
    omega

/-- Without copies, a plan puts nothing but literals into a file. -/
theorem Plan.spans_eq_nil {plan : Plan}
    (literal : ∀ delta ∈ plan.deltas, delta.isLiteral = true) : plan.spans = [] := by
  refine List.filterMap_eq_nil_iff.2 fun delta among => ?_
  cases delta with
  | literal offset data => rfl
  | copy source offset length => cases literal _ among

/-- A plan in range over an empty basis needs no basis, and what it writes into a new file is its
target. -/
theorem Plan.literalContent_eq {deltas : List Delta} {plan : Plan}
    (planned : Plan.ofDeltas deltas = .ok plan) (checked : plan.checkCopies 0 = .ok ()) :
    plan.checkNoCopy = .ok () ∧ plan.spans = [] ∧ plan.literalContent = plan.target .empty := by
  have literal := Plan.isLiteral_of_checkCopies planned checked
  have spans := Plan.spans_eq_nil literal
  refine ⟨?_, spans, ?_⟩
  · have free : plan.firstCopy? = none := by
      refine List.find?_eq_none.2 fun delta among => ?_
      simp [literal delta among]
    simp only [checkNoCopy, free]
  · have tiles := (Plan.ofDeltas_eq_ok planned).2
    have fits : ∀ delta ∈ plan.deltas, delta.Fits ByteArray.empty.size :=
      Plan.checkCopiesOf_eq_ok_iff.1 checked
    have pieces := Plan.perm_pieces .empty plan.deltas
    rw [show plan.deltas.filterMap copySpan? = [] from spans, List.map_nil, List.nil_append]
      at pieces
    have apart := (pieces.pairwise_iff fun {_ _} => Apart.symm).2 (Plan.pairwise_apart tiles fits)
    exact Plan.resize_eq_target tiles fits ((placed_foldl apart .empty).perm pieces)

/-- A file that holds the basis becomes the target of a plan whose copies are in range. -/
theorem planFileInPlace_of_holds (buffer : Buffer) {deltas : List Delta} {plan : Plan}
    {tree : FileTree} {path : String} {basis : ByteArray}
    (planned : Plan.ofDeltas deltas = .ok plan) (checked : plan.checkCopies basis.size = .ok ())
    (held : tree.Holds path basis) :
    ∃ after, planFileInPlace buffer path plan tree =
        .ok { plan.report with fallback := (Schedule.ofSpans plan.spans).fallback.length } after ∧
      after.Holds path (plan.target basis) := by
  obtain ⟨number, found, stored⟩ := held
  have known : number < tree.contents.size := (Array.getElem?_eq_some_iff.1 stored).1
  have content : tree.content number = basis := by
    rw [FileTree.content, Array.getD_eq_getD_getElem?, stored, Option.getD_some]
  refine ⟨tree.store number (plan.target basis), ?_, FileTree.holds_store found known _⟩
  have begun : (get : Filing FileTree) tree = .ok tree tree := rfl
  have done := planInPlace_eq_ok buffer planned checked
  rw [← content] at done ⊢
  unfold planFileInPlace
  rw [bind_of_ok begun]
  simp only [found]
  rw [bind_of_ok begun]
  simp only [done]
  rfl

/-- A missing file that can be created becomes the target of a plan in range over no basis. -/
theorem planFileInPlace_of_missing (buffer : Buffer) {deltas : List Delta} {plan : Plan}
    {tree created : FileTree} {path : String} {number : Nat}
    (planned : Plan.ofDeltas deltas = .ok plan) (checked : plan.checkCopies 0 = .ok ())
    (missing : tree.lookUp path = .error .notFound)
    (made : tree.create path = .ok (number, created)) :
    ∃ after, planFileInPlace buffer path plan tree =
        .ok { plan.report with fallback := (Schedule.ofSpans plan.spans).fallback.length } after ∧
      after.Holds path (plan.target .empty) := by
  obtain ⟨free, spans, written⟩ := Plan.literalContent_eq planned checked
  obtain ⟨found, known⟩ := FileTree.lookUp_of_create missing made
  refine ⟨created.store number (plan.target .empty), ?_, FileTree.holds_store found known _⟩
  have begun : (get : Filing FileTree) tree = .ok tree tree := rfl
  have opened : (access (tree.create path) : Filing _) tree = .ok (number, created) tree := by
    rw [made]
    rfl
  have passed : (settled plan.checkNoCopy : Filing Unit) tree = .ok () tree := by
    rw [free]
    rfl
  have unkept : (Schedule.ofSpans plan.spans).fallback.length = plan.report.fallback := by
    have nothing := List.perm_nil.1 (Schedule.perm_ofSpans [])
    rw [spans, (List.append_eq_nil_iff.1 nothing).2]
    rfl
  rw [← written, unkept]
  unfold planFileInPlace
  rw [bind_of_ok begun]
  simp only [missing]
  rw [bind_of_ok passed, bind_of_ok begun, bind_of_ok opened]
  rfl

variable {deltas : List Delta} {plan : Plan} {tree : FileTree} {path : String}

/-- A plan that is made is carried out. -/
theorem fileInPlace_of_plan (buffer : Buffer) (planned : Plan.ofDeltas deltas = .ok plan) :
    fileInPlace buffer path deltas tree = planFileInPlace buffer path plan tree := by
  have settling : (settled (Plan.ofDeltas deltas) : Filing Plan) tree = .ok plan tree := by
    rw [planned]
    rfl
  unfold fileInPlace
  rw [bind_of_ok settling]

/-- Whenever a fresh rebuild from a basis succeeds, the rebuild in place of a file that holds the
basis succeeds too, with buffers of any size. It leaves exactly the bytes of the fresh target, as
long as the report says, and reports the same but for the copies that its schedule kept in memory.
A file that is missing, but can be created, stands for an empty basis. -/
theorem fileInPlace_eq_rebuildFresh (fresh buffer : Buffer) (basis target : ByteArray)
    (deltas : List Delta) (report : Report)
    (rebuilt : Transfer.rebuildFresh fresh basis deltas = .ok (report, target))
    (tree : FileTree) (path : String)
    (ready : tree.Holds path basis ∨ basis = .empty ∧ tree.lookUp path = .error .notFound ∧
      ∃ created, tree.create path = .ok created) :
    ∃ plan after, Plan.ofDeltas deltas = .ok plan ∧
      fileInPlace buffer path deltas tree =
        .ok { report with fallback := (Schedule.ofSpans plan.spans).fallback.length } after ∧
      after.Holds path target ∧ target.size = report.targetLength := by
  obtain ⟨plan, planned, checked, rfl, rfl⟩ := exists_plan_of_rebuildFresh rebuilt
  have size : (plan.target basis).size = plan.report.targetLength :=
    Plan.size_target (Plan.ofDeltas_eq_ok planned).2 (Plan.checkCopiesOf_eq_ok_iff.1 checked)
  rw [fileInPlace_of_plan buffer planned]
  rcases ready with held | ⟨rfl, missing, ⟨number, created⟩, made⟩
  · obtain ⟨after, ran, holds⟩ := planFileInPlace_of_holds buffer planned checked held
    exact ⟨plan, after, planned, ran, holds, size⟩
  · obtain ⟨after, ran, holds⟩ := planFileInPlace_of_missing buffer planned checked missing made
    exact ⟨plan, after, planned, ran, holds, size⟩

/-- Two halves that change places need one copy kept in memory, and end up as in a fresh rebuild. -/
theorem fileInPlace_swapped :
    ∃ after, fileInPlace ⟨3, by decide⟩ "f" [.copy 0 2 2, .copy 2 0 2, .literal 4 [9]]
        ((FileTree.ofWorking []).addFile ["f"] ⟨#[1, 2, 3, 4]⟩) = .ok ⟨4, 1, 1, 5⟩ after ∧
      after.Holds "f" ⟨#[3, 4, 1, 2, 9]⟩ := by
  have fresh : Transfer.rebuildFresh ⟨1, by decide⟩ ⟨#[1, 2, 3, 4]⟩
      [.copy 0 2 2, .copy 2 0 2, .literal 4 [9]] =
        .ok (⟨4, 1, 0, 5⟩, ⟨#[3, 4, 1, 2, 9]⟩) := by cbv
  have held : ((FileTree.ofWorking []).addFile ["f"] ⟨#[1, 2, 3, 4]⟩).Holds "f" ⟨#[1, 2, 3, 4]⟩ :=
    ⟨0, by cbv, by cbv⟩
  obtain ⟨plan, after, planned, ran, holds, _⟩ :=
    fileInPlace_eq_rebuildFresh _ ⟨3, by decide⟩ _ _ _ _ fresh _ "f" (.inl held)
  have counted : (Schedule.ofSpans plan.spans).fallback.length = 1 := by
    have known : (Plan.ofDeltas [.copy 0 2 2, .copy 2 0 2, .literal 4 [9]]).toOption.map
        (fun plan => (Schedule.ofSpans plan.spans).fallback.length) = some 1 := by cbv
    rw [planned] at known
    exact Option.some.inj known
  rw [counted] at ran
  exact ⟨after, ran, holds⟩

end BlockDelta.Rebuild
