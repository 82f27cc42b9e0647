import BlockDelta.Proofs.Delta.Joining
import BlockDelta.Proofs.Rebuild.Refused

/-!
# What a fresh rebuild writes, byte by byte

Every byte of a target comes from the one delta whose span it lies in: it is a
byte of the literal, or the byte of the basis that the copy has there. This says
what the target is without an order of the deltas, a buffer or a position in
the basis, and a rebuild succeeds exactly where it can be said. So none of these
has an influence on what a rebuild writes and reports. A script that is applied
in memory gives the same bytes, and gives up for the same reason.
-/

namespace BlockDelta

/-- A byte before the end, set in motion with all the others. -/
theorem Content.getElem?_ofArray {content : ByteArray} {offset : Nat}
    (inside : offset < content.size) :
    (Bytes.ofArray content)[offset]? = some (Content.byteAt content offset) := by
  have known : offset < (Bytes.ofArray content).length := inside
  show _ = some ((Bytes.ofArray content).getD offset 0)
  rw [List.getD_eq_getElem _ _ known, List.getElem?_eq_getElem known]

namespace Delta

/-- The byte that a delta has for an offset of the target: one of its own, or one of the basis. -/
def byteFor? (basis : ByteArray) (offset : Nat) : Delta → Option UInt8
  | .literal start data => data[offset - start.toNat]?
  | .copy source start _ => (Bytes.ofArray basis)[source.toNat + (offset - start.toNat)]?

/-- Deltas describe a target over a basis: they partition it, its length can be addressed, and each
of its bytes is the one that the delta has for it in whose span it lies. -/
structure Describe (deltas : List Delta) (basis target : ByteArray) : Prop where
  /-- The length of the target is a 64-bit word. -/
  addressed : target.size < UInt64.size
  /-- Every byte of the target lies in one delta. -/
  partition : Partition deltas target.size
  /-- Every byte of the target is the one that its delta has for it. -/
  bytes : ∀ delta ∈ deltas, ∀ offset, delta.covers offset = true →
    (Bytes.ofArray target)[offset]? = delta.byteFor? basis offset

/-- Two lists hold the same deltas, but for their order and for empty ones. -/
def SameWrites (deltas others : List Delta) : Prop :=
  (deltas.filter fun delta => !delta.isEmpty).Perm (others.filter fun delta => !delta.isEmpty)

variable {basis : ByteArray} {deltas others : List Delta}

/-- The byte of a delta for an offset in its span is a byte of its piece. -/
theorem byteFor?_eq {delta : Delta} (fits : delta.Fits basis.size) {place : Nat}
    (inside : place < delta.length) :
    delta.byteFor? basis (delta.start + place) =
      some (Content.byteAt (delta.piece basis) place) := by
  cases delta with
  | literal start data =>
    have known : place < data.length := inside
    have here : start.toNat + place - start.toNat = place := Nat.add_sub_cancel_left ..
    rw [piece, Content.byteAt_toArray, byteFor?, Delta.start, here, List.getD_eq_getElem _ _ known]
    exact List.getElem?_eq_getElem known
  | copy source start length =>
    have short : place < length.toNat := inside
    have behind : source.toNat + length.toNat ≤ basis.size := fits
    have here : start.toNat + place - start.toNat = place := Nat.add_sub_cancel_left ..
    rw [piece, Content.byteAt_extract (by omega), byteFor?, Delta.start, here]
    exact Content.getElem?_ofArray (by omega)

/-- Empty deltas add nothing to the length of all deltas. -/
theorem totalLength_filter (deltas : List Delta) :
    totalLength (deltas.filter fun delta => !delta.isEmpty) = totalLength deltas := by
  induction deltas with
  | nil => rfl
  | cons delta rest ih =>
    by_cases empty : delta.isEmpty = true
    · have nothing : delta.length = 0 := by simpa [isEmpty] using empty
      rw [List.filter_cons_of_neg (by simp [empty]), ih, totalLength, nothing, Nat.zero_add]
    · rw [List.filter_cons_of_pos (by simp [empty]), totalLength, totalLength, ih]

/-- Deltas that stand in a chain, none of them empty, stand in a chain in no other order. -/
theorem Tiles.eq_of_perm {reached other : Nat} (tiles : Tiles 0 deltas reached)
    (otherTiles : Tiles 0 others other) (something : ∀ delta ∈ deltas, 0 < delta.length)
    (same : deltas.Perm others) : deltas = others := by
  have sorted {list : List Delta} {reached : Nat} (chain : Tiles 0 list reached)
      (filled : ∀ delta ∈ list, 0 < delta.length) :
      list.Pairwise fun earlier later => earlier.start < later.start := by
    refine chain.pairwise.imp_of_mem fun {earlier later} among _ before => ?_
    have long := filled earlier among
    unfold stop at before
    omega
  have first := sorted tiles something
  have second := sorted otherTiles fun delta among => something delta (same.mem_iff.2 among)
  exact same.eq_of_pairwise (fun _ _ _ _ forth back => absurd back (Nat.lt_asymm forth))
    first second

end Delta

namespace Rebuild

namespace Plan

variable {deltas others : List Delta} {plan : Plan} {basis : ByteArray}

/-- There is one plan for deltas in any order and with any empty ones among them. -/
theorem ofDeltas_of_sameWrites (planned : ofDeltas deltas = .ok plan)
    (same : Delta.SameWrites others deltas) : ofDeltas others = .ok plan := by
  obtain ⟨kept, tiles⟩ := ofDeltas_eq_ok planned
  have moved : Delta.Partition (others.filter fun delta => !delta.isEmpty) plan.targetLength :=
    (tiles.partition.perm kept).perm same.symm
  have tileable : Delta.Tileable others :=
    ⟨plan.targetLength, targetLength_lt planned, Delta.partition_filter.1 moved⟩
  obtain ⟨other, otherPlanned⟩ := (exists_ofDeltas_iff others).2 tileable
  obtain ⟨otherKept, otherTiles⟩ := ofDeltas_eq_ok otherPlanned
  have deltasEqual : plan.deltas = other.deltas :=
    tiles.eq_of_perm otherTiles (length_pos planned)
      (kept.trans (same.symm.trans otherKept.symm))
  have lengthsEqual : plan.targetLength = other.targetLength := by
    rw [← tiles.totalLength, ← otherTiles.totalLength, deltasEqual]
  obtain ⟨ordered, reached⟩ := plan
  cases deltasEqual
  cases lengthsEqual
  exact otherPlanned

/-- The copies of a plan are in range when the deltas that it was made of, but for empty ones, read
inside the basis. -/
theorem checkCopies_iff_fits (planned : ofDeltas deltas = .ok plan) (basisLength : Nat) :
    plan.checkCopies basisLength = .ok () ↔
      ∀ delta ∈ deltas, delta.isEmpty = false → delta.Fits basisLength := by
  have listed (delta : Delta) : delta ∈ plan.deltas ↔ delta ∈ deltas ∧ delta.isEmpty = false := by
    rw [(ofDeltas_eq_ok planned).1.mem_iff, List.mem_filter, Bool.not_eq_true']
  rw [checkCopies, checkCopiesOf_eq_ok_iff]
  constructor
  · intro all delta among something
    exact all delta ((listed delta).2 ⟨among, something⟩)
  · intro all delta among
    obtain ⟨given, something⟩ := (listed delta).1 among
    exact all delta given something

/-- The deltas describe the target of their plan. -/
theorem describe_target (planned : ofDeltas deltas = .ok plan)
    (checked : plan.checkCopies basis.size = .ok ()) :
    Delta.Describe deltas basis (plan.target basis) := by
  obtain ⟨kept, tiles⟩ := ofDeltas_eq_ok planned
  have fits := checkCopiesOf_eq_ok_iff.1 checked
  have size := size_target tiles fits
  constructor
  case addressed =>
    rw [size]
    exact targetLength_lt planned
  case partition =>
    rw [size]
    exact Delta.partition_filter.1 (tiles.partition.perm kept)
  case bytes =>
    intro delta among offset covered
    obtain ⟨behind, before⟩ := (Delta.covers_iff ..).1 covered
    have listed : delta ∈ plan.deltas := by
      apply kept.mem_iff.2
      rw [List.mem_filter, Delta.isEmpty_of_covers covered]
      exact ⟨among, rfl⟩
    obtain ⟨place, rfl⟩ := Nat.exists_eq_add_of_le behind
    have inside : place < delta.length := by
      unfold Delta.stop at before
      omega
    have reached : delta.start + place < (plan.target basis).size := by
      have within := (tiles.within delta listed).2
      omega
    rw [Content.getElem?_ofArray reached, byteAt_target tiles fits delta listed place inside,
      Delta.byteFor?_eq (fits delta listed) inside]

/-- The report of a plan counts the bytes of all literals and of all copies that it was made of. -/
theorem report_of_ofDeltas (planned : ofDeltas deltas = .ok plan) :
    plan.report =
      ⟨Delta.copyTotal deltas, Delta.literalTotal deltas, 0, plan.targetLength⟩ := by
  have counted (wanted : Delta → Bool) :
      Delta.totalLength (plan.deltas.filter wanted) = Delta.totalLength (deltas.filter wanted) := by
    have kept := (ofDeltas_eq_ok planned).1.filter wanted
    rw [Delta.totalLength_perm kept, List.filter_comm, Delta.totalLength_filter]
  rw [report_eq]
  unfold Delta.copyTotal Delta.literalTotal
  rw [counted, counted]

/-- All bytes of a planned target are carried along or copied. -/
theorem totals_of_ofDeltas (planned : ofDeltas deltas = .ok plan) :
    Delta.copyTotal deltas + Delta.literalTotal deltas = plan.targetLength := by
  obtain ⟨kept, tiles⟩ := ofDeltas_eq_ok planned
  have whole := tiles.totalLength
  rw [Delta.totalLength_perm kept, Delta.totalLength_filter,
    ← Delta.literalTotal_add_copyTotal] at whole
  omega

end Plan

/-- A delta is written, and the basis is positioned for every copy. -/
def emitDeltaSeeking (buffer : Buffer) (basis : Basis) : Delta → Rebuilding Unit
  | .literal _ data => emit data
  | .copy source _ length => do
    modify fun progress => { progress with position := source.toNat }
    copyNext buffer basis length.toNat
    modify fun progress => { progress with lastStop := some (source.toNat + length.toNat) }

/-- Deltas are written one behind the other, and the basis is positioned for every copy. -/
def emitDeltasSeeking (buffer : Buffer) (basis : Basis) : List Delta → Rebuilding Unit
  | [] => pure ()
  | delta :: rest => do
    emitDeltaSeeking buffer basis delta
    emitDeltasSeeking buffer basis rest

/-- The target that deltas describe is written to a sink, and the basis is positioned for every
copy, also for one that goes on where the last one ended. -/
def toSinkSeeking (buffer : Buffer) (basis : Basis) (deltas : List Delta) :
    EStateM Error Sink Report := fun sink =>
  let checked := do
    let plan ← Plan.ofDeltas deltas
    plan.checkCopies basis.size
    return plan
  match checked with
  | .error error => .error error sink
  | .ok plan =>
    match emitDeltasSeeking buffer basis plan.deltas ⟨basis.size, none, sink⟩ with
    | .ok () done => .ok plan.report done.sink
    | .error fault failed => .error (.io fault) failed.sink

section

variable {buffer : Buffer} {basis : Basis}

/-- Positioning the basis for every copy makes no difference to one delta. -/
theorem emitDeltaSeeking_eq {progress : Progress} (placed : progress.Placed) (delta : Delta) :
    emitDeltaSeeking buffer basis delta progress = emitDelta buffer basis delta progress := by
  cases delta with
  | literal offset data => rfl
  | copy source offset length =>
    simp only [emitDelta]
    rw [bind_of_ok (seek_eq source.toNat placed)]
    rfl

/-- Positioning the basis for every copy makes no difference to a list of deltas. -/
theorem emitDeltasSeeking_eq {progress : Progress} (placed : progress.Placed)
    (deltas : List Delta) :
    emitDeltasSeeking buffer basis deltas progress = emitDeltas buffer basis deltas progress := by
  induction deltas generalizing progress with
  | nil => rfl
  | cons delta rest ih =>
    refine bind_congr_of_ok (emitDeltaSeeking_eq placed delta) fun _ between done => ?_
    exact ih (emitDelta_placed placed done)

/-- Whether the basis is positioned for every copy makes no difference to a rebuild, from whatever
basis and into whatever sink. -/
theorem toSinkSeeking_eq (buffer : Buffer) (basis : Basis) (deltas : List Delta) :
    toSinkSeeking buffer basis deltas = toSink buffer basis deltas := by
  funext sink
  have started : Progress.Placed ⟨basis.size, none, sink⟩ := nofun
  simp only [toSinkSeeking, emitDeltasSeeking_eq started]
  rfl

end

end Rebuild

namespace Script

variable {basis : ByteArray}

/-- One delta that reads behind the end of the basis keeps all of them from being applied. -/
theorem foldlM_bytesOf?_of_misfit {deltas : List Delta} (front : ByteArray)
    (misfit : ¬∀ delta ∈ deltas, delta.Fits basis.size) :
    deltas.foldlM (fun target delta => (bytesOf? basis delta).map (target ++ ·)) front = none := by
  induction deltas generalizing front with
  | nil => exact absurd (List.forall_mem_nil _) misfit
  | cons delta rest ih =>
    rw [List.foldlM_cons]
    by_cases own : delta.Fits basis.size
    · rw [Delta.bytesOf?_of_fits own]
      exact ih _ fun others => misfit (List.forall_mem_cons.2 ⟨own, others⟩)
    · cases delta with
      | literal offset data => exact absurd trivial own
      | copy source offset length =>
        have nothing : bytesOf? basis (.copy source offset length) = none := if_neg own
        rw [nothing]
        rfl

/-- A script cannot be applied to a basis that one of its copies outruns, and to no other. -/
theorem applyTo_eq_none_iff (script : Script) (basis : ByteArray) :
    script.applyTo basis = none ↔ Delta.Outrun basis.size script.deltas := by
  have same := Delta.perm_inTargetOrder script.deltas
  have ordered : (∀ delta ∈ Delta.inTargetOrder script.deltas, delta.Fits basis.size) ↔
      ∀ delta ∈ script.deltas, delta.Fits basis.size :=
    forall_congr' fun delta => imp_congr_left same.mem_iff
  rw [Delta.outrun_iff, ← ordered]
  unfold applyTo
  constructor
  · intro nothing fits
    rw [foldlM_bytesOf? _ fits] at nothing
    cases nothing
  · exact foldlM_bytesOf?_of_misfit _

/-- A script that tiles a target is applied as the plan for its deltas says. -/
theorem applyTo_eq_target (script : Script) {length : Nat}
    (fits : ∀ delta ∈ script.deltas, delta.Fits basis.size) :
    script.applyTo basis =
      some ((⟨Delta.inTargetOrder script.deltas, length⟩ : Rebuild.Plan).target basis) := by
  have ordered : ∀ delta ∈ Delta.inTargetOrder script.deltas, delta.Fits basis.size :=
    fun delta among => fits delta ((Delta.perm_inTargetOrder _).mem_iff.1 among)
  rw [applyTo, foldlM_bytesOf? _ ordered, ByteArray.empty_append]
  rfl

end Script

namespace Rebuild

variable {buffer : Buffer} {basis written : ByteArray} {deltas : List Delta}

/-- A fresh rebuild succeeds exactly when the deltas tile a target and those that are not empty read
inside the basis. -/
theorem exists_fromContent_iff :
    (∃ report after, fromContent buffer basis deltas ⟨written, none⟩ = .ok report after) ↔
      Delta.Tileable deltas ∧ ∀ delta ∈ deltas, delta.isEmpty = false → delta.Fits basis.size := by
  constructor
  · rintro ⟨report, after, rebuilt⟩
    obtain ⟨plan, planned, checked, -, -⟩ := exists_plan_of_fromContent rebuilt
    exact ⟨(Plan.exists_ofDeltas_iff deltas).1 ⟨plan, planned⟩,
      (Plan.checkCopies_iff_fits planned _).1 checked⟩
  · rintro ⟨tileable, fits⟩
    obtain ⟨plan, planned⟩ := (Plan.exists_ofDeltas_iff deltas).2 tileable
    have checked := (Plan.checkCopies_iff_fits planned basis.size).2 fits
    exact ⟨_, _, fromContent_of_plan buffer written planned checked⟩

/-- A fresh rebuild writes the target that its deltas describe, and reports their bytes. -/
theorem describe_of_fromContent {report : Report} {after : Sink}
    (rebuilt : fromContent buffer basis deltas ⟨written, none⟩ = .ok report after) :
    ∃ target, after = ⟨written ++ target, none⟩ ∧ Delta.Describe deltas basis target ∧
      report = ⟨Delta.copyTotal deltas, Delta.literalTotal deltas, 0, target.size⟩ ∧
      report.copied + report.literal = report.targetLength := by
  obtain ⟨plan, planned, checked, rfl, rfl⟩ := exists_plan_of_fromContent rebuilt
  have size : (plan.target basis).size = plan.targetLength :=
    Plan.size_target (Plan.ofDeltas_eq_ok planned).2 (Plan.checkCopiesOf_eq_ok_iff.1 checked)
  have counted := Plan.report_of_ofDeltas planned
  refine ⟨plan.target basis, rfl, Plan.describe_target planned checked, ?_, ?_⟩
  · rw [counted, size]
  · rw [counted]
    exact Plan.totals_of_ofDeltas planned

/-- The order of the deltas, empty ones among them and the size of the buffer have no influence on
a fresh rebuild that succeeds. -/
theorem fromContent_of_sameWrites {report : Report} {after : Sink} (other : Buffer)
    {others : List Delta} (same : Delta.SameWrites others deltas)
    (rebuilt : fromContent buffer basis deltas ⟨written, none⟩ = .ok report after) :
    fromContent other basis others ⟨written, none⟩ = .ok report after := by
  obtain ⟨plan, planned, checked, rfl, rfl⟩ := exists_plan_of_fromContent rebuilt
  exact fromContent_of_plan other written (Plan.ofDeltas_of_sameWrites planned same) checked

/-- Of deltas that tile a target, a fresh rebuild refuses those with a copy behind the end of the
basis, and it refuses them for that. -/
theorem fromContent_copyOutOfRange_iff {length : Nat} (addressed : length < UInt64.size)
    (tiled : Delta.checkTiling deltas length = .ok ()) :
    (∃ source count, fromContent buffer basis deltas ⟨written, none⟩ =
        .error (.copyOutOfRange source count basis.size) ⟨written, none⟩) ↔
      Delta.Outrun basis.size deltas := by
  have planned := Plan.ofDeltas_of_checkTiling tiled addressed
  have same : (⟨Delta.inTargetOrder deltas, length⟩ : Plan).deltas.Perm deltas :=
    Delta.perm_inTargetOrder deltas
  have ranged := Plan.checkCopies_eq_ok_iff basis.size same
  constructor
  · rintro ⟨source, count, refused⟩
    by_contra within
    rw [fromContent_of_plan buffer written planned (ranged.2 within)] at refused
    cases refused
  · intro outrun
    cases verdict : (⟨Delta.inTargetOrder deltas, length⟩ : Plan).checkCopies basis.size with
    | ok _ => exact absurd outrun (ranged.1 verdict)
    | error error =>
      obtain ⟨source, count, rfl⟩ := Plan.checkCopiesOf_eq_error verdict
      exact ⟨source, count, toSink_of_refused buffer planned verdict _⟩

/-- A fresh rebuild into a sink without a limit succeeds exactly when the deltas that are not empty
partition a target whose length is a 64-bit word, and read inside the basis. It then writes the
target that has at each offset the byte of the delta that covers it, and reports how many of its
bytes were copied and how many carried along. Neither the order of the deltas nor empty ones nor the
buffer have an influence on this, and taking a new position for every copy makes no difference to
any rebuild. A script that tiles its target gives the same bytes when it is applied to a basis that
no copy outruns, and none at all exactly when the rebuild refuses a copy. -/
theorem fromContent_pointwise (buffer : Buffer) (basis written : ByteArray) (deltas : List Delta) :
    ((∃ report after, fromContent buffer basis deltas ⟨written, none⟩ = .ok report after) ↔
      Delta.Tileable deltas ∧
        ∀ delta ∈ deltas, delta.isEmpty = false → delta.Fits basis.size) ∧
    (∀ report after, fromContent buffer basis deltas ⟨written, none⟩ = .ok report after →
      (∃ target, after = ⟨written ++ target, none⟩ ∧ Delta.Describe deltas basis target ∧
        report = ⟨Delta.copyTotal deltas, Delta.literalTotal deltas, 0, target.size⟩ ∧
        report.copied + report.literal = report.targetLength) ∧
      ∀ (other : Buffer) (others : List Delta), Delta.SameWrites others deltas →
        fromContent other basis others ⟨written, none⟩ = .ok report after) ∧
    toSinkSeeking buffer (.ofContent basis) deltas = fromContent buffer basis deltas ∧
    ∀ (script : Script) (length : UInt64), script.deltas = deltas →
      script.checkTiling length.toNat = .ok () →
      ((∀ delta ∈ deltas, delta.Fits basis.size) →
        ∃ report target, script.applyTo basis = some target ∧
          fromContent buffer basis deltas ⟨written, none⟩ =
            .ok report ⟨written ++ target, none⟩) ∧
      (script.applyTo basis = none ↔
        ∃ source count, fromContent buffer basis deltas ⟨written, none⟩ =
          .error (.copyOutOfRange source count basis.size) ⟨written, none⟩) := by
  refine ⟨exists_fromContent_iff, fun report after rebuilt => ?_, toSinkSeeking_eq .., ?_⟩
  · exact ⟨describe_of_fromContent rebuilt,
      fun other others same => fromContent_of_sameWrites other same rebuilt⟩
  · rintro script length rfl tiled
    have addressed : length.toNat < UInt64.size := length.toNat_lt
    constructor
    · intro fits
      have planned := Plan.ofDeltas_of_checkTiling tiled addressed
      have checked : (⟨Delta.inTargetOrder script.deltas, length.toNat⟩ : Plan).checkCopies
          basis.size = .ok () :=
        (Plan.checkCopies_iff_fits planned _).2 fun delta among _ => fits delta among
      exact ⟨_, _, script.applyTo_eq_target fits,
        fromContent_of_plan buffer written planned checked⟩
    · rw [script.applyTo_eq_none_iff]
      exact (fromContent_copyOutOfRange_iff addressed tiled).symm

/-- A swap with a literal behind it is written as it is described, also from a list in another order
with an empty delta in it, and applied in memory. A copy behind the end is refused by both. -/
theorem fromContent_pointwise_swapped :
    let basis : ByteArray := ⟨#[1, 2, 3, 4]⟩
    let deltas : List Delta := [.copy 2 0 2, .literal 4 [9], .copy 0 2 2]
    let others : List Delta := [.copy 7 1 0, .copy 0 2 2, .copy 2 0 2, .literal 4 [9]]
    let outrunning : List Delta := [.copy 3 0 2]
    (∃ target, (⟨⟨#[3, 4, 1, 2, 9]⟩, none⟩ : Sink) = ⟨.empty ++ target, none⟩ ∧
      Delta.Describe deltas basis target) ∧
    fromContent ⟨1, by decide⟩ basis others .unlimited =
      .ok ⟨4, 1, 0, 5⟩ ⟨⟨#[3, 4, 1, 2, 9]⟩, none⟩ ∧
    (∃ report target, (Script.ofDeltas deltas).applyTo basis = some target ∧
      fromContent ⟨3, by decide⟩ basis deltas .unlimited =
        .ok report ⟨.empty ++ target, none⟩) ∧
    (Script.ofDeltas outrunning).applyTo basis = none ∧
    ∃ source count, fromContent ⟨3, by decide⟩ basis outrunning .unlimited =
      .error (.copyOutOfRange source count 4) .unlimited := by
  intro basis deltas others outrunning
  have rebuilt : fromContent ⟨3, by decide⟩ basis deltas .unlimited =
      .ok ⟨4, 1, 0, 5⟩ ⟨⟨#[3, 4, 1, 2, 9]⟩, none⟩ := by cbv
  have same : Delta.SameWrites others deltas := by
    unfold Delta.SameWrites
    decide
  have fits : ∀ delta ∈ deltas, delta.Fits basis.size := by
    simp [deltas, basis, Delta.Fits, ByteArray.size]
  have tiled : (Script.ofDeltas deltas).checkTiling (5 : UInt64).toNat = .ok () := by cbv
  have outrunTiled : (Script.ofDeltas outrunning).checkTiling (2 : UInt64).toNat = .ok () := by cbv
  have given := fromContent_pointwise ⟨3, by decide⟩ basis .empty deltas
  obtain ⟨-, success, -, applied⟩ := given
  obtain ⟨⟨target, written, described, -⟩, unordered⟩ := success _ _ rebuilt
  have refused := (fromContent_pointwise ⟨3, by decide⟩ basis .empty outrunning).2.2.2
    (Script.ofDeltas outrunning) 2 rfl outrunTiled
  have nothing : (Script.ofDeltas outrunning).applyTo basis = none := by cbv
  exact ⟨⟨target, written, described⟩, unordered ⟨1, by decide⟩ others same,
    (applied (Script.ofDeltas deltas) 5 rfl tiled).1 fits, nothing, refused.2.1 nothing⟩

end Rebuild

end BlockDelta
