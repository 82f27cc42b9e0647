import BlockDelta.Proofs.Delta.Tiling

/-!
# Tilings byte by byte

That deltas tile a target can be said without putting them in order: every byte
of the target lies in exactly one of them, and none reaches behind the end.
Empty deltas have no byte and do not count. Put in target order, and without
the empty ones, such deltas stand in a chain. So they are the deltas for which
there is a plan, and for all others the plan fails for where they stand.
-/

namespace BlockDelta

namespace Delta

/-- A byte of the target lies in the span of a delta. -/
def covers (offset : Nat) (delta : Delta) : Bool :=
  decide (delta.start ≤ offset) && decide (offset < delta.stop)

/-- Every byte of a target of this length lies in exactly one of the deltas, and none of them has a
byte behind its end. -/
structure Partition (deltas : List Delta) (length : Nat) : Prop where
  /-- No delta that has bytes reaches behind the end. -/
  inside : ∀ delta ∈ deltas, delta.isEmpty = false → delta.stop ≤ length
  /-- Every byte lies in one delta. -/
  once : ∀ offset < length, deltas.countP (covers offset) = 1

/-- Deltas tile a target whose bytes can all be addressed. -/
def Tileable (deltas : List Delta) : Prop := ∃ length < UInt64.size, Partition deltas length

variable {start stop bound : Nat} {deltas : List Delta}

/-- What it is to lie in a span. -/
theorem covers_iff (offset : Nat) (delta : Delta) :
    delta.covers offset = true ↔ delta.start ≤ offset ∧ offset < delta.stop := by
  simp [covers]

/-- No byte lies in a delta that starts behind it. -/
theorem countP_covers_of_lt {offset : Nat} (behind : ∀ delta ∈ deltas, offset < delta.start) :
    deltas.countP (covers offset) = 0 := by
  refine List.countP_eq_zero.2 fun delta among covered => ?_
  have start := ((covers_iff ..).1 covered).1
  exact Nat.not_le_of_lt (behind delta among) start

/-- Only deltas that are not empty have bytes. -/
theorem isEmpty_of_covers {offset : Nat} {delta : Delta} (covered : delta.covers offset = true) :
    delta.isEmpty = false := by
  obtain ⟨start, stop⟩ := (covers_iff ..).1 covered
  unfold Delta.stop at stop
  rw [isEmpty, beq_eq_false_iff_ne]
  omega

/-- The order of the deltas does not matter. -/
theorem Partition.perm {others : List Delta} (partition : Partition deltas stop)
    (same : deltas.Perm others) : Partition others stop :=
  ⟨fun delta among => partition.inside delta (same.mem_iff.2 among),
    fun offset within => same.countP_eq _ ▸ partition.once offset within⟩

/-- Empty deltas do not matter. -/
theorem partition_filter :
    Partition (deltas.filter fun delta => !delta.isEmpty) stop ↔ Partition deltas stop := by
  have counts (offset : Nat) : (deltas.filter fun delta => !delta.isEmpty).countP (covers offset) =
      deltas.countP (covers offset) := by
    rw [List.countP_filter]
    refine List.countP_congr fun delta _ => ?_
    rw [Bool.and_eq_true, and_iff_left_of_imp]
    intro covered
    rw [isEmpty_of_covers covered]
    rfl
  constructor <;> intro partition <;>
    refine ⟨fun delta among something => ?_, fun offset within => ?_⟩
  · exact partition.inside delta (List.mem_filter.2 ⟨among, by rw [something]; rfl⟩) something
  · rw [← counts, partition.once offset within]
  · exact partition.inside delta (List.mem_filter.1 among).1 something
  · rw [counts, partition.once offset within]

/-- In a chain every byte between the ends lies in one delta. -/
theorem Tiles.countP_covers (tiles : Tiles start deltas stop) {offset : Nat}
    (behind : start ≤ offset) (before : offset < stop) : deltas.countP (covers offset) = 1 := by
  induction deltas generalizing start with
  | nil =>
    obtain rfl : start = stop := tiles
    omega
  | cons first rest ih =>
    have begun := tiles.1
    by_cases here : offset < first.stop
    · have covered : first.covers offset = true := (covers_iff ..).2 ⟨by omega, here⟩
      have later : rest.countP (covers offset) = 0 := countP_covers_of_lt fun delta among =>
        Nat.lt_of_lt_of_le here (tiles.2.within delta among).1
      rw [List.countP_cons_of_pos covered, later]
    · have uncovered : ¬first.covers offset = true :=
        fun covered => here ((covers_iff ..).1 covered).2
      rw [List.countP_cons_of_neg uncovered]
      exact ih tiles.2 (by omega)

/-- A chain from the start of a target partitions it. -/
theorem Tiles.partition (tiles : Tiles 0 deltas stop) : Partition deltas stop :=
  ⟨fun delta among _ => (tiles.within delta among).2,
    fun _ before => tiles.countP_covers (Nat.zero_le _) before⟩

/-- Deltas in the order of their starts, none of them empty, stand in a chain when every byte from
its start on lies in one of them. -/
theorem tiles_of_once (ordered : deltas.Pairwise fun left right => left.start ≤ right.start)
    (something : ∀ delta ∈ deltas, delta.isEmpty = false)
    (front : ∀ delta ∈ deltas, start ≤ delta.start) (back : ∀ delta ∈ deltas, delta.stop ≤ stop)
    (forward : start ≤ stop)
    (once : ∀ offset, start ≤ offset → offset < stop → deltas.countP (covers offset) = 1) :
    Tiles start deltas stop := by
  induction deltas generalizing start with
  | nil =>
    by_contra apart
    have missing := once start (Nat.le_refl _) (Nat.lt_of_le_of_ne forward apart)
    cases missing
  | cons first rest ih =>
    obtain ⟨least, ordered⟩ := List.pairwise_cons.1 ordered
    obtain ⟨filled, others⟩ := List.forall_mem_cons.1 something
    obtain ⟨begins, fronts⟩ := List.forall_mem_cons.1 front
    obtain ⟨ends, backs⟩ := List.forall_mem_cons.1 back
    rw [isEmpty, beq_eq_false_iff_ne] at filled
    have long : first.start < first.stop := by
      unfold Delta.stop
      omega
    -- no byte stands before the first delta
    have begun : first.start = start := by
      by_contra apart
      have early : start < first.start := Nat.lt_of_le_of_ne begins (Ne.symm apart)
      have none : (first :: rest).countP (covers start) = 0 := countP_covers_of_lt <|
        List.forall_mem_cons.2
          ⟨early, fun delta among => Nat.lt_of_lt_of_le early (least delta among)⟩
      rw [once start (Nat.le_refl _) (by omega)] at none
      cases none
    -- and no later delta starts inside it
    have later : ∀ delta ∈ rest, first.stop ≤ delta.start := by
      intro delta among
      by_contra inside
      have own : first.covers delta.start = true :=
        (covers_iff ..).2 ⟨least delta among, Nat.lt_of_not_le inside⟩
      have rests : delta.covers delta.start = true := by
        have held := others delta among
        rw [isEmpty, beq_eq_false_iff_ne] at held
        refine (covers_iff ..).2 ⟨Nat.le_refl _, ?_⟩
        unfold Delta.stop
        omega
      have single := once delta.start (begun ▸ least delta among) (by omega)
      rw [List.countP_cons_of_pos own] at single
      have positive := List.countP_pos_iff.2 ⟨delta, among, rests⟩
      omega
    refine ⟨begun, ih ordered others later backs ends fun offset behind before => ?_⟩
    have uncovered : ¬first.covers offset = true := fun covered =>
      Nat.not_lt_of_le behind ((covers_iff ..).1 covered).2
    rw [← List.countP_cons_of_neg uncovered]
    exact once offset (by omega) before

/-- Deltas in target order, none of them empty, that partition a target stand in a chain. -/
theorem Partition.tiles (partition : Partition deltas stop)
    (ordered : deltas.Pairwise fun left right => left.start ≤ right.start)
    (something : ∀ delta ∈ deltas, delta.isEmpty = false) : Tiles 0 deltas stop :=
  tiles_of_once ordered something (fun _ _ => Nat.zero_le _)
    (fun delta among => partition.inside delta among (something delta among)) (Nat.zero_le _)
    fun offset _ before => partition.once offset before

/-- Deltas are put in the order of their starts. -/
theorem pairwise_inTargetOrder (deltas : List Delta) :
    (inTargetOrder deltas).Pairwise fun left right => left.start ≤ right.start := by
  have sorted : (inTargetOrder deltas).Pairwise fun left right =>
      decide (left.start ≤ right.start) = true :=
    List.pairwise_mergeSort (fun _ _ _ => by simp only [decide_eq_true_eq]; omega)
      (fun _ _ => by simp only [Bool.or_eq_true, decide_eq_true_eq]; omega) deltas
  exact sorted.imp fun before => of_decide_eq_true before

/-- A chain of deltas that stop before a bound ends before it. -/
theorem Tiles.stop_lt (tiles : Tiles start deltas stop) (begun : start < bound)
    (bounded : ∀ delta ∈ deltas, delta.stop < bound) : stop < bound := by
  induction deltas generalizing start with
  | nil =>
    obtain rfl : start = stop := tiles
    exact begun
  | cons first rest ih =>
    obtain ⟨own, others⟩ := List.forall_mem_cons.1 bounded
    exact ih tiles.2 own others

end Delta

namespace Rebuild.Plan

variable {covered : Nat} {deltas : List Delta} {plan : Plan}

/-- A plan is no longer than a 64-bit word can say. -/
theorem targetLength_lt (planned : Plan.ofDeltas deltas = .ok plan) :
    plan.targetLength < UInt64.size := by
  obtain ⟨total, covers, made⟩ := exists_of_bind_eq_ok planned
  cases made
  obtain ⟨tiles, bounded⟩ := cover_eq_ok_iff.1 covers
  exact tiles.stop_lt (by decide) bounded

/-- There is a plan for exactly the deltas that tile a target. -/
theorem exists_ofDeltas_iff (deltas : List Delta) :
    (∃ plan, Plan.ofDeltas deltas = .ok plan) ↔ Delta.Tileable deltas := by
  constructor
  · rintro ⟨plan, planned⟩
    obtain ⟨same, tiles⟩ := Plan.ofDeltas_eq_ok planned
    exact ⟨plan.targetLength, targetLength_lt planned,
      Delta.partition_filter.1 (tiles.partition.perm same)⟩
  · rintro ⟨length, addressed, partition⟩
    let kept := deltas.filter fun delta => !delta.isEmpty
    have same := Delta.perm_inTargetOrder kept
    have something : ∀ delta ∈ Delta.inTargetOrder kept, delta.isEmpty = false := by
      intro delta among
      simpa using (List.mem_filter.1 (same.mem_iff.1 among)).2
    have tiles := ((Delta.partition_filter.2 partition).perm same.symm).tiles
      (Delta.pairwise_inTargetOrder kept) something
    have covers := cover_eq_ok_iff.2 ⟨tiles, fun delta among =>
      Nat.lt_of_le_of_lt (tiles.within delta among).2 addressed⟩
    unfold Plan.ofDeltas
    simp only [kept] at covers
    simp only [covers]
    exact ⟨_, rfl⟩

end Rebuild.Plan

end BlockDelta
