import BlockDelta.Delta.Tiling
import BlockDelta.Proofs.Pieces
import BlockDelta.Proofs.Running
import BlockDelta.Rebuild.Plan

/-!
# Tilings as chains

Deltas in target order tile a span of the target when each starts where the
one before it stops. Both checks of a tiling decide this chain; from it follow
that no two deltas share a byte, that every byte lies in one of them, and what
the bytes of all deltas are, one behind the other.
-/

namespace BlockDelta

namespace Delta

/-- Deltas stand one behind the other, from one offset of the target to another. -/
def Tiles (start : Nat) : List Delta → Nat → Prop
  | [], stop => start = stop
  | delta :: rest, stop => delta.start = start ∧ Tiles delta.stop rest stop

variable {start middle stop : Nat} {deltas : List Delta}

/-- Deltas in target order are the same deltas. -/
theorem perm_inTargetOrder (deltas : List Delta) : (inTargetOrder deltas).Perm deltas :=
  List.mergeSort_perm ..

/-- A chain is continued by one that begins where it ends. -/
theorem Tiles.append {others : List Delta} (front : Tiles start deltas middle)
    (back : Tiles middle others stop) : Tiles start (deltas ++ others) stop := by
  induction deltas generalizing start with
  | nil =>
    obtain rfl : start = middle := front
    exact back
  | cons delta rest ih => exact ⟨front.1, ih front.2⟩

/-- A chain does not go back. -/
theorem Tiles.le (tiles : Tiles start deltas stop) : start ≤ stop := by
  induction deltas generalizing start with
  | nil => exact Nat.le_of_eq tiles
  | cons delta rest ih =>
    have further := ih tiles.2
    have begun := tiles.1
    unfold Delta.stop at further
    omega

/-- Every delta of a chain lies between its ends. -/
theorem Tiles.within (tiles : Tiles start deltas stop) :
    ∀ delta ∈ deltas, start ≤ delta.start ∧ delta.stop ≤ stop := by
  induction deltas generalizing start with
  | nil => simp
  | cons first rest ih =>
    intro delta among
    have begun := tiles.1
    rcases List.mem_cons.1 among with rfl | later
    · exact ⟨Nat.le_of_eq begun.symm, tiles.2.le⟩
    · obtain ⟨behind, before⟩ := ih tiles.2 delta later
      unfold Delta.stop at behind
      exact ⟨by omega, before⟩

/-- A delta of a chain stops before every later one starts. -/
theorem Tiles.pairwise (tiles : Tiles start deltas stop) :
    deltas.Pairwise fun earlier later => earlier.stop ≤ later.start := by
  induction deltas generalizing start with
  | nil => exact .nil
  | cons first rest ih =>
    exact List.pairwise_cons.2 ⟨fun later among => (tiles.2.within later among).1, ih tiles.2⟩

/-- Every byte between the ends of a chain lies in one of its deltas. -/
theorem Tiles.exists_mem (tiles : Tiles start deltas stop) {offset : Nat}
    (behind : start ≤ offset) (before : offset < stop) :
    ∃ delta ∈ deltas, delta.start ≤ offset ∧ offset < delta.stop := by
  induction deltas generalizing start with
  | nil =>
    obtain rfl : start = stop := tiles
    omega
  | cons first rest ih =>
    by_cases here : offset < first.stop
    · exact ⟨first, List.mem_cons_self .., by rw [tiles.1]; exact behind, here⟩
    · obtain ⟨delta, among, inside⟩ := ih tiles.2 (Nat.le_of_not_lt here)
      exact ⟨delta, List.mem_cons_of_mem _ among, inside⟩

/-- The deltas of a chain are in target order. -/
theorem Tiles.inTargetOrder_eq (tiles : Tiles start deltas stop) :
    inTargetOrder deltas = deltas := by
  refine List.mergeSort_of_pairwise (tiles.pairwise.imp fun {earlier later} before => ?_)
  unfold Delta.stop at before
  rw [decide_eq_true_eq]
  omega

/-- The bytes of a chain are as many as the offsets between its ends. -/
theorem Tiles.length_flatMap {bytes : Delta → Bytes} (tiles : Tiles start deltas stop)
    (lengths : ∀ delta ∈ deltas, (bytes delta).length = delta.length) :
    start + (deltas.flatMap bytes).length = stop := by
  induction deltas generalizing start with
  | nil => exact tiles
  | cons first rest ih =>
    have others := ih tiles.2 fun delta later => lengths delta (List.mem_cons_of_mem _ later)
    have begun := tiles.1
    have own := lengths first (List.mem_cons_self ..)
    unfold Delta.stop at others
    rw [List.flatMap_cons, List.length_append, own]
    omega

/-- The lengths of a chain add up to what lies between its ends. -/
theorem Tiles.totalLength (tiles : Tiles start deltas stop) :
    start + totalLength deltas = stop := by
  induction deltas generalizing start with
  | nil => exact tiles
  | cons first rest ih =>
    have others := ih tiles.2
    have begun := tiles.1
    unfold Delta.stop at others
    rw [Delta.totalLength]
    omega

/-- The front of a chain is a chain, as long as its deltas are together. -/
theorem Tiles.front {others : List Delta} (tiles : Tiles start (deltas ++ others) stop) :
    Tiles start deltas (start + Delta.totalLength deltas) := by
  induction deltas generalizing start with
  | nil => rfl
  | cons first rest ih =>
    have further := ih tiles.2
    have begun : first.start = start := tiles.1
    refine ⟨begun, ?_⟩
    rw [Delta.totalLength, ← Nat.add_assoc, ← begun]
    exact further

/-- Each delta's bytes stand in the bytes of the chain where the delta starts. -/
theorem Tiles.getD_flatMap {bytes : Delta → Bytes} (tiles : Tiles start deltas stop)
    (lengths : ∀ delta ∈ deltas, (bytes delta).length = delta.length) :
    ∀ delta ∈ deltas, ∀ place < delta.length,
      (deltas.flatMap bytes).getD (delta.start - start + place) 0 =
        (bytes delta).getD place 0 := by
  induction deltas generalizing start with
  | nil => simp
  | cons first rest ih =>
    intro delta among place inside
    have begun := tiles.1
    have own := lengths first (List.mem_cons_self ..)
    rw [List.flatMap_cons]
    rcases List.mem_cons.1 among with rfl | later
    · rw [begun, Nat.sub_self, Nat.zero_add, List.getD_append _ _ _ _ (by omega)]
    · have behind := (tiles.2.within delta later).1
      rw [← ih tiles.2 (fun delta later => lengths delta (List.mem_cons_of_mem _ later)) delta later
        place inside]
      unfold Delta.stop at behind ⊢
      rw [List.getD_append_right _ _ _ _ (by omega), own]
      congr 1
      omega

/-- A chain whose deltas stand for spans of a target stands for the span between its ends. -/
theorem Tiles.flatMap_eq_span {bytes : Delta → Bytes} {target : Bytes}
    (tiles : Tiles start deltas stop)
    (spans : ∀ delta ∈ deltas, bytes delta = Bytes.span target delta.start delta.length) :
    deltas.flatMap bytes = Bytes.span target start (stop - start) := by
  induction deltas generalizing start with
  | nil =>
    obtain rfl : start = stop := tiles
    rw [List.flatMap_nil, Nat.sub_self, Bytes.span, List.take_zero]
  | cons first rest ih =>
    obtain ⟨own, others⟩ := List.forall_mem_cons.1 spans
    have further := tiles.2.le
    rw [List.flatMap_cons, own, ih tiles.2 others, tiles.1]
    have begun := tiles.1
    unfold Delta.stop at further ⊢
    rw [begun, Bytes.span_append_span]
    congr 1
    omega

/-- Following a chain without empty deltas succeeds and ends at its end. -/
theorem coverFrom_eq_ok_iff :
    coverFrom start deltas = .ok stop ↔
      Tiles start deltas stop ∧ ∀ delta ∈ deltas, delta.isEmpty = false := by
  induction deltas generalizing start with
  | nil => simp [coverFrom, Tiles]
  | cons first rest ih =>
    unfold coverFrom Tiles
    by_cases empty : first.isEmpty = true
    · simp [empty]
    by_cases gap : start < first.start
    · simp [empty, gap, Nat.ne_of_gt gap]
    by_cases overlap : first.start < start
    · simp [empty, gap, overlap, Nat.ne_of_lt overlap]
    · have begun : first.start = start := by omega
      simp [empty, ih, begun]

/-- Deltas that stand in a chain from the start of the target without empty ones tile it. -/
theorem Tiles.checkTiling_eq (tiles : Tiles 0 deltas stop)
    (something : ∀ delta ∈ deltas, delta.isEmpty = false) : checkTiling deltas stop = .ok () := by
  unfold checkTiling
  rw [tiles.inTargetOrder_eq, coverFrom_eq_ok_iff.2 ⟨tiles, something⟩]
  simp [bind, Except.bind, pure, Except.pure]

/-- Deltas that tile a target, in whatever order, stand in a chain without empty ones. -/
theorem tiles_of_checkTiling (checked : checkTiling deltas stop = .ok ()) :
    Tiles 0 (inTargetOrder deltas) stop ∧ ∀ delta ∈ deltas, delta.isEmpty = false := by
  obtain ⟨reached, covers, ended⟩ := exists_of_bind_eq_ok checked
  have exact : reached = stop := by
    split at ended
    · cases ended
    split at ended
    · cases ended
    · omega
  obtain ⟨tiles, something⟩ := coverFrom_eq_ok_iff.1 covers
  refine ⟨exact ▸ tiles, fun delta among => something delta ?_⟩
  exact (perm_inTargetOrder deltas).mem_iff.2 among

end Delta

namespace Rebuild

/-- A plan covers a target when its deltas stand in a chain of 64-bit offsets. -/
theorem Plan.cover_eq_ok_iff {covered total : Nat} {deltas : List Delta} :
    Plan.cover covered deltas = .ok total ↔
      Delta.Tiles covered deltas total ∧ ∀ delta ∈ deltas, delta.stop < UInt64.size := by
  induction deltas generalizing covered with
  | nil => simp [Plan.cover, Delta.Tiles]
  | cons first rest ih =>
    unfold Plan.cover Delta.Tiles
    by_cases gap : covered < first.start
    · simp [gap, Nat.ne_of_gt gap]
    by_cases overlap : first.start < covered
    · simp [gap, overlap, Nat.ne_of_lt overlap]
    by_cases overflow : UInt64.size ≤ first.stop
    · rw [if_neg gap, if_neg overlap, if_pos overflow]
      refine ⟨nofun, fun ⟨_, bounded⟩ => ?_⟩
      exact absurd (bounded first (List.mem_cons_self ..)) (Nat.not_lt_of_le overflow)
    · have begun : first.start = covered := by omega
      rw [if_neg gap, if_neg overlap, if_neg overflow, ih, List.forall_mem_cons]
      constructor
      · rintro ⟨tiles, others⟩
        exact ⟨⟨begun, tiles⟩, Nat.lt_of_not_le overflow, others⟩
      · rintro ⟨⟨_, tiles⟩, _, others⟩
        exact ⟨tiles, others⟩

/-- What a plan guarantees. -/
theorem Plan.ofDeltas_eq_ok {deltas : List Delta} {plan : Plan}
    (planned : Plan.ofDeltas deltas = .ok plan) :
    plan.deltas.Perm (deltas.filter fun delta => !delta.isEmpty) ∧
      Delta.Tiles 0 plan.deltas plan.targetLength := by
  unfold Plan.ofDeltas at planned
  cases covers : Plan.cover 0 (Delta.inTargetOrder (deltas.filter fun delta => !delta.isEmpty)) with
  | error error => simp [covers, bind, Except.bind] at planned
  | ok total =>
    simp only [covers, bind, Except.bind, pure, Except.pure, Except.ok.injEq] at planned
    subst planned
    exact ⟨Delta.perm_inTargetOrder _, (Plan.cover_eq_ok_iff.1 covers).1⟩

/-- Deltas that stand in a chain without empty ones are a plan as they are. -/
theorem Plan.ofDeltas_of_tiles {deltas : List Delta} {total : Nat}
    (tiles : Delta.Tiles 0 deltas total) (small : total < UInt64.size)
    (something : ∀ delta ∈ deltas, delta.isEmpty = false) :
    Plan.ofDeltas deltas = .ok ⟨deltas, total⟩ := by
  have kept : deltas.filter (fun delta => !delta.isEmpty) = deltas :=
    List.filter_eq_self.2 fun delta among => by rw [something delta among]; rfl
  have bounded : ∀ delta ∈ deltas, delta.stop < UInt64.size :=
    fun delta among => Nat.lt_of_le_of_lt (tiles.within delta among).2 small
  have covers := Plan.cover_eq_ok_iff.2 ⟨tiles, bounded⟩
  unfold Plan.ofDeltas
  rw [kept, tiles.inTargetOrder_eq]
  simp only [covers]
  rfl

/-- No delta of a plan is empty. -/
theorem Plan.length_pos {deltas : List Delta} {plan : Plan}
    (planned : Plan.ofDeltas deltas = .ok plan) : ∀ delta ∈ plan.deltas, 0 < delta.length := by
  intro delta among
  have kept := (List.mem_filter.1 ((Plan.ofDeltas_eq_ok planned).1.mem_iff.1 among)).2
  simp only [Delta.isEmpty, Bool.not_eq_true', beq_eq_false_iff_ne] at kept
  omega

end Rebuild

end BlockDelta
