import BlockDelta.Proofs.Delta.Partition
import BlockDelta.Proofs.Strict.Decoding

/-!
# What the check of a tiling decides

The check puts deltas in target order and follows how far they reach. It passes
exactly the lists, in whatever order, that give every byte of the target to one
delta, with none that is empty or reaches behind the end. Where it stops before
that, the deltas in front of this place cover the target exactly up to there,
and the error says what is wrong behind them: a byte that no delta has, a byte
that two have, an empty delta, or bytes behind the end.
-/

namespace BlockDelta

namespace Delta

/-- Every byte of a target of this length lies in exactly one of the deltas, and each of them lies
in the target and has a byte of it. -/
structure ExactCover (deltas : List Delta) (length : Nat) : Prop where
  /-- No delta is empty. -/
  filled : ∀ delta ∈ deltas, 0 < delta.length
  /-- No delta reaches behind the end. -/
  inside : ∀ delta ∈ deltas, delta.stop ≤ length
  /-- Every byte lies in one delta. -/
  once : ∀ offset < length, deltas.countP (covers offset) = 1

end Delta

/-- What the cause says of deltas and of the length of their target is so. -/
def TilingError.Truthful (deltas : List Delta) (length : Nat) : TilingError → Prop
  | .gap start stop => start < stop ∧
      (∀ offset, start ≤ offset → offset < stop → deltas.countP (Delta.covers offset) = 0) ∧
      ∃ before after, Delta.inTargetOrder deltas = before ++ after ∧
        Delta.ExactCover before start ∧ after.head?.elim length Delta.start = stop
  | .overlap offset covered => offset < covered ∧ 2 ≤ deltas.countP (Delta.covers offset) ∧
      ∃ before delta after, Delta.inTargetOrder deltas = before ++ delta :: after ∧
        Delta.ExactCover before covered ∧ delta.start = offset
  | .empty offset => ∃ delta ∈ deltas, delta.length = 0 ∧ delta.start = offset
  | .overrun expected covered =>
    expected = length ∧ length < covered ∧ Delta.ExactCover deltas covered

namespace Delta

variable {start length : Nat} {deltas others before after : List Delta} {delta : Delta}
  {error : TilingError}

/-- A delta is not empty when it has a byte. -/
theorem isEmpty_eq_false_iff : delta.isEmpty = false ↔ 0 < delta.length := by
  rw [isEmpty, beq_eq_false_iff_ne, Nat.pos_iff_ne_zero]

/-- Deltas of which none is empty cover a target exactly when they partition it. -/
theorem exactCover_iff :
    ExactCover deltas length ↔
      Partition deltas length ∧ ∀ delta ∈ deltas, delta.isEmpty = false := by
  constructor
  · intro cover
    exact ⟨⟨fun delta among _ => cover.inside delta among, cover.once⟩,
      fun delta among => isEmpty_eq_false_iff.2 (cover.filled delta among)⟩
  · rintro ⟨partition, something⟩
    exact ⟨fun delta among => isEmpty_eq_false_iff.1 (something delta among),
      fun delta among => partition.inside delta among (something delta among), partition.once⟩

/-- The order of the deltas does not matter. -/
theorem ExactCover.perm (cover : ExactCover deltas length) (same : deltas.Perm others) :
    ExactCover others length := by
  obtain ⟨partition, something⟩ := exactCover_iff.1 cover
  exact exactCover_iff.2 ⟨partition.perm same,
    fun delta among => something delta (same.mem_iff.2 among)⟩

/-- A chain from the start of a target without empty deltas covers it exactly. -/
theorem Tiles.exactCover (tiles : Tiles 0 deltas length)
    (something : ∀ delta ∈ deltas, delta.isEmpty = false) : ExactCover deltas length :=
  exactCover_iff.2 ⟨tiles.partition, something⟩

/-- The check passes the deltas that cover the target exactly, and no others. -/
theorem checkTiling_eq_ok_iff :
    checkTiling deltas length = .ok () ↔ ExactCover deltas length := by
  constructor
  · intro checked
    obtain ⟨tiles, something⟩ := tiles_of_checkTiling checked
    have filled : ∀ delta ∈ inTargetOrder deltas, delta.isEmpty = false :=
      fun delta among => something delta ((perm_inTargetOrder deltas).mem_iff.1 among)
    exact (tiles.exactCover filled).perm (perm_inTargetOrder deltas)
  · intro cover
    obtain ⟨partition, something⟩ :=
      exactCover_iff.1 (cover.perm (perm_inTargetOrder deltas).symm)
    have tiles := partition.tiles (pairwise_inTargetOrder deltas) something
    have passed := tiles.checkTiling_eq something
    unfold checkTiling at passed ⊢
    rwa [tiles.inTargetOrder_eq] at passed

/-- What stops the check on its way: the deltas in front of one stand in a chain without empty ones,
and this one is empty, or it starts where the chain has not come or where it has already been. -/
theorem exists_of_coverFrom_eq_error (failed : coverFrom start deltas = .error error) :
    ∃ before delta after covered, deltas = before ++ delta :: after ∧
      Tiles start before covered ∧ (∀ delta ∈ before, delta.isEmpty = false) ∧
      (delta.isEmpty = true ∧ error = .empty delta.start ∨
        covered < delta.start ∧ error = .gap covered delta.start ∨
        delta.isEmpty = false ∧ delta.start < covered ∧
          error = .overlap delta.start covered) := by
  induction deltas generalizing start with
  | nil => cases failed
  | cons first rest ih =>
    unfold coverFrom at failed
    split at failed
    · rename_i empty
      cases failed
      exact ⟨[], first, rest, start, rfl, rfl, List.forall_mem_nil _, .inl ⟨empty, rfl⟩⟩
    rename_i something
    rw [Bool.not_eq_true] at something
    split at failed
    · rename_i gap
      cases failed
      exact ⟨[], first, rest, start, rfl, rfl, List.forall_mem_nil _, .inr (.inl ⟨gap, rfl⟩)⟩
    split at failed
    · rename_i overlap
      cases failed
      exact ⟨[], first, rest, start, rfl, rfl, List.forall_mem_nil _,
        .inr (.inr ⟨something, overlap, rfl⟩)⟩
    · obtain ⟨before, delta, after, covered, rfl, tiles, filled, cause⟩ := ih failed
      have begun : first.start = start := by omega
      exact ⟨first :: before, delta, after, covered, rfl, ⟨begun, tiles⟩,
        List.forall_mem_cons.2 ⟨something, filled⟩, cause⟩

/-- What stops the check: a delta on its way, or an end of all deltas that is not the target's. -/
theorem checkTiling_eq_error (failed : checkTiling deltas length = .error error) :
    coverFrom 0 (inTargetOrder deltas) = .error error ∨
      ∃ covered, coverFrom 0 (inTargetOrder deltas) = .ok covered ∧
        (covered < length ∧ error = .gap covered length ∨
          length < covered ∧ error = .overrun length covered) := by
  unfold checkTiling at failed
  cases covers : coverFrom 0 (inTargetOrder deltas) with
  | error cause =>
    rw [covers] at failed
    cases failed
    exact .inl rfl
  | ok covered =>
    rw [covers] at failed
    refine .inr ⟨covered, rfl, ?_⟩
    simp only [bind, Except.bind] at failed
    split at failed
    · rename_i short
      cases failed
      exact .inl ⟨short, rfl⟩
    split at failed
    · rename_i long
      cases failed
      exact .inr ⟨long, rfl⟩
    · cases failed

/-- No byte behind the deltas lies in one of them. -/
theorem countP_covers_of_le {offset : Nat} (before : ∀ delta ∈ deltas, delta.stop ≤ offset) :
    deltas.countP (covers offset) = 0 := by
  refine List.countP_eq_zero.2 fun delta among covered => ?_
  exact Nat.not_lt_of_le (before delta among) ((covers_iff ..).1 covered).2

/-- Between deltas that cover the target up to a place and deltas that start further on, a gap is
what it says. -/
theorem truthful_gap {covered stop : Nat} (gap : covered < stop)
    (split : inTargetOrder deltas = before ++ after) (cover : ExactCover before covered)
    (further : ∀ delta ∈ after, stop ≤ delta.start)
    (next : after.head?.elim length Delta.start = stop) :
    TilingError.Truthful deltas length (.gap covered stop) := by
  refine ⟨gap, fun offset behind inside => ?_, before, after, split, cover, next⟩
  have front := countP_covers_of_le fun delta among =>
    Nat.le_trans (cover.inside delta among) behind
  have back := countP_covers_of_lt fun delta among =>
    Nat.lt_of_lt_of_le inside (further delta among)
  rw [← (perm_inTargetOrder deltas).countP_eq, split, List.countP_append, front, back]

/-- A delta that is not empty and starts where the target is covered has a byte in common with those
in front of it. -/
theorem truthful_overlap {covered : Nat} (overlap : delta.start < covered)
    (split : inTargetOrder deltas = before ++ delta :: after) (cover : ExactCover before covered)
    (something : delta.isEmpty = false) :
    TilingError.Truthful deltas length (.overlap delta.start covered) := by
  refine ⟨overlap, ?_, before, delta, after, split, cover, rfl⟩
  have filled := isEmpty_eq_false_iff.1 something
  have own : delta.covers delta.start = true := by
    refine (covers_iff ..).2 ⟨Nat.le_refl _, ?_⟩
    unfold stop
    omega
  rw [← (perm_inTargetOrder deltas).countP_eq, split, List.countP_append,
    cover.once delta.start overlap, List.countP_cons_of_pos own]
  omega

/-- What the check says of deltas that it does not pass is so. -/
theorem truthful_of_checkTiling (failed : checkTiling deltas length = .error error) :
    error.Truthful deltas length := by
  have ordered := pairwise_inTargetOrder deltas
  rcases checkTiling_eq_error failed with stopped | ⟨covered, passed, ended⟩
  · obtain ⟨before, delta, after, covered, split, tiles, filled, cause⟩ :=
      exists_of_coverFrom_eq_error stopped
    have cover := tiles.exactCover filled
    rcases cause with ⟨empty, rfl⟩ | ⟨gap, rfl⟩ | ⟨something, overlap, rfl⟩
    · have among : delta ∈ inTargetOrder deltas := by
        rw [split]
        exact List.mem_append_right _ (List.mem_cons_self ..)
      exact ⟨delta, (perm_inTargetOrder deltas).mem_iff.1 among, beq_iff_eq.1 empty, rfl⟩
    · rw [split] at ordered
      have later := (List.pairwise_cons.1 (List.pairwise_append.1 ordered).2.1).1
      exact truthful_gap gap split cover
        (List.forall_mem_cons.2 ⟨Nat.le_refl _, later⟩) rfl
    · exact truthful_overlap overlap split cover something
  · obtain ⟨tiles, filled⟩ := coverFrom_eq_ok_iff.1 passed
    have cover := tiles.exactCover filled
    rcases ended with ⟨short, rfl⟩ | ⟨long, rfl⟩
    · exact truthful_gap short (List.append_nil _).symm cover (List.forall_mem_nil _) rfl
    · exact ⟨rfl, long, cover.perm (perm_inTargetOrder deltas)⟩

end Delta

namespace Script

/-- Deltas in any order, as a script, tile a target exactly when none of them is empty, all of them
lie inside it, and each of its bytes lies in one of them. Otherwise the check says what is wrong,
and this is so. When the deltas are together as long as a word can say, both the totals and the
check are computed in words without a sum that is none. -/
theorem checkTiling_decides (deltas : List Delta) (length : Nat) :
    ((ofDeltas deltas).checkTiling length = .ok () ↔ Delta.ExactCover deltas length) ∧
      (∀ error, (ofDeltas deltas).checkTiling length = .error error →
        error.Truthful deltas length) ∧
      (Delta.totalLength deltas < UInt64.size →
        Strict.ofDeltas deltas = .ok (ofDeltas deltas) ∧
          Strict.checkTiling (ofDeltas deltas) length =
            Strict.reported ((ofDeltas deltas).checkTiling length)) := by
  have plain : (ofDeltas deltas).checkTiling length = Delta.checkTiling deltas length := by
    rw [checkTiling, deltas_ofDeltas]
  refine ⟨?_, fun error failed => ?_, fun fits => ?_⟩
  · rw [plain]
    exact Delta.checkTiling_eq_ok_iff
  · rw [plain] at failed
    exact Delta.truthful_of_checkTiling failed
  · exact ⟨Strict.ofDeltas_eq_ok fits, Strict.checkTiling_eq fits length⟩

/-- A copy and a literal in front of it cover ten bytes. A literal before a gap, a copy into what is
written already, an empty delta, and a target that is too short are found out. -/
theorem checkTiling_decides_unordered :
    let whole : List Delta := [.copy 0 2 8, .literal 0 [7, 7]]
    let apart : List Delta := [.literal 3 [7], .literal 0 [7, 7]]
    let crossed : List Delta := [.literal 0 [7, 7, 7], .copy 0 2 2]
    Delta.ExactCover whole 10 ∧
      Strict.checkTiling (ofDeltas whole) 10 = .ok () ∧
      (TilingError.gap 2 3).Truthful apart 4 ∧
      (TilingError.overlap 2 3).Truthful crossed 4 ∧
      (TilingError.empty 10).Truthful (.literal 10 [] :: whole) 10 ∧
      (TilingError.overrun 9 10).Truthful whole 9 := by
  intro whole apart crossed
  have passed : (ofDeltas whole).checkTiling 10 = .ok () := by cbv
  have gap : (ofDeltas apart).checkTiling 4 = .error (.gap 2 3) := by cbv
  have overlap : (ofDeltas crossed).checkTiling 4 = .error (.overlap 2 3) := by cbv
  have empty : (ofDeltas (.literal 10 [] :: whole)).checkTiling 10 = .error (.empty 10) := by cbv
  have overrun : (ofDeltas whole).checkTiling 9 = .error (.overrun 9 10) := by cbv
  obtain ⟨covered, -, plain⟩ := checkTiling_decides whole 10
  have strict := (plain (by decide)).2
  rw [passed] at strict
  exact ⟨covered.1 passed, strict, (checkTiling_decides apart 4).2.1 _ gap,
    (checkTiling_decides crossed 4).2.1 _ overlap, (checkTiling_decides _ 10).2.1 _ empty,
    (checkTiling_decides whole 9).2.1 _ overrun⟩

end Script

end BlockDelta
