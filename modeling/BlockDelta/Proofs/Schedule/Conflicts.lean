import BlockDelta.Schedule.Conflicts
import Mathlib

/-!
# The conflict lists are complete

The search for conflicts looks only at reads that start near the span written.
Bisection finds the exact ends of that range because the reads are sorted, and
the length of the longest copy bounds how far before the span a read that
reaches it can start. So the conflict list of a copy names exactly the copies
whose sources it overwrites, each of them once and in ascending order.
-/

namespace BlockDelta

/-- A write destroys what is read exactly when the two spans share a byte. -/
theorem CopySpan.overwrites_iff (writer reader : CopySpan) :
    writer.overwrites reader = true ↔
      writer.target < reader.readStop ∧ reader.source < writer.writeStop := by
  unfold CopySpan.overwrites
  rw [Bool.and_eq_true, decide_eq_true_eq, decide_eq_true_eq]

namespace Schedule

/-- A point divides the items: those before it stand in front of all others. -/
def Divided (items : Array Nat) (before : Nat → Bool) : Prop :=
  ∀ front back : Nat, front ≤ back → back < items.size →
    before (items.getD back 0) = true → before (items.getD front 0) = true

/-- Bisection ends where the items stop being before the point. -/
theorem lt_bisect_iff {items : Array Nat} {before : Nat → Bool} (divided : Divided items before)
    {low high : Nat} (ordered : low ≤ high) (within : high ≤ items.size)
    (front : ∀ place < low, before (items.getD place 0) = true)
    (back : ∀ place, high ≤ place → place < items.size → before (items.getD place 0) = false)
    {place : Nat} (inside : place < items.size) :
    place < bisect items before low high ↔ before (items.getD place 0) = true := by
  induction left : high - low using Nat.strongRecOn generalizing low high with
  | ind left ih =>
    unfold bisect
    by_cases more : low < high
    · rw [if_pos more]
      simp only []
      by_cases earlier : before (items.getD ((low + high) / 2) 0) = true
      · rw [if_pos earlier]
        refine ih _ (by omega) (by omega) within (fun place below => ?_) back rfl
        exact divided _ _ (by omega) (by omega) earlier
      · rw [if_neg earlier]
        refine ih _ (by omega) (by omega) (by omega) front (fun place above known => ?_) rfl
        exact Bool.eq_false_iff.2 fun claimed => earlier (divided _ _ above known claimed)
    · rw [if_neg more]
      constructor
      · exact front place
      · intro earlier
        by_contra behind
        rw [back place (by omega) inside] at earlier
        cases earlier

/-- The count of the items before a point is the place where they end. -/
theorem lt_countBefore_iff {items : Array Nat} {before : Nat → Bool}
    (divided : Divided items before) {place : Nat} (inside : place < items.size) :
    place < countBefore items before ↔ before (items.getD place 0) = true :=
  lt_bisect_iff divided (Nat.zero_le _) (Nat.le_refl _) (fun _ impossible => by omega)
    (fun _ _ _ => by omega) inside

/-- No copy is longer than the longest. -/
theorem length_le_longest (spans : Array CopySpan) (number : Nat) :
    (spans.getD number default).length ≤ longest spans := by
  have bounded : ∀ (list : List CopySpan) (most : Nat),
      most ≤ list.foldl (fun most span => max most span.length) most ∧
        ∀ span ∈ list, span.length ≤ list.foldl (fun most span => max most span.length) most := by
    intro list
    induction list with
    | nil => simp
    | cons head tail ih =>
      intro most
      obtain ⟨grown, rest⟩ := ih (max most head.length)
      simp only [List.foldl_cons, List.mem_cons, forall_eq_or_imp]
      exact ⟨by omega, by omega, rest⟩
  unfold longest
  rw [← Array.foldl_toList]
  by_cases inside : number < spans.size
  · rw [Array.getD_eq_getD_getElem?, Array.getElem?_eq_getElem inside]
    exact (bounded spans.toList 0).2 _ (by simp)
  · rw [Array.getD_eq_getD_getElem?, Array.getElem?_eq_none (by omega)]
    exact Nat.zero_le _

/-- The reads are the copies that are not empty. -/
theorem mem_byRead (spans : Array CopySpan) (number : Nat) :
    number ∈ byRead spans ↔ number < spans.size ∧ 0 < (spans.getD number default).length := by
  simp [byRead]

/-- The reads stand in the order in which they start. -/
theorem pairwise_byRead (spans : Array CopySpan) :
    (byRead spans).toList.Pairwise fun earlier later =>
      (spans.getD earlier default).source ≤ (spans.getD later default).source := by
  unfold byRead
  let starts (i j : Nat) : Bool := (spans.getD i default).source ≤ (spans.getD j default).source
  have transitive : ∀ i j k, starts i j = true → starts j k = true → starts i k = true := by
    intro i j k
    simp only [starts, decide_eq_true_eq]
    omega
  have total : ∀ i j, (starts i j || starts j i) = true := by
    intro i j
    simp only [starts, Bool.or_eq_true, decide_eq_true_eq]
    omega
  have sorted := List.pairwise_mergeSort transitive total
    ((List.range spans.size).filter fun i => 0 < (spans.getD i default).length)
  simpa [starts] using sorted

/-- A bound on where reads start divides them. -/
theorem divided_byRead (spans : Array CopySpan) (bound : Nat) :
    Divided (byRead spans) fun number => (spans.getD number default).source < bound := by
  intro front back ordered known earlier
  have sorted := List.pairwise_iff_getElem.1 (pairwise_byRead spans)
  simp only [decide_eq_true_eq] at earlier ⊢
  rcases Nat.eq_or_lt_of_le ordered with rfl | before
  · exact earlier
  · have step := sorted front back (by simp; omega) (by simp; omega) before
    simp only [Array.getElem_toList] at step
    rw [← Array.getElem_eq_getD (h := by omega) 0] at earlier ⊢
    exact Nat.lt_of_le_of_lt step earlier

/-- Running the first copy destroys what the second one has to read. -/
def Conflict (spans : Array CopySpan) (writer reader : Nat) : Prop :=
  writer < spans.size ∧ reader < spans.size ∧ writer ≠ reader ∧
    0 < (spans.getD writer default).length ∧ 0 < (spans.getD reader default).length ∧
    (spans.getD writer default).overwrites (spans.getD reader default) = true

/-- The count of a bound divides the places of the reads: those before it start before the bound. -/
theorem lt_countBefore_byRead_iff (spans : Array CopySpan) (bound : Nat) {place : Nat}
    (inside : place < (byRead spans).size) :
    place < countBefore (byRead spans) (fun i => (spans.getD i default).source < bound) ↔
      (spans.getD (byRead spans)[place] default).source < bound := by
  rw [lt_countBefore_iff (divided_byRead spans bound) inside, decide_eq_true_eq,
    ← Array.getElem_eq_getD (h := inside) 0]

/-- Between the counts of two bounds stand the reads that start between the bounds. -/
theorem mem_extract_byRead_iff {spans : Array CopySpan} {lower upper reader : Nat} :
    reader ∈ ((byRead spans).extract
      (countBefore (byRead spans) fun i => (spans.getD i default).source < lower)
      (countBefore (byRead spans) fun i => (spans.getD i default).source < upper)).toList ↔
      reader ∈ byRead spans ∧ lower ≤ (spans.getD reader default).source ∧
        (spans.getD reader default).source < upper := by
  rw [Array.mem_toList_iff, Array.mem_extract_iff_getElem]
  constructor
  · rintro ⟨skipped, short, rfl⟩
    have inside := Nat.lt_of_lt_of_le (Nat.add_lt_of_lt_sub' short) (Nat.min_le_right ..)
    have behind := lt_countBefore_byRead_iff spans lower inside
    have ahead := lt_countBefore_byRead_iff spans upper inside
    exact ⟨Array.getElem_mem inside, by omega, by omega⟩
  · rintro ⟨reading, above, below⟩
    obtain ⟨place, inside, rfl⟩ := Array.mem_iff_getElem.1 reading
    have behind := lt_countBefore_byRead_iff spans lower inside
    have ahead := lt_countBefore_byRead_iff spans upper inside
    exact ⟨place - countBefore (byRead spans) fun i => (spans.getD i default).source < lower,
      by omega, by congr 1; omega⟩

/-- A read that reaches a span starts before its end, and before its start by no more than the
longest copy. -/
theorem starts_near {spans : Array CopySpan} {writer : CopySpan} {reader : Nat}
    (reached : writer.overwrites (spans.getD reader default) = true) :
    writer.target - longest spans ≤ (spans.getD reader default).source ∧
      (spans.getD reader default).source < writer.writeStop := by
  have bounded := length_le_longest spans reader
  rw [CopySpan.overwrites_iff, CopySpan.readStop] at reached
  omega

/-- The conflicts of a copy are the copies that it must not run before. -/
theorem mem_conflictsOf (spans : Array CopySpan) (writer reader : Nat)
    (known : writer < spans.size) :
    reader ∈ conflictsOf spans (byRead spans) (longest spans) writer ↔
      Conflict spans writer reader := by
  unfold conflictsOf Conflict
  by_cases idle : (spans.getD writer default).length = 0
  · rw [if_pos idle]
    constructor
    · intro impossible
      cases impossible
    · intro conflict
      exact absurd idle (Nat.ne_of_gt conflict.2.2.2.1)
  · simp only [idle, if_false, List.mem_mergeSort, List.mem_filter, Bool.and_eq_true, bne_iff_ne,
      ne_eq]
    rw [mem_extract_byRead_iff, mem_byRead]
    constructor
    · rintro ⟨⟨⟨inside, something⟩, -⟩, other, reached⟩
      exact ⟨known, inside, Ne.symm other, Nat.pos_of_ne_zero idle, something, reached⟩
    · rintro ⟨-, inside, other, -, something, reached⟩
      exact ⟨⟨⟨inside, something⟩, starts_near reached⟩, Ne.symm other, reached⟩

/-- No copy stands twice among the reads. -/
theorem nodup_byRead (spans : Array CopySpan) : (byRead spans).toList.Nodup :=
  List.nodup_mergeSort.2 (List.nodup_range.filter _)

/-- The conflicts of a copy are listed in ascending order, and none of them twice. -/
theorem sortedLT_conflictsOf (spans : Array CopySpan) (most writer : Nat) :
    (conflictsOf spans (byRead spans) most writer).SortedLT := by
  unfold conflictsOf
  simp only []
  split
  · exact List.Pairwise.nil.sortedLT
  · -- what is found is a part of the reads
    refine List.sortedLE_mergeSort.sortedLT_of_nodup (List.nodup_mergeSort.2 ?_)
    refine List.Nodup.filter _ ?_
    rw [Array.toList_extract, List.extract_eq_take_drop]
    exact ((nodup_byRead spans).sublist (List.drop_sublist ..)).sublist (List.take_sublist ..)

/-- The conflict list of every copy is exact. -/
theorem mem_conflicts (spans : Array CopySpan) (writer reader : Nat) :
    reader ∈ (conflicts spans).getD writer [] ↔ Conflict spans writer reader := by
  unfold conflicts
  by_cases known : writer < spans.size
  · rw [Array.getD_eq_getD_getElem?, List.getElem?_toArray, List.getElem?_map,
      List.getElem?_range known]
    exact mem_conflictsOf spans writer reader known
  · rw [Array.getD_eq_getD_getElem?, Array.getElem?_eq_none (by simpa using known),
      Option.getD_none]
    constructor
    · intro impossible
      cases impossible
    · intro conflict
      exact absurd conflict.1 known

end Schedule

end BlockDelta
