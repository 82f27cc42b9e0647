import BlockDelta.Proofs.Schedule.Safety
import BlockDelta.Proofs.Strict.Conflicts

/-!
# Comparing all pairs of copies finds the same conflicts

Conflicts can be found without a sorted list, bounds or bisection: every copy
is compared with every other one, and those are listed that read an offset
which it writes. The search looks only at reads that start near a write. Its
lists ascend, as those of the comparison do, and a list that ascends is known
by what is in it. So both make the same lists.
-/

namespace BlockDelta

/-- A write and a read share an offset when the later start is before the earlier end. -/
instance (writer reader : CopySpan) : Decidable (writer.writes ∩ reader.reads).Nonempty :=
  decidable_of_iff (max writer.target reader.source < min writer.writeStop reader.readStop) <| by
    rw [CopySpan.writes, CopySpan.reads, Set.Ico_inter_Ico, Set.nonempty_Ico]

namespace Schedule

/-- The conflicts of a copy, found by comparing it with all copies in turn. -/
def comparedWith (spans : List CopySpan) (writing : CopySpan) (writer : Nat) : List Nat :=
  (spans.zipIdx.filter fun (reading, reader) =>
    reader ≠ writer ∧ 0 < writing.length ∧ 0 < reading.length ∧
      (writing.writes ∩ reading.reads).Nonempty).map Prod.snd

/-- The conflicts of every copy, found by comparing all pairs. -/
def comparedInPairs (spans : List CopySpan) : List (List Nat) :=
  spans.zipIdx.map fun (writing, writer) => comparedWith spans writing writer

variable {spans : List CopySpan} {writing : CopySpan} {writer reader : Nat}

/-- A comparison lists the other copies that read what is written. -/
theorem mem_comparedWith :
    reader ∈ comparedWith spans writing writer ↔
      ∃ reading, spans[reader]? = some reading ∧ reader ≠ writer ∧ 0 < writing.length ∧
        0 < reading.length ∧ (writing.writes ∩ reading.reads).Nonempty := by
  unfold comparedWith
  simp only [List.mem_map, List.mem_filter, decide_eq_true_eq, Prod.exists, exists_eq_right,
    List.mk_mem_zipIdx_iff_getElem?]

/-- A comparison lists copies in ascending order, since it meets them so. -/
theorem sortedLT_comparedWith (spans : List CopySpan) (writing : CopySpan) (writer : Nat) :
    (comparedWith spans writing writer).SortedLT := by
  have met : (spans.zipIdx.map Prod.snd).SortedLT := by
    rw [List.zipIdx_map_snd]
    exact List.sortedLT_range' _ _ Nat.one_ne_zero
  exact (met.pairwise.sublist (List.filter_sublist.map Prod.snd)).sortedLT

/-- The conflicts of a copy are the copies that comparing it with all finds. -/
theorem clobbers_iff_mem_comparedWith (known : spans[writer]? = some writing) :
    Clobbers spans writer reader ↔ reader ∈ comparedWith spans writing writer := by
  rw [mem_comparedWith]
  constructor
  · rintro ⟨other, written, reading, writes, reads, shared⟩
    cases known.symm.trans writes
    obtain ⟨something, anything, -⟩ := (CopySpan.inter_nonempty_iff ..).1 shared
    exact ⟨reading, reads, Ne.symm other, something, anything, shared⟩
  · rintro ⟨reading, reads, other, -, -, shared⟩
    exact ⟨Ne.symm other, writing, reading, known, reads, shared⟩

/-- The search lists for a copy what comparing it with all copies lists. -/
theorem conflictsOf_eq_comparedWith (known : spans[writer]? = some writing) :
    conflictsOf spans.toArray (byRead spans.toArray) (longest spans.toArray) writer =
      comparedWith spans writing writer := by
  have inside : writer < spans.toArray.size := (List.getElem?_eq_some_iff.1 known).1
  refine (sortedLT_conflictsOf ..).eq_of_mem_iff (sortedLT_comparedWith ..) fun reader => ?_
  rw [mem_conflictsOf _ _ _ inside, conflict_iff_clobbers, clobbers_iff_mem_comparedWith known]

/-- The search and the comparison of all pairs make the same lists. -/
theorem conflicts_eq_toArray (spans : List CopySpan) :
    conflicts spans.toArray = (comparedInPairs spans).toArray := by
  -- the search counts the copies, and the comparison meets them with their numbers
  have numbers : List.range spans.toArray.size = spans.zipIdx.map Prod.snd := by
    rw [List.zipIdx_map_snd, List.range_eq_range', List.size_toArray]
  have lists : (List.range spans.toArray.size).map
      (conflictsOf spans.toArray (byRead spans.toArray) (longest spans.toArray)) =
        comparedInPairs spans := by
    rw [numbers, List.map_map]
    refine List.map_congr_left fun (writing, writer) met => ?_
    exact conflictsOf_eq_comparedWith (List.mk_mem_zipIdx_iff_getElem?.1 met)
  exact congrArg List.toArray lists

/-- What is listed for a copy. -/
theorem getElem?_comparedInPairs (known : writer < spans.length) :
    (comparedInPairs spans)[writer]? = some (comparedWith spans spans[writer] writer) := by
  rw [comparedInPairs, List.getElem?_map, List.getElem?_zipIdx, List.getElem?_eq_getElem known]
  simp only [Option.map_some, Nat.zero_add]

/-- For every list of copies, the search for conflicts makes the lists that comparing all pairs
makes. That of a copy ascends, and it holds just the other copies that read an offset which the copy
writes, where neither of the two is empty. As long as the ends of the copies are words, no step of
the search goes wrong. -/
theorem conflicts_eq_comparedInPairs (spans : List CopySpan) :
    conflicts spans.toArray = (comparedInPairs spans).toArray ∧
    (∀ writer (known : writer < spans.length), ∃ listed,
      (conflicts spans.toArray)[writer]? = some listed ∧
      (listed.Pairwise fun earlier later => earlier < later) ∧
      ∀ reader, reader ∈ listed ↔ ∃ there : reader < spans.length,
        reader ≠ writer ∧ 0 < spans[writer].length ∧ 0 < spans[reader].length ∧
          (spans[writer].writes ∩ spans[reader].reads).Nonempty) ∧
    ((∀ span ∈ spans, span.Addressed) →
      Strict.conflicts spans.toArray = .ok (comparedInPairs spans).toArray) := by
  refine ⟨conflicts_eq_toArray spans, fun writer known => ?_, fun addressed => ?_⟩
  · have found : (conflicts spans.toArray)[writer]? =
        some (comparedWith spans spans[writer] writer) := by
      rw [conflicts_eq_toArray, List.getElem?_toArray, getElem?_comparedInPairs known]
    refine ⟨_, found, (sortedLT_comparedWith ..).pairwise, fun reader => ?_⟩
    rw [mem_comparedWith]
    constructor
    · rintro ⟨reading, reads, conflicting⟩
      obtain ⟨there, rfl⟩ := List.getElem?_eq_some_iff.1 reads
      exact ⟨there, conflicting⟩
    · rintro ⟨there, conflicting⟩
      exact ⟨spans[reader], List.getElem?_eq_getElem there, conflicting⟩
  · rw [← conflicts_eq_toArray]
    exact Strict.conflicts_eq_ok (by simpa using addressed)

/-- Of two long reads, one reaches the single byte that a copy writes with its last byte, and the
other one ends just before it; a short read stands behind both. One copy writes at the start of the
file, where there is no room for the longest copy in front of it, and one is empty. -/
theorem conflicts_eq_comparedInPairs_reached :
    let spans : List CopySpan := [⟨3, 19, 10⟩, ⟨2, 21, 10⟩, ⟨30, 1, 2⟩, ⟨5, 25, 0⟩, ⟨21, 12, 1⟩]
    (∀ span ∈ spans, span.Addressed) ∧
      conflicts spans.toArray = #[[4], [2, 4], [1], [], [0]] ∧
      Strict.conflicts spans.toArray = .ok #[[4], [2, 4], [1], [], [0]] := by
  intro spans
  have reads : ∀ span ∈ spans, span.readStop < UInt64.size := by decide
  have writes : ∀ span ∈ spans, span.writeStop < UInt64.size := by decide
  have addressed : ∀ span ∈ spans, span.Addressed := fun span among =>
    ⟨reads span among, writes span among⟩
  have compared : comparedInPairs spans = [[4], [2, 4], [1], [], [0]] := by decide
  obtain ⟨plain, -, strict⟩ := conflicts_eq_comparedInPairs spans
  rw [compared] at plain strict
  exact ⟨addressed, plain, strict addressed⟩

end Schedule

end BlockDelta
