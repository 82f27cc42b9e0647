import BlockDelta.Proofs.Schedule.Conflicts
import BlockDelta.Proofs.Strict.Traps

/-!
# Finding conflicts does not go wrong

Copies are looked up by number, and the numbers that are looked up are those of
the copies that read something. Where a copy stops is a word because the copy
was planned. The range that bisection finds is one: what starts before the
lower bound starts before the upper one.
-/

namespace BlockDelta

/-- The ends of a span are words. -/
structure CopySpan.Addressed (span : CopySpan) : Prop where
  /-- The read ends at a word. -/
  readStop : span.readStop < UInt64.size
  /-- The write ends at a word. -/
  writeStop : span.writeStop < UInt64.size

namespace Schedule

variable {spans : Array CopySpan} {items : Array Nat}

/-- What stands at a place is one of the items. -/
theorem getD_mem {place : Nat} (known : place < items.size) : items.getD place 0 ∈ items := by
  rw [← Array.getElem_eq_getD (h := known)]
  exact Array.getElem_mem known

/-- Of spans whose ends are words, each number leads to such a span; one that leads to none leads
to the empty span at the start. -/
theorem addressed_getD (addressed : ∀ span ∈ spans, span.Addressed) (number : Nat) :
    (spans.getD number default).Addressed := by
  by_cases inside : number < spans.size
  · rw [← Array.getElem_eq_getD (h := inside)]
    exact addressed _ (Array.getElem_mem inside)
  · rw [Array.getD_eq_getD_getElem?, Array.getElem?_eq_none (by omega)]
    exact ⟨by decide, by decide⟩

/-- Bisection stays where it is told to look. -/
theorem bisect_le (items : Array Nat) (before : Nat → Bool) {low high : Nat}
    (ordered : low ≤ high) : bisect items before low high ≤ high := by
  fun_induction bisect items before low high with
  | case1 low high more middle earlier ih => exact ih (by omega)
  | case2 low high more middle later ih => exact Nat.le_trans (ih (by omega)) (by omega)
  | case3 low high done => exact ordered

/-- No more items lie before a point than there are. -/
theorem countBefore_le (items : Array Nat) (before : Nat → Bool) :
    countBefore items before ≤ items.size := bisect_le items before (Nat.zero_le _)

/-- A lower bound has no more items before it. -/
theorem countBefore_mono {lower upper : Nat → Bool} (divided : Divided items lower)
    (dividedUpper : Divided items upper)
    (mono : ∀ number, lower number = true → upper number = true) :
    countBefore items lower ≤ countBefore items upper := by
  by_contra beyond
  have within := countBefore_le items lower
  have inside : countBefore items upper < items.size := by omega
  have early := (lt_countBefore_iff divided inside).1 (by omega)
  exact Nat.lt_irrefl _ ((lt_countBefore_iff dividedUpper inside).2 (mono _ early))

/-- No copy has more conflicts than there are copies. -/
theorem length_conflictsOf_le (most writer : Nat) :
    (conflictsOf spans (byRead spans) most writer).length ≤ spans.size := by
  unfold conflictsOf
  simp only []
  split
  · exact Nat.zero_le _
  · rw [List.length_mergeSort]
    refine Nat.le_trans (List.length_filter_le ..) ?_
    rw [Array.length_toList, Array.size_extract]
    have reads : (byRead spans).size ≤ spans.size := by
      rw [byRead, List.size_toArray, List.length_mergeSort]
      exact Nat.le_trans (List.length_filter_le ..) (Nat.le_of_eq List.length_range)
    omega

end Schedule

namespace Strict

open Schedule

variable {spans : Array CopySpan}

/-- Where the read ends. -/
def readStop (span : CopySpan) : Except Trap Nat := do
  noOverflow span.source span.length
  return span.readStop

/-- Where the write ends. -/
def writeStop (span : CopySpan) : Except Trap Nat := do
  noOverflow span.target span.length
  return span.writeStop

/-- Writing the first span overwrites bytes that the second one reads. Where the write ends is
asked for only when it begins before the read ends. -/
def overwrites (writer reader : CopySpan) : Except Trap Bool := do
  if writer.target < (← readStop reader) then
    return decide (reader.source < (← writeStop writer))
  else return false

/-- The first place, between two, whose item is not before a point. -/
def bisect (items : Array Nat) (before : Nat → Except Trap Bool) (low high : Nat) :
    Except Trap Nat :=
  if low < high then do
    let middle := (low + high) / 2
    let item ← entry items middle 0
    if ← before item then bisect items before (middle + 1) high
    else bisect items before low middle
  else return low
termination_by high - low
decreasing_by all_goals omega

/-- How many items at the front of a sorted list lie before a point. -/
def countBefore (items : Array Nat) (before : Nat → Except Trap Bool) : Except Trap Nat :=
  bisect items before 0 items.size

/-- The numbers of the copies that read something, by where they read. Sorting them looks each of
them up. -/
def byRead (spans : Array CopySpan) : Except Trap (Array Nat) := do
  let reading ← filterEach (fun i => do return 0 < (← entry spans i default).length)
    (List.range spans.size)
  reading.forM fun i => inside i spans.size
  return (reading.mergeSort fun i j =>
    (spans.getD i default).source ≤ (spans.getD j default).source).toArray

/-- A copy starts to read before a point. -/
def startsBefore (spans : Array CopySpan) (point : Except Trap Nat) (number : Nat) :
    Except Trap Bool := do
  return (← entry spans number default).source < (← point)

/-- The copies whose sources a copy overwrites. The lower bound is a difference that stops at
zero. -/
def conflictsOf (spans : Array CopySpan) (reads : Array Nat) (longest : Nat) (writer : Nat) :
    Except Trap (List Nat) := do
  let span ← entry spans writer default
  if span.length = 0 then return []
  else
    let first ← countBefore reads (startsBefore spans (.ok (span.target - longest)))
    let last ← countBefore reads (startsBefore spans (writeStop span))
    slice first last reads.size
    let found ← filterEach (fun reader => do
      if reader = writer then return false
      else overwrites span (← entry spans reader default)) (reads.extract first last).toList
    return found.mergeSort fun i j => i ≤ j

/-- The conflicts of every copy. The length of the longest is found among those that read. -/
def conflicts (spans : Array CopySpan) : Except Trap (Array (List Nat)) := do
  let reads ← byRead spans
  reads.toList.forM fun i => inside i spans.size
  let lists ← (List.range spans.size).mapM (conflictsOf spans reads (longest spans))
  return lists.toArray

/-- Whether a span overwrites another is decided without trouble when their ends are words. -/
theorem overwrites_eq_ok {writer reader : CopySpan} (write : writer.Addressed)
    (read : reader.Addressed) : overwrites writer reader = .ok (writer.overwrites reader) := by
  unfold overwrites readStop writeStop CopySpan.overwrites
  rw [noOverflow_eq_ok read.readStop, noOverflow_eq_ok write.writeStop]
  by_cases reached : writer.target < reader.readStop <;> simp [reached, pure, Except.pure]

/-- Bisection looks only at items there are, with a point that is decided for each. -/
theorem bisect_eq_ok {items : Array Nat} {before : Nat → Except Trap Bool} {plain : Nat → Bool}
    (each : ∀ item ∈ items, before item = .ok (plain item)) {low high : Nat}
    (within : high ≤ items.size) :
    bisect items before low high = .ok (Schedule.bisect items plain low high) := by
  fun_induction Schedule.bisect items plain low high with
  | case1 low high more middle earlier ih =>
    have known : (low + high) / 2 < items.size := by omega
    unfold bisect
    simp only [if_pos more, entry_eq_ok known, ok_bind, each _ (getD_mem known)]
    rw [if_pos earlier]
    exact ih within
  | case2 low high more middle later ih =>
    have known : (low + high) / 2 < items.size := by omega
    unfold bisect
    simp only [if_pos more, entry_eq_ok known, ok_bind, each _ (getD_mem known)]
    rw [if_neg later]
    exact ih (by omega)
  | case3 low high done =>
    unfold bisect
    rw [if_neg done]
    rfl

/-- The copies that read something are sorted without trouble. -/
theorem byRead_eq_ok (spans : Array CopySpan) : byRead spans = .ok (Schedule.byRead spans) := by
  have reading : filterEach (fun i => do return 0 < (← entry spans i default).length)
      (List.range spans.size) =
        .ok ((List.range spans.size).filter fun i => 0 < (spans.getD i default).length) := by
    refine filterEach_eq_ok fun number among => ?_
    rw [entry_eq_ok (List.mem_range.1 among)]
    rfl
  rw [byRead, reading, ok_bind, forM_eq_ok]
  · rfl
  · exact fun number among => inside_eq_ok (List.mem_range.1 (List.mem_filter.1 among).1)

/-- A copy that reads something is one of the copies. -/
theorem entry_of_mem_byRead {number : Nat} (reading : number ∈ Schedule.byRead spans) :
    entry spans number default = .ok (spans.getD number default) :=
  entry_eq_ok ((mem_byRead spans number).1 reading).1

/-- The reads before a point that is known are counted without trouble. -/
theorem countBefore_eq_ok {point : Except Trap Nat} {bound : Nat} (known : point = .ok bound) :
    countBefore (Schedule.byRead spans) (startsBefore spans point) =
      .ok (Schedule.countBefore (Schedule.byRead spans) fun i =>
        (spans.getD i default).source < bound) := by
  refine bisect_eq_ok (fun number reading => ?_) (Nat.le_refl _)
  rw [startsBefore, entry_of_mem_byRead reading, known]
  rfl

/-- The conflicts of a copy are found without trouble. -/
theorem conflictsOf_eq_ok (addressed : ∀ span ∈ spans, span.Addressed) (most : Nat) {writer : Nat}
    (known : writer < spans.size) :
    conflictsOf spans (Schedule.byRead spans) most writer =
      .ok (Schedule.conflictsOf spans (Schedule.byRead spans) most writer) := by
  have bounded := addressed_getD addressed
  unfold conflictsOf Schedule.conflictsOf
  rw [entry_eq_ok known, ok_bind]
  by_cases idle : (spans.getD writer default).length = 0
  · rw [if_pos idle, if_pos idle]
    rfl
  have stop :
      writeStop (spans.getD writer default) = .ok (spans.getD writer default).writeStop := by
    rw [writeStop, noOverflow_eq_ok (bounded writer).writeStop]
    rfl
  have ordered := countBefore_mono
    (divided_byRead spans ((spans.getD writer default).target - most))
    (divided_byRead spans (spans.getD writer default).writeStop) fun i early => by
      unfold CopySpan.writeStop
      simp only [decide_eq_true_eq] at early ⊢
      omega
  rw [if_neg idle, if_neg idle, countBefore_eq_ok rfl, ok_bind, countBefore_eq_ok stop, ok_bind,
    slice_eq_ok ordered (countBefore_le ..), ok_bind, filterEach_eq_ok]
  · rfl
  intro reader among
  have reading : reader ∈ Schedule.byRead spans := (mem_extract_byRead_iff.1 among).1
  by_cases same : reader = writer
  · rw [if_pos same, same, bne_self_eq_false]
    rfl
  · rw [if_neg same, entry_of_mem_byRead reading, ok_bind, bne_iff_ne.2 same]
    exact overwrites_eq_ok (bounded writer) (bounded reader)

/-- The conflicts of copies whose ends are words are found without trouble. -/
theorem conflicts_eq_ok (addressed : ∀ span ∈ spans, span.Addressed) :
    conflicts spans = .ok (Schedule.conflicts spans) := by
  unfold conflicts
  rw [byRead_eq_ok, ok_bind, forM_eq_ok, ok_bind, mapM_eq_ok]
  · rfl
  · exact fun writer among => conflictsOf_eq_ok addressed _ (List.mem_range.1 among)
  · intro number among
    exact inside_eq_ok ((mem_byRead spans number).1 (Array.mem_toList_iff.1 among)).1

end Strict

end BlockDelta
