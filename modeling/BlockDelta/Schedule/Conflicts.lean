/-!
# Which copies overwrite what others read

When basis and target share a file, a copy may overwrite bytes that another
copy still has to read. The conflict lists name, for every copy, the copies
whose sources its target touches. Candidates are found by bisection among the
reads sorted by their start: a read that reaches a span cannot start earlier
than the longest copy before it.
-/

namespace BlockDelta

/-- A copy within one file. -/
structure CopySpan where
  /-- Where the copy reads. -/
  source : Nat
  /-- Where the copy writes. -/
  target : Nat
  /-- How many bytes it moves. -/
  length : Nat
  deriving DecidableEq, Repr, Inhabited

namespace CopySpan

/-- Where the read ends. -/
def readStop (span : CopySpan) : Nat := span.source + span.length

/-- Where the write ends. -/
def writeStop (span : CopySpan) : Nat := span.target + span.length

/-- Writing the first span overwrites bytes that the second one reads. -/
def overwrites (writer reader : CopySpan) : Bool :=
  decide (writer.target < reader.readStop) && decide (reader.source < writer.writeStop)

end CopySpan

namespace Schedule

/-- The first place from `low` on, below `high`, whose item is not before a
point, in a list whose earlier items are. -/
def bisect (items : Array Nat) (before : Nat → Bool) (low high : Nat) : Nat :=
  if low < high then
    let middle := (low + high) / 2
    if before (items.getD middle 0) then bisect items before (middle + 1) high
    else bisect items before low middle
  else low
termination_by high - low
decreasing_by all_goals omega

/-- How many items at the front of a sorted list lie before a point. -/
def countBefore (items : Array Nat) (before : Nat → Bool) : Nat :=
  bisect items before 0 items.size

/-- The numbers of the copies that read something, by where they read. -/
def byRead (spans : Array CopySpan) : Array Nat :=
  let reading := (List.range spans.size).filter fun i => 0 < (spans.getD i default).length
  (reading.mergeSort fun i j =>
    (spans.getD i default).source ≤ (spans.getD j default).source).toArray

/-- The length of the longest copy. -/
def longest (spans : Array CopySpan) : Nat := spans.foldl (fun most span => max most span.length) 0

/-- The copies whose sources a copy overwrites, in ascending order; a copy is
no conflict of itself. -/
def conflictsOf (spans : Array CopySpan) (reads : Array Nat) (longest : Nat) (writer : Nat) :
    List Nat :=
  let span := spans.getD writer default
  if span.length = 0 then []
  else
    let first := countBefore reads fun i => (spans.getD i default).source < span.target - longest
    let last := countBefore reads fun i => (spans.getD i default).source < span.writeStop
    let found := (reads.extract first last).toList.filter fun reader =>
      reader != writer && span.overwrites (spans.getD reader default)
    found.mergeSort fun i j => i ≤ j

/-- The conflicts of every copy. -/
def conflicts (spans : Array CopySpan) : Array (List Nat) :=
  let reads := byRead spans
  let most := longest spans
  ((List.range spans.size).map (conflictsOf spans reads most)).toArray

end Schedule

end BlockDelta
