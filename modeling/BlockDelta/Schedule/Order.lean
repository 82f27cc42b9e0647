import BlockDelta.Schedule.Conflicts

/-!
# The order of copies within one file

A copy must run after every copy whose source it overwrites. A depth-first
search of the conflict lists finishes copies in such an order; a copy found
again while it is still open closes a cycle and is set aside. The source of a
copy set aside is kept in memory before anything is written.
-/

namespace BlockDelta

namespace Schedule

/-- How far the search has come with a copy. -/
inductive Mark where
  /-- Not met yet. -/
  | new
  /-- Met, and its conflicts are being followed. -/
  | opened
  /-- All its conflicts have been followed. -/
  | closed
  deriving DecidableEq, Repr, Inhabited

/-- What the search knows. -/
structure Search where
  /-- The mark of every copy. -/
  marks : Array Mark
  /-- Which copies close a cycle. -/
  aside : Array Bool
  /-- The closed copies, last one first. -/
  finished : List Nat

/-- A copy whose conflicts are being followed, and the conflicts still to come. -/
abbrev Frame := Nat × List Nat

namespace Search

/-- Nothing has been met. -/
def start (count : Nat) : Search :=
  ⟨Array.replicate count .new, Array.replicate count false, []⟩

/-- The mark of a copy; a number that stands for no copy counts as closed. -/
def markOf (search : Search) (copy : Nat) : Mark := search.marks.getD copy .closed

/-- A copy is met. -/
def visit (search : Search) (copy : Nat) : Search :=
  { search with marks := search.marks.setIfInBounds copy .opened }

/-- A copy closes a cycle. -/
def setAside (search : Search) (copy : Nat) : Search :=
  { search with aside := search.aside.setIfInBounds copy true }

/-- A copy has no more conflicts to follow. -/
def close (search : Search) (copy : Nat) : Search :=
  { search with
    marks := search.marks.setIfInBounds copy .closed
    finished := copy :: search.finished }

/-- How many copies have not been met. -/
def unmet (search : Search) : Nat := search.marks.toList.countP (· == .new)

/-- A copy that is met was not met before. -/
theorem unmet_visit {search : Search} {copy : Nat} (new : search.markOf copy = .new) :
    (search.visit copy).unmet < search.unmet := by
  have inside : copy < search.marks.toList.length := by
    apply Classical.byContradiction
    intro outside
    simp [markOf, Array.getD, show ¬copy < search.marks.size by simpa using outside] at new
  have mark : search.marks.toList.get ⟨copy, inside⟩ = .new := by
    simpa [markOf, Array.getD, show copy < search.marks.size by simpa using inside] using new
  have counted : 0 < search.marks.toList.countP (· == .new) :=
    List.countP_pos_iff.2 ⟨_, List.get_mem _ ⟨copy, inside⟩, by rw [mark]; rfl⟩
  simp only [unmet, visit, Array.toList_setIfInBounds]
  rw [List.get_eq_getElem] at mark
  rw [List.countP_set inside, mark]
  simp only [beq_self_eq_true, if_true]
  have : (Mark.opened == Mark.new) = false := rfl
  simp only [this, Bool.false_eq_true, if_false]
  omega

/-- Closing a copy meets none. -/
theorem unmet_close (search : Search) (copy : Nat) : (search.close copy).unmet ≤ search.unmet := by
  simp only [unmet, close, Array.toList_setIfInBounds]
  by_cases inside : copy < search.marks.toList.length
  · rw [List.countP_set inside]
    have : (Mark.closed == Mark.new) = false := rfl
    simp only [this, Bool.false_eq_true, if_false]
    omega
  · exact Nat.le_of_eq (by rw [List.set_eq_of_length_le (by omega)])

end Search

/-- How much is left to do in open frames. -/
def frameWork (frames : List Frame) : Nat :=
  frames.foldr (fun frame work => 1 + frame.2.length + work) 0

/-- The conflicts of all open copies are followed to the end. -/
def follow (conflicts : Array (List Nat)) (search : Search) (frames : List Frame) : Search :=
  match frames with
  | [] => search
  | (copy, []) :: outer => follow conflicts (search.close copy) outer
  | (copy, next :: pending) :: outer =>
    match mark : search.markOf next with
    | .new =>
      have : (search.visit next).unmet < search.unmet := Search.unmet_visit mark
      follow conflicts (search.visit next)
        ((next, conflicts.getD next []) :: (copy, pending) :: outer)
    | .opened => follow conflicts (search.setAside next) ((copy, pending) :: outer)
    | .closed => follow conflicts search ((copy, pending) :: outer)
termination_by (search.unmet, frameWork frames)
decreasing_by
  · exact Prod.Lex.right' _ (Search.unmet_close search copy) (by simp [frameWork])
  · exact Prod.Lex.left _ _ this
  · exact Prod.Lex.right _ (by simp [frameWork])
  · exact Prod.Lex.right _ (by simp [frameWork])

/-- A copy and everything behind it is searched, unless it has been met. -/
def searchFrom (conflicts : Array (List Nat)) (search : Search) (root : Nat) : Search :=
  match search.markOf root with
  | .new => follow conflicts (search.visit root) [(root, conflicts.getD root [])]
  | _ => search

end Schedule

/-- The copies to run one after the other, and those to keep in memory first. -/
structure Schedule where
  /-- The copies to run, in order. -/
  order : List Nat
  /-- The copies set aside, in ascending order. -/
  fallback : List Nat
  deriving DecidableEq, Repr

namespace Schedule

/-- A safe order of copies within one file. -/
def ofSpans (spans : List CopySpan) : Schedule :=
  let conflicts := conflicts spans.toArray
  let search := (List.range spans.length).foldl (searchFrom conflicts) (Search.start spans.length)
  let closed := search.finished.reverse
  ⟨closed.filter fun copy => !search.aside.getD copy false,
    (closed.filter fun copy => search.aside.getD copy false).mergeSort fun i j => i ≤ j⟩

end Schedule

end BlockDelta
