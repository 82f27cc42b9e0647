import BlockDelta.Proofs.Schedule.Order
import BlockDelta.Proofs.Strict.Conflicts

/-!
# Ordering copies does not go wrong

Every number that the search meets stands for a copy: the roots do, and so do
the conflicts in the lists. A frame counts how many conflicts of its copy have
been taken; they are no more than there are copies, and these are a word's
worth. So no access of the search is out of place.
-/

namespace BlockDelta

namespace Schedule

variable {conflicts : Array (List Nat)} {count : Nat}

/-- Conflict lists of so many copies. -/
structure Listed (conflicts : Array (List Nat)) (count : Nat) : Prop where
  /-- There is a list for every copy. -/
  size : conflicts.size = count
  /-- Every conflict is a copy. -/
  known : ∀ copy, ∀ next ∈ conflicts.getD copy [], next < count
  /-- Every list is as long as a word can say. -/
  short : ∀ copy, (conflicts.getD copy []).length < UInt64.size

/-- The conflicts of copies are such lists. -/
theorem listed_conflicts {spans : Array CopySpan} (few : spans.size < UInt64.size) :
    Listed (Schedule.conflicts spans) spans.size where
  size := by simp [Schedule.conflicts]
  known copy next among := ((mem_conflicts spans copy next).1 among).2.1
  short copy := by
    unfold Schedule.conflicts
    rw [Array.getD_eq_getD_getElem?, List.getElem?_toArray, List.getElem?_map]
    by_cases inside : copy < spans.size
    · rw [List.getElem?_range inside]
      exact Nat.lt_of_le_of_lt (length_conflictsOf_le ..) few
    · rw [List.getElem?_eq_none (by simpa using inside), Option.map_none, Option.getD_none]
      decide

end Schedule

namespace Strict

open Schedule

variable {conflictLists : Array (List Nat)} {count : Nat} {search : Search}

/-- The conflicts of all open copies are followed to the end. -/
def follow (conflicts : Array (List Nat)) (search : Search) (frames : List Frame) :
    Except Trap Search :=
  match frames with
  | [] => return search
  | (copy, []) :: outer => do
    inside copy conflicts.size
    inside copy search.marks.size
    follow conflicts (search.close copy) outer
  | (copy, next :: pending) :: outer => do
    let listed ← entry conflicts copy []
    noOverflow (listed.length - (next :: pending).length) 1
    inside next search.marks.size
    match mark : search.markOf next with
    | .new =>
      have : (search.visit next).unmet < search.unmet := Search.unmet_visit mark
      follow conflicts (search.visit next)
        ((next, conflicts.getD next []) :: (copy, pending) :: outer)
    | .opened => do
      inside next search.aside.size
      follow conflicts (search.setAside next) ((copy, pending) :: outer)
    | .closed => follow conflicts search ((copy, pending) :: outer)
termination_by (search.unmet, frameWork frames)
decreasing_by
  · exact Prod.Lex.right' _ (Search.unmet_close search copy) (by simp [frameWork])
  · exact Prod.Lex.left _ _ this
  · exact Prod.Lex.right _ (by simp [frameWork])
  · exact Prod.Lex.right _ (by simp [frameWork])

/-- A copy and everything behind it is searched, unless it has been met. -/
def searchFrom (conflicts : Array (List Nat)) (search : Search) (root : Nat) :
    Except Trap Search := do
  inside root search.marks.size
  match search.markOf root with
  | .new => follow conflicts (search.visit root) [(root, conflicts.getD root [])]
  | _ => return search

/-- A safe order of copies within one file. -/
def ofSpans (spans : List CopySpan) : Except Trap Schedule := do
  let lists ← conflicts spans.toArray
  let search ← (List.range spans.length).foldlM (searchFrom lists) (Search.start spans.length)
  let closed := search.finished.reverse
  let order ← filterEach (fun copy => do return !(← entry search.aside copy false)) closed
  let fallback ← filterEach (fun copy => entry search.aside copy false) closed
  return ⟨order, fallback.mergeSort fun i j => i ≤ j⟩

/-- A conflict is taken from the innermost frame, and the search goes on by its mark. -/
theorem follow_cons {copy next : Nat} {pending : List Nat} {outer : List Frame}
    (listed : Listed conflictLists count)
    (underway : Underway conflictLists count search ((copy, next :: pending) :: outer))
    (known : next < count) :
    follow conflictLists search ((copy, next :: pending) :: outer) =
      match search.markOf next with
      | .new =>
        follow conflictLists (search.visit next)
          ((next, conflictLists.getD next []) :: (copy, pending) :: outer)
      | .opened => follow conflictLists (search.setAside next) ((copy, pending) :: outer)
      | .closed => follow conflictLists search ((copy, pending) :: outer) := by
  have framed := underway.lt_of_opened ((underway.opened copy).1 (by simp))
  have short := listed.short copy
  have taken : (conflictLists.getD copy []).length - (next :: pending).length + 1 <
      UInt64.size := by
    unfold UInt64.size at short ⊢
    rw [List.length_cons]
    omega
  rw [follow, entry_eq_ok (listed.size ▸ framed), ok_bind, noOverflow_eq_ok taken, ok_bind,
    inside_eq_ok (underway.marked ▸ known), ok_bind]
  split
  case h_1 mark => simp only [mark]
  case h_2 mark => rw [mark, inside_eq_ok (underway.room ▸ known), ok_bind]
  case h_3 mark => rw [mark]

/-- The search looks up only copies when it begins with copies. -/
theorem follow_eq_ok {frames : List Frame} (listed : Listed conflictLists count)
    (underway : Underway conflictLists count search frames)
    (known : ∀ frame ∈ frames, ∀ next ∈ frame.2, next < count) :
    follow conflictLists search frames = .ok (Schedule.follow conflictLists search frames) := by
  fun_induction Schedule.follow conflictLists search frames with
  | case1 search =>
    unfold follow
    rfl
  | case2 search copy outer ih =>
    have framed := underway.lt_of_opened ((underway.opened copy).1 (by simp))
    rw [follow, inside_eq_ok (listed.size ▸ framed), ok_bind,
      inside_eq_ok (underway.marked ▸ framed), ok_bind]
    exact ih underway.close (List.forall_mem_cons.1 known).2
  | case3 search copy next pending outer new _ ih =>
    obtain ⟨own, others⟩ := List.forall_mem_cons.1 known
    obtain ⟨here, later⟩ := List.forall_mem_cons.1 own
    have behind := listed.known next
    rw [follow_cons listed underway here, new]
    exact ih (underway.visit new rfl underway.awaited.taken)
      (List.forall_mem_cons.2 ⟨behind, List.forall_mem_cons.2 ⟨later, others⟩⟩)
  | case4 search copy next pending outer opened ih =>
    obtain ⟨own, others⟩ := List.forall_mem_cons.1 known
    obtain ⟨here, later⟩ := List.forall_mem_cons.1 own
    have aside : (search.setAside next).Done next := by
      apply Or.inr
      rw [Search.aside_setAside (underway.room ▸ here), if_pos rfl]
    rw [follow_cons listed underway here, opened]
    exact ih ((underway.setAside opened).pass aside) (List.forall_mem_cons.2 ⟨later, others⟩)
  | case5 search copy next pending outer closed ih =>
    obtain ⟨own, others⟩ := List.forall_mem_cons.1 known
    obtain ⟨here, later⟩ := List.forall_mem_cons.1 own
    rw [follow_cons listed underway here, closed]
    exact ih (underway.pass (.inl closed)) (List.forall_mem_cons.2 ⟨later, others⟩)

/-- A search from a copy goes without trouble. -/
theorem searchFrom_eq_ok (listed : Listed conflictLists count)
    (underway : Underway conflictLists count search []) {root : Nat} (known : root < count) :
    searchFrom conflictLists search root = .ok (Schedule.searchFrom conflictLists search root) := by
  unfold searchFrom Schedule.searchFrom
  rw [inside_eq_ok (underway.marked ▸ known), ok_bind]
  cases mark : search.markOf root with
  | new =>
    have nothing : Awaited conflictLists search [root] [] := trivial
    exact follow_eq_ok listed (underway.visit mark rfl nothing)
      (List.forall_mem_cons.2 ⟨listed.known root, by simp⟩)
  | opened => rfl
  | closed => rfl

/-- A search from copy after copy goes without trouble. -/
theorem searchAll_eq_ok (listed : Listed conflictLists count)
    (underway : Underway conflictLists count search []) {roots : List Nat}
    (known : ∀ root ∈ roots, root < count) :
    roots.foldlM (searchFrom conflictLists) search =
      .ok (roots.foldl (Schedule.searchFrom conflictLists) search) := by
  induction roots generalizing search with
  | nil => rfl
  | cons root rest ih =>
    obtain ⟨first, others⟩ := List.forall_mem_cons.1 known
    rw [List.foldlM_cons, searchFrom_eq_ok listed underway first, ok_bind]
    exact ih (underway.searchFrom root).1 others

/-- Copies that are no more than a word can say, and whose ends are words, are put in order without
trouble. -/
theorem ofSpans_eq_ok {spans : List CopySpan} (few : spans.length < UInt64.size)
    (addressed : ∀ span ∈ spans, span.Addressed) :
    ofSpans spans = .ok (Schedule.ofSpans spans) := by
  have begun := Underway.start (Schedule.conflicts spans.toArray) spans.length
  have listed : Listed (Schedule.conflicts spans.toArray) spans.length := listed_conflicts few
  have searched := searchAll_eq_ok listed begun fun root => List.mem_range.1
  obtain ⟨ended, -⟩ := begun.searchAll (List.range spans.length)
  unfold ofSpans Schedule.ofSpans
  rw [conflicts_eq_ok (by simpa using addressed), ok_bind, searched, ok_bind]
  simp only []
  generalize (List.range spans.length).foldl (Schedule.searchFrom _) _ = search at ended ⊢
  have set : ∀ copy ∈ search.finished.reverse,
      entry search.aside copy false = .ok (search.aside.getD copy false) := fun copy among =>
    entry_eq_ok (ended.room ▸ ((ended.closed copy).1 (List.mem_reverse.1 among)).1)
  have run : ∀ copy ∈ search.finished.reverse,
      (do return !(← entry search.aside copy false)) =
        (.ok (!search.aside.getD copy false) : Except Trap Bool) := by
    intro copy among
    rw [set copy among]
    rfl
  rw [filterEach_eq_ok run, ok_bind, filterEach_eq_ok set]
  rfl

end Strict

end BlockDelta
