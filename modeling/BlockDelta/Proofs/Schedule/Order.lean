import BlockDelta.Proofs.Schedule.Conflicts
import BlockDelta.Schedule.Order

/-!
# The search finishes every copy behind its conflicts

The state of the depth-first search between two steps is described once, by an
invariant on what is finished, what is open and what is still to come. Each
kind of step preserves it, so it holds when no frame is open any more; then
every copy is finished exactly once, and a copy that was finished before one
of its conflicts has that conflict set aside.
-/

namespace BlockDelta

namespace Schedule

variable {conflicts : Array (List Nat)} {count : Nat} {search : Search}

namespace Search

/-- A copy can be relied upon to be out of the way: it is closed, or it was set aside. -/
def Done (search : Search) (copy : Nat) : Prop :=
  search.markOf copy = .closed ∨ search.aside.getD copy false = true

/-- A number that stands for no copy has no other mark than closed. -/
theorem lt_of_markOf_ne_closed {copy : Nat} (mark : search.markOf copy ≠ .closed) :
    copy < search.marks.size := by
  by_contra outside
  refine mark ?_
  rw [markOf, Array.getD_eq_getD_getElem?, Array.getElem?_eq_none (by omega), Option.getD_none]

/-- Closing a copy changes no other mark. -/
theorem markOf_close (search : Search) (closed copy : Nat) :
    (search.close closed).markOf copy =
      if closed = copy then .closed else search.markOf copy := by
  simp only [markOf, close, Array.getD_eq_getD_getElem?, Array.getElem?_setIfInBounds]
  by_cases same : closed = copy
  · rw [if_pos same, if_pos same]
    split <;> rfl
  · rw [if_neg same, if_neg same]

/-- Meeting a copy changes no other mark. -/
theorem markOf_visit {met : Nat} (new : search.markOf met = .new) (copy : Nat) :
    (search.visit met).markOf copy = if met = copy then .opened else search.markOf copy := by
  have inside : met < search.marks.size :=
    lt_of_markOf_ne_closed fun closed => by rw [new] at closed; cases closed
  simp only [markOf, visit, Array.getD_eq_getD_getElem?, Array.getElem?_setIfInBounds]
  by_cases same : met = copy
  · rw [if_pos same, if_pos same, if_pos inside, Option.getD_some]
  · rw [if_neg same, if_neg same]

/-- Of two copies, setting one aside leaves the other where it was. -/
theorem aside_setAside {kept : Nat} (inside : kept < search.aside.size) (copy : Nat) :
    (search.setAside kept).aside.getD copy false =
      if kept = copy then true else search.aside.getD copy false := by
  simp only [setAside, Array.getD_eq_getD_getElem?, Array.getElem?_setIfInBounds]
  by_cases same : kept = copy
  · rw [if_pos same, if_pos same, if_pos inside, Option.getD_some]
  · rw [if_neg same, if_neg same]

end Search

/-- Every conflict of an open copy is still to come, or open further inside, or out of the way.
The frames stand innermost first, behind the copies that are open inside of them. -/
def Awaited (conflicts : Array (List Nat)) (search : Search) : List Nat → List Frame → Prop
  | _, [] => True
  | inner, (copy, pending) :: outer =>
    (∀ conflict ∈ conflicts.getD copy [],
      conflict ∈ pending ∨ conflict ∈ inner ∨ search.Done conflict) ∧
    Awaited conflicts search (copy :: inner) outer

/-- What is awaited stays so when copies that were open inside get out of the way. -/
theorem Awaited.mono {later : Search} {inner innerLater : List Nat} {frames : List Frame}
    (awaited : Awaited conflicts search inner frames)
    (stays : ∀ copy, search.Done copy → later.Done copy)
    (replaced : ∀ copy ∈ inner, copy ∈ innerLater ∨ later.Done copy) :
    Awaited conflicts later innerLater frames := by
  induction frames generalizing inner innerLater with
  | nil => trivial
  | cons frame outer ih =>
    obtain ⟨copy, pending⟩ := frame
    refine ⟨fun conflict listed => ?_, ih awaited.2 fun other inside => ?_⟩
    · rcases awaited.1 conflict listed with ahead | inside | done
      · exact .inl ahead
      · exact .inr (replaced conflict inside)
      · exact .inr (.inr (stays conflict done))
    · rcases List.mem_cons.1 inside with rfl | deeper
      · exact .inl (List.mem_cons_self ..)
      · rcases replaced other deeper with kept | done
        · exact .inl (List.mem_cons_of_mem _ kept)
        · exact .inr done

/-- What the search knows between two of its steps. -/
structure Underway (conflicts : Array (List Nat)) (count : Nat) (search : Search)
    (frames : List Frame) : Prop where
  /-- Every copy has a mark. -/
  marked : search.marks.size = count
  /-- Every copy may be set aside. -/
  room : search.aside.size = count
  /-- The finished copies are the closed ones. -/
  closed : ∀ copy, copy ∈ search.finished ↔ copy < count ∧ search.markOf copy = .closed
  /-- No copy finishes twice. -/
  once : search.finished.Nodup
  /-- The copies with a frame are the open ones. -/
  opened : ∀ copy, copy ∈ frames.map Prod.fst ↔ search.markOf copy = .opened
  /-- No copy has two frames. -/
  distinct : (frames.map Prod.fst).Nodup
  /-- No conflict of an open copy is forgotten. -/
  awaited : Awaited conflicts search [] frames
  /-- The conflicts of a finished copy are out of the way. -/
  settled : ∀ copy ∈ search.finished, ∀ conflict ∈ conflicts.getD copy [], search.Done conflict
  /-- A conflict that finished later than the copy it belongs to was set aside. -/
  ordered : search.finished.Pairwise fun newer older =>
    newer ∈ conflicts.getD older [] → search.aside.getD newer false = true

namespace Underway

/-- A copy that has a frame is among the copies. -/
theorem lt_of_opened {frames : List Frame} (underway : Underway conflicts count search frames)
    {copy : Nat} (mark : search.markOf copy = .opened) : copy < count := by
  rw [← underway.marked]
  exact Search.lt_of_markOf_ne_closed fun closed => by rw [mark] at closed; cases closed

/-- The innermost copy closes when none of its conflicts is to come. -/
theorem close {copy : Nat} {outer : List Frame}
    (underway : Underway conflicts count search ((copy, []) :: outer)) :
    Underway conflicts count (search.close copy) outer := by
  have mark : search.markOf copy = .opened :=
    (underway.opened copy).1 (by simp)
  have inside := underway.lt_of_opened mark
  have fresh : copy ∉ search.finished := by
    intro finished
    have closed := ((underway.closed copy).1 finished).2
    rw [mark] at closed
    cases closed
  have stays : ∀ other, search.Done other → (search.close copy).Done other := by
    intro other done
    refine done.imp (fun closed => ?_) id
    rw [Search.markOf_close, closed, ite_self]
  have distinct := List.nodup_cons.1 underway.distinct
  constructor
  case marked => simpa [Search.close] using underway.marked
  case room => exact underway.room
  case closed =>
    intro other
    rw [Search.markOf_close]
    by_cases same : copy = other
    · subst same
      simpa [Search.close] using inside
    · rw [if_neg same, ← underway.closed other]
      simp [Search.close, Ne.symm same]
  case once => exact List.nodup_cons.2 ⟨fresh, underway.once⟩
  case opened =>
    intro other
    rw [Search.markOf_close]
    by_cases same : copy = other
    · subst same
      simpa using distinct.1
    · rw [if_neg same, ← underway.opened other]
      simp [Ne.symm same]
  case distinct => exact distinct.2
  case awaited =>
    refine underway.awaited.2.mono stays fun other among => .inr (.inl ?_)
    rw [List.mem_singleton.1 among, Search.markOf_close, if_pos rfl]
  case settled =>
    intro other finished conflict listed
    rcases List.mem_cons.1 finished with rfl | earlier
    · rcases underway.awaited.1 conflict listed with ahead | deeper | done
      · cases ahead
      · cases deeper
      · exact stays conflict done
    · exact stays conflict (underway.settled other earlier conflict listed)
  case ordered =>
    refine List.pairwise_cons.2 ⟨fun older finished listed => ?_, underway.ordered⟩
    -- the copy is a conflict of one that finished before it, and was open then
    rcases underway.settled older finished copy listed with closed | aside
    · rw [mark] at closed
      cases closed
    · exact aside

/-- A copy that was not met becomes the innermost open one. -/
theorem visit {next : Nat} {frames left : List Frame}
    (underway : Underway conflicts count search frames) (new : search.markOf next = .new)
    (same : left.map Prod.fst = frames.map Prod.fst)
    (awaited : Awaited conflicts search [next] left) :
    Underway conflicts count (search.visit next) ((next, conflicts.getD next []) :: left) := by
  have mark := Search.markOf_visit new
  have fresh : next ∉ frames.map Prod.fst := by
    intro open'
    have opened := (underway.opened next).1 open'
    rw [new] at opened
    cases opened
  have stays : ∀ copy, search.Done copy → (search.visit next).Done copy := by
    intro copy done
    refine done.imp (fun closed => ?_) id
    rw [mark, if_neg ?_, closed]
    rintro rfl
    rw [new] at closed
    cases closed
  constructor
  case marked => simpa [Search.visit] using underway.marked
  case room => exact underway.room
  case closed =>
    intro copy
    rw [mark]
    by_cases copied : next = copy
    · subst copied
      simp [Search.visit, underway.closed, new]
    · rw [if_neg copied, ← underway.closed copy]
      rfl
  case once => exact underway.once
  case opened =>
    intro copy
    rw [mark, List.map_cons, same]
    by_cases copied : next = copy
    · simp [copied]
    · rw [if_neg copied, ← underway.opened copy]
      simp [Ne.symm copied]
  case distinct =>
    rw [List.map_cons, same]
    exact List.nodup_cons.2 ⟨fresh, underway.distinct⟩
  case awaited =>
    exact ⟨fun conflict listed => .inl listed, awaited.mono stays fun copy among => .inl among⟩
  case settled =>
    intro copy finished conflict listed
    exact stays conflict (underway.settled copy finished conflict listed)
  case ordered => exact underway.ordered

/-- A copy that is met again while it is open is set aside. -/
theorem setAside {next : Nat} {frames : List Frame}
    (underway : Underway conflicts count search frames) (mark : search.markOf next = .opened) :
    Underway conflicts count (search.setAside next) frames := by
  have inside : next < search.aside.size := by
    rw [underway.room]
    exact underway.lt_of_opened mark
  have kept : ∀ copy, search.aside.getD copy false = true →
      (search.setAside next).aside.getD copy false = true := by
    intro copy aside
    rw [Search.aside_setAside inside, aside, ite_self]
  have stays : ∀ copy, search.Done copy → (search.setAside next).Done copy :=
    fun copy done => done.imp id (kept copy)
  constructor
  case marked => exact underway.marked
  case room => simpa [Search.setAside] using underway.room
  case closed => exact underway.closed
  case once => exact underway.once
  case opened => exact underway.opened
  case distinct => exact underway.distinct
  case awaited => exact underway.awaited.mono stays fun copy among => .inl among
  case settled =>
    intro copy finished conflict listed
    exact stays conflict (underway.settled copy finished conflict listed)
  case ordered => exact underway.ordered.imp fun aside listed => kept _ (aside listed)

/-- A conflict that is out of the way is passed over. -/
theorem pass {copy next : Nat} {pending : List Nat} {outer : List Frame}
    (underway : Underway conflicts count search ((copy, next :: pending) :: outer))
    (done : search.Done next) :
    Underway conflicts count search ((copy, pending) :: outer) := by
  refine { underway with awaited := ⟨fun conflict listed => ?_, underway.awaited.2⟩ }
  rcases underway.awaited.1 conflict listed with ahead | others
  · rcases List.mem_cons.1 ahead with rfl | later
    · exact .inr (.inr done)
    · exact .inl later
  · exact .inr others

end Underway

/-- A conflict taken from the innermost frame is awaited as an open copy. -/
theorem Awaited.taken {copy next : Nat} {pending : List Nat} {outer : List Frame}
    (awaited : Awaited conflicts search [] ((copy, next :: pending) :: outer)) :
    Awaited conflicts search [next] ((copy, pending) :: outer) := by
  refine ⟨fun conflict listed => ?_, awaited.2.mono (fun _ done => done) fun other inside => ?_⟩
  · rcases awaited.1 conflict listed with ahead | deeper | done
    · rcases List.mem_cons.1 ahead with rfl | later
      · exact .inr (.inl (List.mem_singleton.2 rfl))
      · exact .inl later
    · cases deeper
    · exact .inr (.inr done)
  · rw [List.mem_singleton.1 inside]
    exact .inl (List.mem_cons_self ..)

/-- Following all open copies to the end keeps the invariant, and no copy that was met is
forgotten. -/
theorem Underway.follow {frames : List Frame} (underway : Underway conflicts count search frames) :
    Underway conflicts count (Schedule.follow conflicts search frames) [] ∧
      ∀ copy, search.markOf copy ≠ .new →
        (Schedule.follow conflicts search frames).markOf copy ≠ .new := by
  fun_induction Schedule.follow conflicts search frames with
  | case1 search => exact ⟨underway, fun _ met => met⟩
  | case2 search copy outer ih =>
    obtain ⟨ended, remembered⟩ := ih underway.close
    refine ⟨ended, fun other met => remembered other ?_⟩
    rw [Search.markOf_close]
    split
    · nofun
    · exact met
  | case3 search copy next pending outer new _ ih =>
    obtain ⟨ended, remembered⟩ := ih (underway.visit new rfl underway.awaited.taken)
    refine ⟨ended, fun other met => remembered other ?_⟩
    rw [Search.markOf_visit new]
    split
    · nofun
    · exact met
  | case4 search copy next pending outer opened ih =>
    have aside : (search.setAside next).Done next := by
      refine .inr ?_
      rw [Search.aside_setAside, if_pos rfl]
      rw [underway.room]
      exact underway.lt_of_opened opened
    exact ih ((underway.setAside opened).pass aside)
  | case5 search copy next pending outer closed ih => exact ih (underway.pass (.inl closed))

/-- Nothing is known before the search begins. -/
theorem Underway.start (conflicts : Array (List Nat)) (count : Nat) :
    Underway conflicts count (Search.start count) [] := by
  have new : ∀ copy, copy < count → (Search.start count).markOf copy = .new := by
    intro copy inside
    simp [Search.markOf, Search.start, Array.getD_eq_getD_getElem?, inside]
  have closed : ∀ copy, ¬copy < count → (Search.start count).markOf copy = .closed := by
    intro copy outside
    simp [Search.markOf, Search.start, Array.getD_eq_getD_getElem?, outside]
  constructor
  case marked => exact Array.size_replicate ..
  case room => exact Array.size_replicate ..
  case closed =>
    intro copy
    constructor
    · intro finished
      cases finished
    · intro done
      have mark := done.2
      rw [new copy done.1] at mark
      cases mark
  case once => exact List.nodup_nil
  case opened =>
    intro copy
    constructor
    · intro framed
      cases framed
    · intro mark
      by_cases inside : copy < count
      · rw [new copy inside] at mark
        cases mark
      · rw [closed copy inside] at mark
        cases mark
  case distinct => exact List.nodup_nil
  case awaited => trivial
  case settled =>
    intro copy finished
    cases finished
  case ordered => exact .nil

/-- Searching from a copy keeps the invariant, meets that copy and forgets none. -/
theorem Underway.searchFrom (underway : Underway conflicts count search []) (root : Nat) :
    Underway conflicts count (Schedule.searchFrom conflicts search root) [] ∧
      (Schedule.searchFrom conflicts search root).markOf root ≠ .new ∧
      ∀ copy, search.markOf copy ≠ .new →
        (Schedule.searchFrom conflicts search root).markOf copy ≠ .new := by
  unfold Schedule.searchFrom
  split
  · rename_i new
    have nothing : Awaited conflicts search [root] [] := trivial
    obtain ⟨ended, remembered⟩ := (underway.visit new rfl nothing).follow
    refine ⟨ended, remembered root ?_, fun copy met => remembered copy ?_⟩
    · rw [Search.markOf_visit new, if_pos rfl]
      nofun
    · rw [Search.markOf_visit new]
      split
      · nofun
      · exact met
  · rename_i met
    exact ⟨underway, met, fun _ other => other⟩

/-- Searching from copy after copy meets them all. -/
theorem Underway.searchAll (underway : Underway conflicts count search []) (roots : List Nat) :
    Underway conflicts count (roots.foldl (Schedule.searchFrom conflicts) search) [] ∧
      ∀ copy, copy ∈ roots ∨ search.markOf copy ≠ .new →
        (roots.foldl (Schedule.searchFrom conflicts) search).markOf copy ≠ .new := by
  induction roots generalizing search with
  | nil => exact ⟨underway, fun copy met => met.resolve_left (by simp)⟩
  | cons root rest ih =>
    obtain ⟨searched, met, remembered⟩ := underway.searchFrom root
    obtain ⟨ended, all⟩ := ih searched
    refine ⟨ended, fun copy known => all copy ?_⟩
    rcases known with among | before
    · rcases List.mem_cons.1 among with rfl | later
      · exact .inr met
      · exact .inl later
    · exact .inr (remembered copy before)

/-- Once all copies have been met and none is open, the finished ones are all there are. -/
theorem Underway.finished_perm (underway : Underway conflicts count search [])
    (met : ∀ copy < count, search.markOf copy ≠ .new) :
    search.finished.Perm (List.range count) := by
  refine (List.perm_ext_iff_of_nodup underway.once List.nodup_range).2 fun copy => ?_
  rw [underway.closed, List.mem_range]
  refine ⟨fun closed => closed.1, fun inside => ⟨inside, ?_⟩⟩
  cases mark : search.markOf copy with
  | new => exact absurd mark (met copy inside)
  | opened => cases (underway.opened copy).2 mark
  | closed => rfl

/-- Every copy is either run or kept, and none twice. -/
theorem perm_ofSpans (spans : List CopySpan) :
    ((ofSpans spans).order ++ (ofSpans spans).fallback).Perm (List.range spans.length) := by
  obtain ⟨ended, met⟩ :=
    (Underway.start (Schedule.conflicts spans.toArray) spans.length).searchAll
      (List.range spans.length)
  have finished := ended.finished_perm fun copy inside => met copy (.inl (List.mem_range.2 inside))
  unfold ofSpans
  simp only []
  generalize (List.range spans.length).foldl (Schedule.searchFrom _) _ = search at finished ⊢
  have split := List.filter_append_perm (fun copy => !search.aside.getD copy false)
    search.finished.reverse
  simp only [Bool.not_not] at split
  have sorted := List.mergeSort_perm (search.finished.reverse.filter fun copy =>
    search.aside.getD copy false) fun i j => i ≤ j
  exact (sorted.append_left _).trans (split.trans ((List.reverse_perm _).trans finished))

/-- No copy that is run destroys what one that is run after it has to read. -/
theorem pairwise_order (spans : List CopySpan) :
    (ofSpans spans).order.Pairwise fun earlier later => ¬Conflict spans.toArray earlier later := by
  obtain ⟨ended, _⟩ :=
    (Underway.start (Schedule.conflicts spans.toArray) spans.length).searchAll
      (List.range spans.length)
  unfold ofSpans
  simp only []
  refine (List.pairwise_filter.2 ((List.pairwise_reverse.2 ended.ordered).imp ?_))
  intro earlier later aside _ kept conflict
  have listed := aside ((mem_conflicts spans.toArray earlier later).2 conflict)
  rw [listed] at kept
  cases kept

end Schedule

end BlockDelta
