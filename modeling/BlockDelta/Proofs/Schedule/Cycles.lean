import BlockDelta.Proofs.Schedule.Safety

/-!
# Only copies on cycles are kept in memory

The open frames of the search form a walk: each copy that is open inside
another one is a conflict of it. A copy that is met again while it is open
closes this walk to a cycle, and no other copy is set aside. The copies that
are left have an order in which each of them runs behind its conflicts, so no
cycle is left among them. Keeping copies in memory is thus neither more than is
needed to break a cycle nor less than is needed to break them all.
-/

namespace BlockDelta

namespace Schedule

section Graph

variable {node : Nat} {edge : Nat → Nat → Prop}

/-- A walk along edges leads from a node through others, none of them twice, back to the node. -/
def OnCycle (edge : Nat → Nat → Prop) (node : Nat) : Prop :=
  ∃ others : List Nat, (node :: others).Nodup ∧ (node :: others ++ [node]).IsChain edge

/-- No node lies on a cycle. -/
def Acyclic (edge : Nat → Nat → Prop) : Prop := ∀ node, ¬OnCycle edge node

/-- The edges that are left when some nodes are deleted. -/
def Remaining (edge : Nat → Nat → Prop) (deleted : List Nat) (source sink : Nat) : Prop :=
  edge source sink ∧ source ∉ deleted ∧ sink ∉ deleted

/-- A list holds certain nodes, each of them once and behind all those that it has an edge to. -/
structure LinearExtension (edge : Nat → Nat → Prop) (nodes : Set Nat) (order : List Nat) :
    Prop where
  /-- The list holds these nodes and no others. -/
  complete : ∀ node, node ∈ order ↔ node ∈ nodes
  /-- It holds none of them twice. -/
  once : order.Nodup
  /-- A node stands behind those that it has an edge to. -/
  behind : ∀ source sink, edge source sink → order.idxOf sink < order.idxOf source

/-- A cycle is one in every graph that has its edges. -/
theorem OnCycle.mono {more : Nat → Nat → Prop} (cycle : OnCycle edge node)
    (kept : ∀ source sink, edge source sink → more source sink) : OnCycle more node := by
  obtain ⟨others, distinct, walk⟩ := cycle
  exact ⟨others, distinct, walk.imp kept⟩

/-- A walk that is listed from its end back to its start, and from whose end an edge leads back to
one of its nodes, closes a cycle at this node. -/
theorem OnCycle.of_walk {last : Nat} {walk : List Nat} (distinct : (last :: walk).Nodup)
    (chained : (last :: walk).IsChain fun inner outer => edge outer inner)
    (met : node ∈ last :: walk) (closing : edge last node) : OnCycle edge node := by
  obtain ⟨inner, outer, split⟩ := List.append_of_mem met
  have first : (inner ++ [node]).head? = some last := by
    have whole := congrArg List.head? split
    cases inner with
    | nil => exact whole.symm
    | cons head tail => exact whole.symm
  have closed : (inner ++ [node]).IsChain fun inner outer => edge outer inner := by
    rw [split] at chained
    exact (List.isChain_split.1 chained).1
  refine ⟨inner.reverse, ?_, ?_⟩
  · -- the cycle is the part of the walk from the node on
    rw [split, List.append_cons] at distinct
    have part := distinct.of_append_left
    rw [← List.nodup_reverse, List.reverse_append] at part
    exact part
  · have forward : (node :: inner.reverse).IsChain edge := by
      have reversed := List.isChain_reverse.2 closed
      rw [List.reverse_append] at reversed
      exact reversed
    refine List.isChain_append.2 ⟨forward, .singleton _, ?_⟩
    intro ending isLast start isFirst
    have same : (node :: inner.reverse).getLast? = some last := by
      rw [← first, ← List.getLast?_reverse, List.reverse_append]
      rfl
    cases isFirst
    rw [same] at isLast
    cases isLast
    exact closing

/-- Nodes that can be listed behind those that they have an edge to lie on no cycle. -/
theorem LinearExtension.acyclic {nodes : Set Nat} {order : List Nat}
    (extension : LinearExtension edge nodes order) : Acyclic edge := by
  rintro node ⟨others, -, walk⟩
  let later (source sink : Nat) : Prop := order.idxOf sink < order.idxOf source
  have transitive : Trans later later later := ⟨fun first second => Nat.lt_trans second first⟩
  have ordered : (node :: others ++ [node]).Pairwise later :=
    List.isChain_iff_pairwise.1 (walk.imp extension.behind)
  have itself : later node node := (List.pairwise_cons.1 ordered).1 node (by simp)
  exact Nat.lt_irrefl _ itself

end Graph

variable {conflicts : Array (List Nat)} {count : Nat} {search : Search} {frames : List Frame}

/-- The search has only followed conflicts: those still to come in its frames, those that led from
one frame to the next, and those along which it came back to a copy that it set aside. -/
structure Traced (conflicts : Array (List Nat)) (search : Search) (frames : List Frame) :
    Prop where
  /-- What is to come in a frame are conflicts of its copy. -/
  pending : ∀ frame ∈ frames, ∀ next ∈ frame.2, next ∈ conflicts.getD frame.1 []
  /-- Each copy that is open inside another one is a conflict of it. -/
  nested : (frames.map Prod.fst).IsChain fun inner outer => inner ∈ conflicts.getD outer []
  /-- A copy that was set aside lies on a cycle of conflicts. -/
  cyclic : ∀ copy, search.aside.getD copy false = true →
    OnCycle (fun writer reader => reader ∈ conflicts.getD writer []) copy

namespace Traced

/-- Closing the innermost copy sets none aside. -/
theorem close {frame : Frame} {copy : Nat} (traced : Traced conflicts search (frame :: frames)) :
    Traced conflicts (search.close copy) frames where
  pending := (List.forall_mem_cons.1 traced.pending).2
  nested := traced.nested.tail
  cyclic := traced.cyclic

/-- A conflict that is passed over is to come no longer. -/
theorem pass {copy next : Nat} {pending : List Nat}
    (traced : Traced conflicts search ((copy, next :: pending) :: frames)) :
    Traced conflicts search ((copy, pending) :: frames) := by
  obtain ⟨own, others⟩ := List.forall_mem_cons.1 traced.pending
  have rest : ∀ later ∈ pending, later ∈ conflicts.getD copy [] :=
    (List.forall_mem_cons.1 own).2
  exact { traced with pending := List.forall_mem_cons.2 ⟨rest, others⟩ }

/-- The next conflict of the innermost copy is opened inside of it. -/
theorem visit {copy next : Nat} {pending : List Nat}
    (traced : Traced conflicts search ((copy, next :: pending) :: frames)) :
    Traced conflicts (search.visit next)
      ((next, conflicts.getD next []) :: (copy, pending) :: frames) where
  pending := List.forall_mem_cons.2 ⟨fun _ listed => listed, traced.pass.pending⟩
  nested := by
    have listed : next ∈ conflicts.getD copy [] :=
      traced.pending _ (List.mem_cons_self ..) next (List.mem_cons_self ..)
    exact List.isChain_cons_cons.2 ⟨listed, traced.nested⟩
  cyclic := traced.cyclic

/-- A conflict of the innermost copy that is open itself closes a cycle. -/
theorem setAside {copy next : Nat} {pending : List Nat}
    (traced : Traced conflicts search ((copy, next :: pending) :: frames))
    (underway : Underway conflicts count search ((copy, next :: pending) :: frames))
    (opened : search.markOf next = .opened) :
    Traced conflicts (search.setAside next) ((copy, pending) :: frames) := by
  have listed : next ∈ conflicts.getD copy [] :=
    traced.pending _ (List.mem_cons_self ..) next (List.mem_cons_self ..)
  have cycle : OnCycle (fun writer reader => reader ∈ conflicts.getD writer []) next :=
    OnCycle.of_walk underway.distinct traced.nested ((underway.opened next).2 opened) listed
  have inside : next < search.aside.size := by
    rw [underway.room]
    exact underway.lt_of_opened opened
  refine { traced.pass with cyclic := fun other aside => ?_ }
  rw [Search.aside_setAside inside] at aside
  by_cases same : next = other
  · rw [← same]
    exact cycle
  · rw [if_neg same] at aside
    exact traced.cyclic other aside

/-- Following all open copies to the end sets aside only copies on cycles. -/
theorem follow (traced : Traced conflicts search frames)
    (underway : Underway conflicts count search frames) :
    Traced conflicts (Schedule.follow conflicts search frames) [] := by
  fun_induction Schedule.follow conflicts search frames with
  | case1 search => exact traced
  | case2 search copy outer ih => exact ih traced.close underway.close
  | case3 search copy next pending outer new _ ih =>
    exact ih traced.visit (underway.visit new rfl underway.awaited.taken)
  | case4 search copy next pending outer opened ih =>
    have aside : (search.setAside next).Done next := by
      apply Or.inr
      rw [Search.aside_setAside (underway.room ▸ underway.lt_of_opened opened), if_pos rfl]
    exact ih (traced.setAside underway opened) ((underway.setAside opened).pass aside)
  | case5 search copy next pending outer closed ih =>
    exact ih traced.pass (underway.pass (.inl closed))

/-- Nothing is set aside before the search begins. -/
theorem start (conflicts : Array (List Nat)) (count : Nat) :
    Traced conflicts (Search.start count) [] where
  pending := by simp
  nested := .nil
  cyclic copy aside := by
    have nothing : (Search.start count).aside.getD copy false = false := by
      rw [Search.start, Array.getD_eq_getD_getElem?, Array.getElem?_replicate]
      split <;> rfl
    rw [nothing] at aside
    cases aside

/-- Searching from a copy sets aside only copies on cycles. -/
theorem searchFrom (traced : Traced conflicts search [])
    (underway : Underway conflicts count search []) (root : Nat) :
    Traced conflicts (Schedule.searchFrom conflicts search root) [] := by
  unfold Schedule.searchFrom
  split
  · rename_i new
    have opened : Traced conflicts (search.visit root) [(root, conflicts.getD root [])] := {
      pending := by simp
      nested := .singleton _
      cyclic := traced.cyclic }
    exact opened.follow (underway.visit new rfl trivial)
  · exact traced

/-- Searching from copy after copy sets aside only copies on cycles. -/
theorem searchAll (traced : Traced conflicts search [])
    (underway : Underway conflicts count search []) (roots : List Nat) :
    Traced conflicts (roots.foldl (Schedule.searchFrom conflicts) search) [] := by
  induction roots generalizing search with
  | nil => exact traced
  | cons root rest ih => exact ih (traced.searchFrom underway root) (underway.searchFrom root).1

end Traced

variable {spans : List CopySpan}

/-- A copy that is kept in memory lies on a cycle of copies that clobber each other. -/
theorem onCycle_of_mem_fallback {copy : Nat} (kept : copy ∈ (ofSpans spans).fallback) :
    OnCycle (Clobbers spans) copy := by
  have searched := (Traced.start (Schedule.conflicts spans.toArray) spans.length).searchAll
    (Underway.start _ _) (List.range spans.length)
  unfold ofSpans at kept
  simp only [List.mem_mergeSort, List.mem_filter] at kept
  refine (searched.cyclic copy kept.2).mono fun writer reader listed => ?_
  exact (conflict_iff_clobbers ..).1 ((mem_conflicts ..).1 listed)

/-- The copies that are run stand behind those that they clobber. -/
theorem linearExtension_order (spans : List CopySpan) :
    LinearExtension (Remaining (Clobbers spans) (ofSpans spans).fallback)
      {copy | copy < spans.length ∧ copy ∉ (ofSpans spans).fallback} (ofSpans spans).order where
  complete copy := mem_order_iff
  once := nodup_order spans
  behind := by
    rintro writer reader ⟨clobbers, unkept, unkeptReader⟩
    obtain ⟨other, writing, reading, writes, reads, -⟩ := id clobbers
    have first : writer ∈ (ofSpans spans).order :=
      mem_order_iff.2 ⟨(List.getElem?_eq_some_iff.1 writes).1, unkept⟩
    have second : reader ∈ (ofSpans spans).order :=
      mem_order_iff.2 ⟨(List.getElem?_eq_some_iff.1 reads).1, unkeptReader⟩
    have writerPlace := List.idxOf_lt_length_iff.2 first
    have readerPlace := List.idxOf_lt_length_iff.2 second
    have free := List.pairwise_iff_getElem.1 (pairwise_not_clobbers spans)
      _ _ writerPlace readerPlace
    rw [List.getElem_idxOf, List.getElem_idxOf] at free
    rcases Nat.lt_trichotomy ((ofSpans spans).order.idxOf writer)
      ((ofSpans spans).order.idxOf reader) with before | same | behind
    · exact absurd clobbers (free before)
    · exact absurd ((List.idxOf_inj first).1 same) other
    · exact behind

/-- A copy is kept in memory only where copies clobber each other in a cycle: every copy that is
kept lies on such a cycle, and none is kept exactly when there is no cycle. Without the copies that
are kept no cycle is left, and those that are run are all the others, each behind the copies that it
clobbers. -/
theorem fallback_breaks_cycles (spans : List CopySpan) :
    (∀ copy ∈ (ofSpans spans).fallback, OnCycle (Clobbers spans) copy) ∧
    ((ofSpans spans).fallback = [] ↔ Acyclic (Clobbers spans)) ∧
    Acyclic (Remaining (Clobbers spans) (ofSpans spans).fallback) ∧
    LinearExtension (Remaining (Clobbers spans) (ofSpans spans).fallback)
      {copy | copy < spans.length ∧ copy ∉ (ofSpans spans).fallback} (ofSpans spans).order := by
  have extension := linearExtension_order spans
  refine ⟨fun copy => onCycle_of_mem_fallback, ⟨fun unkept => ?_, fun acyclic => ?_⟩,
    extension.acyclic, extension⟩
  · intro copy cycle
    apply extension.acyclic copy
    refine cycle.mono fun writer reader clobbers => ?_
    rw [unkept]
    exact ⟨clobbers, List.not_mem_nil, List.not_mem_nil⟩
  · apply List.eq_nil_iff_forall_not_mem.2
    intro copy kept
    exact acyclic copy (onCycle_of_mem_fallback kept)

/-- Of a byte that moves to the front and the three before it, which move behind it, the first copy
is kept, and the second one closes the cycle. -/
theorem fallback_breaks_cycles_rotated :
    0 ∈ (ofSpans [⟨3, 0, 1⟩, ⟨0, 1, 3⟩]).fallback ∧
      OnCycle (Clobbers [⟨3, 0, 1⟩, ⟨0, 1, 3⟩]) 0 := by
  have kept : (ofSpans [⟨3, 0, 1⟩, ⟨0, 1, 3⟩]).fallback = [0] := by cbv
  have among : 0 ∈ (ofSpans [⟨3, 0, 1⟩, ⟨0, 1, 3⟩]).fallback := by simp [kept]
  exact ⟨among, (fallback_breaks_cycles [⟨3, 0, 1⟩, ⟨0, 1, 3⟩]).1 0 among⟩

end Schedule

end BlockDelta
