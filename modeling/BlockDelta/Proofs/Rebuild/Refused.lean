import BlockDelta.Proofs.Delta.Partition
import BlockDelta.Proofs.Rebuild.Accepted

/-!
# A rebuild that is refused leaves everything as it was

All that can be wrong with deltas is found before anything is written: where
they stand first, then whether their copies lie inside the basis. A rebuild
into a file checks twice, once before the file is created and once behind it;
the second check sees the basis that the first one saw, for the file created is
not the basis. So once the destination is there, only reading and writing can
fail.
-/

namespace BlockDelta

namespace Delta

/-- Where the copies that are not empty start in the target. -/
def copyStarts (deltas : List Delta) : Set Nat :=
  { offset | ∃ delta ∈ deltas, delta.isLiteral = false ∧ delta.isEmpty = false ∧
    delta.start = offset }

end Delta

namespace FileTree

variable {tree created : FileTree} {path : String} {number other : Nat}

/-- A file that gets the content it has stays as it is. -/
theorem store_content (tree : FileTree) (number : Nat) :
    tree.store number (tree.content number) = tree := by
  have same : tree.contents.setIfInBounds number (tree.content number) = tree.contents := by
    refine Array.ext (Array.size_setIfInBounds ..) fun place _ known => ?_
    rw [Array.getElem_setIfInBounds]
    split
    · rename_i here
      subst here
      rw [content, ← Array.getElem_eq_getD]
    · rfl
  rw [store, same]

/-- Storing a file leaves all other files as they are. -/
theorem content_store_of_ne (tree : FileTree) (content : ByteArray) (different : number ≠ other) :
    (tree.store number content).content other = tree.content other := by
  simp only [FileTree.content, store, Array.getD_eq_getD_getElem?, Array.getElem?_setIfInBounds,
    if_neg different]

/-- Adding a file leaves the content of every number as it is: the new file is empty. -/
theorem content_add (tree : FileTree) (place : Place) (other : Nat) :
    (tree.add place).2.content other = tree.content other := by
  simp only [FileTree.content, add, Array.getD_eq_getD_getElem?, Array.getElem?_push]
  split
  · rename_i fresh
    rw [fresh, Array.getElem?_eq_none (Nat.le_refl _)]
    rfl
  · rfl

/-- Creating a file leaves every file as it is to which its path does not lead. -/
theorem content_create (made : tree.create path = .ok (number, created))
    (elsewhere : tree.lookUp path ≠ .ok (.file other)) :
    created.content other = tree.content other := by
  obtain ⟨valid, plain, named, place, reached, emptied | added⟩ := create_eq_ok made
  · obtain ⟨existing, rfl⟩ := emptied
    refine content_store_of_ne tree .empty fun same => elsewhere ?_
    unfold lookUp
    simp only [valid, bind, Except.bind]
    rw [foldlM_parts named plain reached, existing, same]
  · obtain rfl : created = _ := congrArg Prod.snd added.2
    exact content_add ..

/-- Paths that are not the same do not lead to one file. -/
theorem lookUp_ne_of_distinct {left right : String} {node : Node}
    (distinct : tree.same left right = false) (found : tree.lookUp left = .ok node) :
    tree.lookUp right ≠ .ok node := by
  intro also
  simp [same, found, also] at distinct

end FileTree

namespace Rebuild

/-- A check has failed; nothing was wrong with reading or writing. -/
def Error.IsRefusal : Error → Prop
  | .io _ => False
  | _ => True

namespace Plan

variable {plan : Plan} {deltas : List Delta}

/-- Deltas whose stops can be addressed are refused for a gap or an overlap, others may be refused
for a stop that cannot. -/
theorem cover_eq_error {covered : Nat} {error : Error}
    (refused : cover covered deltas = .error error) :
    error.BlamesTiling ∧
      ((∀ delta ∈ deltas, delta.stop < UInt64.size) → ∃ flaw, error = .tiling flaw) := by
  induction deltas generalizing covered with
  | nil => cases refused
  | cons first rest ih =>
    unfold cover at refused
    split at refused
    · cases refused
      exact ⟨trivial, fun _ => ⟨_, rfl⟩⟩
    split at refused
    · cases refused
      exact ⟨trivial, fun _ => ⟨_, rfl⟩⟩
    split at refused
    · rename_i overflow
      cases refused
      exact ⟨trivial, fun bounded =>
        absurd (bounded first (List.mem_cons_self ..)) (Nat.not_lt_of_le overflow)⟩
    · obtain ⟨blamed, flawed⟩ := ih refused
      exact ⟨blamed, fun bounded => flawed fun delta among =>
        bounded delta (List.mem_cons_of_mem _ among)⟩

/-- Deltas that do not tile a target are refused for where they stand, and for a gap or an overlap
unless one of them ends behind the last offset. -/
theorem exists_error_of_not_tileable (apart : ¬Delta.Tileable deltas) :
    ∃ error, Plan.ofDeltas deltas = .error error ∧ error.BlamesTiling ∧
      ((∀ delta ∈ deltas, delta.stop < UInt64.size) → ∃ flaw, error = .tiling flaw) := by
  have unplanned : ∀ plan, Plan.ofDeltas deltas ≠ .ok plan := fun plan planned =>
    apart ((exists_ofDeltas_iff deltas).1 ⟨plan, planned⟩)
  unfold Plan.ofDeltas at unplanned ⊢
  cases covers : cover 0 (Delta.inTargetOrder (deltas.filter fun delta => !delta.isEmpty)) with
  | ok total =>
    simp only [covers] at unplanned
    exact absurd rfl (unplanned _)
  | error error =>
    obtain ⟨blamed, flawed⟩ := cover_eq_error covers
    refine ⟨error, by simp only [covers]; rfl, blamed, fun bounded => flawed fun delta among => ?_⟩
    have listed := (Delta.perm_inTargetOrder _).mem_iff.1 among
    exact bounded delta (List.mem_filter.1 listed).1

/-- Copies that lie inside a basis lie inside a longer one. -/
theorem checkCopies_mono {shorter longer : Nat} (checked : plan.checkCopies shorter = .ok ())
    (most : shorter ≤ longer) : plan.checkCopies longer = .ok () := by
  refine checkCopiesOf_eq_ok_iff.2 fun delta among => ?_
  have fits := checkCopiesOf_eq_ok_iff.1 checked delta among
  cases delta with
  | literal offset data => trivial
  | copy source offset length => exact Nat.le_trans fits most

/-- Without a basis a plan is refused for the first of its copies. -/
theorem checkNoCopy_eq_error_iff (planned : Plan.ofDeltas deltas = .ok plan) {offset : Nat} :
    plan.checkNoCopy = .error (.copyWithoutBasis offset) ↔
      IsLeast (Delta.copyStarts deltas) offset := by
  obtain ⟨same, tiles⟩ := Plan.ofDeltas_eq_ok planned
  have listed (delta : Delta) :
      delta ∈ plan.deltas ↔ delta ∈ deltas ∧ delta.isEmpty = false := by
    rw [same.mem_iff, List.mem_filter, Bool.not_eq_true']
  -- the copies of the plan, put in target order
  have first (copy : Delta) (found : plan.firstCopy? = some copy) :
      IsLeast (Delta.copyStarts deltas) copy.start := by
    obtain ⟨copied, front, back, split, literals⟩ := List.find?_eq_some_iff_append.1 found
    have among : copy ∈ plan.deltas := by
      rw [split]
      exact List.mem_append_right _ (List.mem_cons_self ..)
    obtain ⟨given, something⟩ := (listed copy).1 among
    refine ⟨⟨copy, given, by simpa using copied, something, rfl⟩, ?_⟩
    rintro _ ⟨other, otherGiven, otherCopied, otherSomething, rfl⟩
    have otherAmong := (listed other).2 ⟨otherGiven, otherSomething⟩
    rw [split] at otherAmong
    rcases List.mem_append.1 otherAmong with before | behind
    · have literal := literals other before
      rw [otherCopied] at literal
      cases literal
    · rcases List.mem_cons.1 behind with rfl | later
      · exact Nat.le_refl _
      · have ordered := tiles.pairwise
        rw [split] at ordered
        have apart := (List.pairwise_cons.1 (List.pairwise_append.1 ordered).2.1).1 other later
        unfold Delta.stop at apart
        omega
  unfold checkNoCopy
  cases found : plan.firstCopy? with
  | none =>
    refine ⟨nofun, fun ⟨⟨delta, given, copied, something, _⟩, _⟩ => ?_⟩
    have literal := List.find?_eq_none.1 found delta ((listed delta).2 ⟨given, something⟩)
    rw [copied] at literal
    exact absurd rfl literal
  | some copy =>
    have least := first copy found
    constructor
    · intro refused
      cases refused
      exact least
    · intro claimed
      rw [← least.unique claimed]

end Plan

section

variable {buffer : Buffer} {deltas : List Delta} {plan : Plan} {error : Error}

/-- A refusal keeps the sink as it was. -/
theorem toSink_untouched {basis : Basis} {sink torn : Sink}
    (failed : toSink buffer basis deltas sink = .error error torn) (refusal : error.IsRefusal) :
    torn = sink := by
  cases planned : Plan.ofDeltas deltas with
  | error cause =>
    simp only [toSink, planned, bind, Except.bind] at failed
    cases failed
    rfl
  | ok plan =>
    cases checked : plan.checkCopies basis.size with
    | error cause =>
      rw [toSink_of_refused buffer planned checked] at failed
      cases failed
      rfl
    | ok _ =>
      obtain ⟨fault, rfl⟩ := toSink_eq_error planned checked failed
      cases refusal

/-- Deltas for which there is no plan are refused by a rebuild into a sink. -/
theorem toSink_of_unplanned (buffer : Buffer) (basis : Basis)
    (unplanned : Plan.ofDeltas deltas = .error error) (sink : Sink) :
    toSink buffer basis deltas sink = .error error sink := by
  simp only [toSink, unplanned, bind, Except.bind]

/-- Deltas for which there is no plan are refused by a rebuild in place. -/
theorem fileInPlace_of_unplanned (buffer : Buffer) (path : String)
    (unplanned : Plan.ofDeltas deltas = .error error) (tree : FileTree) :
    fileInPlace buffer path deltas tree = .error error tree := by
  have settling : (settled (Plan.ofDeltas deltas) : Filing Plan) tree = .error error tree := by
    rw [unplanned]
    rfl
  unfold fileInPlace
  rw [bind_of_error settling]

/-- A content that cannot become the target of a plan for another cause than reading and writing
stays as it was. -/
theorem planInPlace_untouched {content torn : ByteArray}
    (failed : planInPlace buffer plan content = .error error torn) (refusal : error.IsRefusal) :
    torn = content := by
  unfold planInPlace at failed
  split at failed
  · cases failed
    rfl
  · simp only [] at failed
    split at failed <;> cases failed
    cases refusal

/-- A path that cannot be looked up stops a rebuild in place, unless nothing is there. -/
theorem planFileInPlace_of_fault {path : String} {tree : FileTree} {fault : Fault}
    (found : tree.lookUp path = .error fault) (other : fault ≠ .notFound) :
    planFileInPlace buffer path plan tree = .error (.io fault) tree := by
  have begun : (get : Filing FileTree) tree = .ok tree tree := rfl
  unfold planFileInPlace
  rw [bind_of_ok begun, found]
  cases fault <;> first
    | exact absurd rfl other
    | rfl

/-- Where nothing is, a plan without copies gets a file of its own. -/
theorem planFileInPlace_of_notFound {path : String} {tree : FileTree}
    (missing : tree.lookUp path = .error .notFound) :
    planFileInPlace buffer path plan tree =
      match plan.checkNoCopy with
      | .error error => .error error tree
      | .ok () =>
        match tree.create path with
        | .error fault => .error (.io fault) tree
        | .ok (number, created) =>
          .ok plan.report (created.store number plan.literalContent) := by
  have begun : (get : Filing FileTree) tree = .ok tree tree := rfl
  unfold planFileInPlace
  rw [bind_of_ok begun, missing]
  simp only []
  cases free : plan.checkNoCopy with
  | error error => rfl
  | ok _ =>
    have passed : (settled (.ok ()) : Filing Unit) tree = .ok () tree := rfl
    rw [bind_of_ok passed, bind_of_ok begun]
    cases made : tree.create path <;> rfl

/-- A directory does not become a target, whether or not the copies would lie inside it. -/
theorem planFileInPlace_of_directory {path : String} {tree : FileTree} {place : Place}
    (found : tree.lookUp path = .ok (.directory place)) :
    planFileInPlace buffer path plan tree =
      match plan.checkCopies (tree.size (.directory place)) with
      | .error error => .error error tree
      | .ok () => .error (.io .isDirectory) tree := by
  have begun : (get : Filing FileTree) tree = .ok tree tree := rfl
  unfold planFileInPlace
  rw [bind_of_ok begun, found]
  simp only []
  rw [bind_of_ok begun]
  cases plan.checkCopies (tree.size (.directory place)) <;> rfl

/-- A file gets what its content becomes, also when that ends half way. -/
theorem planFileInPlace_of_file {path : String} {tree : FileTree} {number : Nat}
    (found : tree.lookUp path = .ok (.file number)) :
    planFileInPlace buffer path plan tree =
      match planInPlace buffer plan (tree.content number) with
      | .ok report content => .ok report (tree.store number content)
      | .error error content => .error error (tree.store number content) := by
  have begun : (get : Filing FileTree) tree = .ok tree tree := rfl
  unfold planFileInPlace
  rw [bind_of_ok begun, found]
  simp only []
  rw [bind_of_ok begun]
  cases planInPlace buffer plan (tree.content number) <;> rfl

/-- A plan that is refused in place keeps all files as they were. -/
theorem planFileInPlace_untouched {path : String} {tree torn : FileTree}
    (failed : planFileInPlace buffer path plan tree = .error error torn)
    (refusal : error.IsRefusal) : torn = tree := by
  cases found : tree.lookUp path with
  | error fault =>
    by_cases missing : fault = .notFound
    · subst missing
      rw [planFileInPlace_of_notFound found] at failed
      split at failed
      · cases failed
        rfl
      · split at failed <;> cases failed
        rfl
    · rw [planFileInPlace_of_fault found missing] at failed
      cases failed
      rfl
  | ok node =>
    cases node with
    | directory place =>
      rw [planFileInPlace_of_directory found] at failed
      split at failed <;> cases failed <;> rfl
    | file number =>
      rw [planFileInPlace_of_file found] at failed
      split at failed
      · cases failed
      · rename_i ran
        cases failed
        rw [planInPlace_untouched ran refusal]
        exact tree.store_content number

/-- A rebuild in place that is refused keeps all files as they were. -/
theorem fileInPlace_untouched {path : String} {tree torn : FileTree}
    (failed : fileInPlace buffer path deltas tree = .error error torn)
    (refusal : error.IsRefusal) : torn = tree := by
  cases planned : Plan.ofDeltas deltas with
  | error cause =>
    rw [fileInPlace_of_unplanned buffer path planned] at failed
    cases failed
    rfl
  | ok plan =>
    rw [fileInPlace_of_plan buffer planned] at failed
    exact planFileInPlace_untouched failed refusal

/-- A rebuild between two files has come so far that its destination is there: no check stands in
its way any more but those that it makes once again. -/
structure Opened (deltas : List Delta) (basis destination : String) (tree : FileTree)
    (plan : Plan) (node : Node) (number : Nat) (created : FileTree) : Prop where
  /-- The destination is not the basis. -/
  distinct : tree.same basis destination = false
  /-- The deltas tile a target. -/
  planned : Plan.ofDeltas deltas = .ok plan
  /-- There is a basis. -/
  found : tree.lookUp basis = .ok node
  /-- Its size is enough for all copies. -/
  inRange : plan.checkCopies (tree.size node) = .ok ()
  /-- The destination could be created, or emptied. -/
  made : tree.create destination = .ok (number, created)

/-- Deltas for which there is no plan are refused by a rebuild between two files. -/
theorem toFile_of_unplanned (buffer : Buffer) {basis destination : String} {tree : FileTree}
    (distinct : tree.same basis destination = false)
    (unplanned : Plan.ofDeltas deltas = .error error) :
    toFile buffer basis destination deltas tree = .error error tree := by
  have begun : (get : Filing FileTree) tree = .ok tree tree := rfl
  unfold toFile
  rw [bind_of_ok begun]
  simp only [distinct, Bool.false_eq_true, if_false, unplanned]
  rfl

/-- A destination that is there gets what is written into a sink. -/
theorem Opened.toFile_eq {basis destination : String} {tree created : FileTree} {node : Node}
    {number : Nat} (opened : Opened deltas basis destination tree plan node number created)
    (buffer : Buffer) :
    toFile buffer basis destination deltas tree =
      match toSink buffer (Basis.ofNode created node) deltas .unlimited with
      | .ok report sink => .ok report (created.store number sink.accepted)
      | .error error sink => .error error (created.store number sink.accepted) := by
  have begun : (get : Filing FileTree) tree = .ok tree tree := rfl
  have planning : (settled (Plan.ofDeltas deltas) : Filing Plan) tree = .ok plan tree := by
    rw [opened.planned]
    rfl
  have finding : (access (tree.lookUp basis) : Filing Node) tree = .ok node tree := by
    rw [opened.found]
    rfl
  have checking : (settled (plan.checkCopies (tree.size node)) : Filing Unit) tree =
      .ok () tree := by
    rw [opened.inRange]
    rfl
  have creating : (access (tree.create destination) : Filing (Nat × FileTree)) tree =
      .ok (number, created) tree := by
    rw [opened.made]
    rfl
  have stored : (set created : Filing PUnit) tree = .ok ⟨⟩ created := rfl
  unfold toFile
  rw [bind_of_ok begun]
  simp only [opened.distinct, Bool.false_eq_true, if_false]
  rw [bind_of_ok planning, bind_of_ok begun, bind_of_ok finding, bind_of_ok begun,
    bind_of_ok checking, bind_of_ok begun, bind_of_ok creating]
  simp only []
  rw [bind_of_ok stored]
  cases toSink buffer (Basis.ofNode created node) deltas .unlimited <;> rfl

/-- The second check sees the basis that the first one saw, or a directory that seems even larger.
-/
theorem Opened.inRange_created {basis destination : String} {tree created : FileTree}
    {node : Node} {number : Nat}
    (opened : Opened deltas basis destination tree plan node number created) :
    plan.checkCopies (Basis.ofNode created node).size = .ok () := by
  have checked := opened.inRange
  cases node with
  | directory place =>
    have most : FileTree.directorySize ≤ directoryEnd := by decide
    exact Plan.checkCopies_mono checked most
  | file other =>
    have kept := FileTree.content_create opened.made
      (FileTree.lookUp_ne_of_distinct opened.distinct opened.found)
    rw [FileTree.size, ← kept] at checked
    exact checked

/-- Once the destination is there, only reading and writing can fail. -/
theorem Opened.error_eq_io {basis destination : String} {tree created torn : FileTree}
    {node : Node} {number : Nat}
    (opened : Opened deltas basis destination tree plan node number created)
    (failed : toFile buffer basis destination deltas tree = .error error torn) :
    ∃ fault, error = .io fault := by
  rw [opened.toFile_eq] at failed
  cases ran : toSink buffer (Basis.ofNode created node) deltas .unlimited with
  | ok report sink =>
    rw [ran] at failed
    cases failed
  | error cause sink =>
    rw [ran] at failed
    cases failed
    exact toSink_eq_error opened.planned opened.inRange_created ran

/-- A rebuild between two files ends before it has done anything, or its destination is there. -/
theorem toFile_untouched_or_opened (buffer : Buffer) (deltas : List Delta)
    (basis destination : String) (tree : FileTree) :
    (∃ error, toFile buffer basis destination deltas tree = .error error tree) ∨
      ∃ plan node number created,
        Opened deltas basis destination tree plan node number created := by
  have begun : (get : Filing FileTree) tree = .ok tree tree := rfl
  have passed {α : Type} (value : α) :
      (settled (.ok value) : Filing α) tree = .ok value tree := rfl
  -- every step up to the last one leaves the tree as it is, also where it fails
  unfold toFile
  rw [bind_of_ok begun]
  cases distinct : tree.same basis destination with
  | true => exact .inl ⟨_, rfl⟩
  | false =>
  simp only [Bool.false_eq_true, if_false]
  cases planned : Plan.ofDeltas deltas with
  | error error => exact .inl ⟨error, rfl⟩
  | ok plan =>
  rw [bind_of_ok (passed plan), bind_of_ok begun]
  cases found : tree.lookUp basis with
  | error fault => exact .inl ⟨.io fault, rfl⟩
  | ok node =>
  have accessed : (access (.ok node) : Filing Node) tree = .ok node tree := rfl
  rw [bind_of_ok accessed, bind_of_ok begun]
  cases inRange : plan.checkCopies (tree.size node) with
  | error error => exact .inl ⟨error, rfl⟩
  | ok _ =>
  rw [bind_of_ok (passed ()), bind_of_ok begun]
  cases made : tree.create destination with
  | error fault => exact .inl ⟨.io fault, rfl⟩
  | ok pair => exact .inr ⟨plan, node, pair.1, pair.2, distinct, planned, found, inRange, made⟩

/-- A rebuild between two files that is refused, or finds no basis, keeps all files as they were. -/
theorem toFile_untouched {basis destination : String} {tree torn : FileTree}
    (failed : toFile buffer basis destination deltas tree = .error error torn)
    (early : error.IsRefusal ∨ ∃ fault, tree.lookUp basis = .error fault) : torn = tree := by
  rcases toFile_untouched_or_opened buffer deltas basis destination tree with
    ⟨cause, ended⟩ | ⟨plan, node, number, created, opened⟩
  · rw [ended] at failed
    cases failed
    rfl
  · rcases early with refusal | ⟨fault, missing⟩
    · obtain ⟨fault, rfl⟩ := opened.error_eq_io failed
      cases refusal
    · have found := opened.found
      rw [missing] at found
      cases found

/-- Where nothing is, deltas that tile a target are refused for the copy that comes first in it, and
only for that. -/
theorem fileInPlace_copyWithoutBasis_iff (buffer : Buffer) {path : String} {tree : FileTree}
    (missing : tree.lookUp path = .error .notFound) (tileable : Delta.Tileable deltas)
    (offset : Nat) :
    (∃ torn, fileInPlace buffer path deltas tree = .error (.copyWithoutBasis offset) torn) ↔
      IsLeast (Delta.copyStarts deltas) offset := by
  obtain ⟨plan, planned⟩ := (Plan.exists_ofDeltas_iff deltas).2 tileable
  rw [← Plan.checkNoCopy_eq_error_iff planned, fileInPlace_of_plan buffer planned,
    planFileInPlace_of_notFound missing]
  cases free : plan.checkNoCopy with
  | error error =>
    constructor
    · rintro ⟨torn, refused⟩
      cases refused
      rfl
    · rintro ⟨⟩
      exact ⟨tree, rfl⟩
  | ok _ =>
    constructor
    · rintro ⟨torn, refused⟩
      simp only [] at refused
      split at refused <;> cases refused
    · rintro ⟨⟩

end

/-- No rebuild that a check refuses has done anything: a sink has received nothing, and all files
are as they were, the destination and the basis among them; so they are when there is no basis to
open. Deltas that do not tile a target are refused for that, whatever their copies read, and for a
gap or an overlap if all their stops can be addressed. Where nothing is, deltas that tile a target
are refused in place when one of them is a copy that is not empty, and then for the first one in
target order. A rebuild between two files that has its destination only fails where reading or
writing does; one that has not got so far has done nothing. -/
theorem untouched_of_refused (buffer : Buffer) (deltas : List Delta) :
    (∀ basis sink error torn, toSink buffer basis deltas sink = .error error torn →
      error.IsRefusal → torn = sink) ∧
    (∀ basis destination tree error torn,
      toFile buffer basis destination deltas tree = .error error torn →
      (error.IsRefusal ∨ ∃ fault, tree.lookUp basis = .error fault) → torn = tree) ∧
    (∀ path tree error torn, fileInPlace buffer path deltas tree = .error error torn →
      error.IsRefusal → torn = tree) ∧
    (¬Delta.Tileable deltas →
      ∃ error, error.BlamesTiling ∧
        ((∀ delta ∈ deltas, delta.stop < UInt64.size) → ∃ flaw, error = .tiling flaw) ∧
        (∀ basis sink, toSink buffer basis deltas sink = .error error sink) ∧
        (∀ basis destination tree, tree.same basis destination = false →
          toFile buffer basis destination deltas tree = .error error tree) ∧
        ∀ path tree, fileInPlace buffer path deltas tree = .error error tree) ∧
    (Delta.Tileable deltas → ∀ path tree, tree.lookUp path = .error .notFound →
      ((∃ offset torn, fileInPlace buffer path deltas tree =
          .error (.copyWithoutBasis offset) torn) ↔ (Delta.copyStarts deltas).Nonempty) ∧
        ∀ offset torn, fileInPlace buffer path deltas tree =
          .error (.copyWithoutBasis offset) torn → IsLeast (Delta.copyStarts deltas) offset) ∧
    ∀ basis destination tree,
      (∃ error, toFile buffer basis destination deltas tree = .error error tree) ∨
        (∃ plan node number created,
            Opened deltas basis destination tree plan node number created) ∧
          ∀ error torn, toFile buffer basis destination deltas tree = .error error torn →
            ∃ fault, error = .io fault := by
  refine ⟨fun basis sink error torn => toSink_untouched,
    fun basis destination tree error torn => toFile_untouched,
    fun path tree error torn => fileInPlace_untouched, fun apart => ?_,
    fun tileable path tree missing => ⟨?_, fun offset torn refused =>
      (fileInPlace_copyWithoutBasis_iff buffer missing tileable offset).1 ⟨torn, refused⟩⟩,
    fun basis destination tree => ?_⟩
  · obtain ⟨error, unplanned, blamed, flawed⟩ := Plan.exists_error_of_not_tileable apart
    exact ⟨error, blamed, flawed, fun basis => toSink_of_unplanned buffer basis unplanned,
      fun basis destination tree distinct => toFile_of_unplanned buffer distinct unplanned,
      fun path => fileInPlace_of_unplanned buffer path unplanned⟩
  · have least := fileInPlace_copyWithoutBasis_iff buffer missing tileable
    constructor
    · rintro ⟨offset, refused⟩
      exact ⟨offset, ((least offset).1 refused).1⟩
    · intro copies
      -- the starts are numbers, so one of them is least
      obtain ⟨offset, first⟩ := (⟨_, Nat.sInf_mem copies, fun _ => Nat.sInf_le⟩ :
        ∃ offset, IsLeast (Delta.copyStarts deltas) offset)
      exact ⟨offset, (least offset).2 first⟩
  · rcases toFile_untouched_or_opened buffer deltas basis destination tree with ended | opened
    · exact .inl ended
    · refine .inr ⟨opened, fun error torn failed => ?_⟩
      obtain ⟨plan, node, number, created, opened⟩ := opened
      exact opened.error_eq_io failed

/-- A copy that reaches behind the end of its basis, deltas with a gap, and a missing file. -/
theorem untouched_of_refused_missing :
    let tree := (FileTree.ofWorking []).addFile ["f"] ⟨#[1, 2, 3, 4]⟩
    let buffer : Buffer := ⟨1, by decide⟩
    (∃ torn, toFile buffer "f" "g" [.copy 3 0 2] tree = .error (.copyOutOfRange 3 2 4) torn ∧
      torn = tree) ∧
    (∃ error, fileInPlace buffer "f" [.literal 1 [7], .copy 9 2 1] tree = .error error tree ∧
      error.BlamesTiling) ∧
    ∃ offset torn, fileInPlace buffer "g" [.copy 0 2 1, .literal 0 [7, 8]] tree =
      .error (.copyWithoutBasis offset) torn ∧ torn = tree := by
  intro tree buffer
  have refused :
      toFile buffer "f" "g" [.copy 3 0 2] tree = .error (.copyOutOfRange 3 2 4) tree := by
    cbv
  have gap : Plan.ofDeltas [.literal 1 [7], .copy 9 2 1] = .error (.tiling (.gap 0 1)) := by cbv
  have apart : ¬Delta.Tileable [.literal 1 [7], .copy 9 2 1] := by
    rw [← Plan.exists_ofDeltas_iff, gap]
    rintro ⟨plan, ⟨⟩⟩
  have planned : Plan.ofDeltas [.copy 0 2 1, .literal 0 [7, 8]] =
      .ok ⟨[.literal 0 [7, 8], .copy 0 2 1], 3⟩ := by cbv
  have missing : tree.lookUp "g" = .error .notFound := by cbv
  have copied : (Delta.copyStarts [.copy 0 2 1, .literal 0 [7, 8]]).Nonempty :=
    ⟨2, .copy 0 2 1, List.mem_cons_self .., rfl, rfl, rfl⟩
  obtain ⟨-, file, -⟩ := untouched_of_refused buffer [.copy 3 0 2]
  obtain ⟨-, -, -, blamed, -⟩ := untouched_of_refused buffer [.literal 1 [7], .copy 9 2 1]
  obtain ⟨-, -, place, -, absent, -⟩ := untouched_of_refused buffer [.copy 0 2 1, .literal 0 [7, 8]]
  obtain ⟨error, blame, -, -, -, inPlace⟩ := blamed apart
  obtain ⟨offset, torn, failed⟩ := ((absent ((Plan.exists_ofDeltas_iff _).1 ⟨_, planned⟩) "g" tree
    missing).1).2 copied
  exact ⟨⟨_, refused, file "f" "g" tree _ _ refused (.inl trivial)⟩,
    ⟨error, inPlace "f" tree, blame⟩, offset, torn, failed, place "g" tree _ _ failed trivial⟩

end Rebuild

end BlockDelta
