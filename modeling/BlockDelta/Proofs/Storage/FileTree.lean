import BlockDelta.Storage.FileTree
import Mathlib

/-!
# What a path leads to before and after a file changes

Storing a content changes nothing that a look-up sees. A file that is created
under a path that led to nothing is found under that path afterwards, and all
that could be looked up before still leads to the same node.
-/

namespace BlockDelta.FileTree

variable {tree created : FileTree} {path : String} {number : Nat} {content : ByteArray}

/-- A path leads to a file with this content. -/
def Holds (tree : FileTree) (path : String) (content : ByteArray) : Prop :=
  ∃ number, tree.lookUp path = .ok (.file number) ∧ tree.contents[number]? = some content

/-- A path holds one content at most. -/
theorem Holds.eq_of_holds {other : ByteArray} (holds : tree.Holds path content)
    (also : tree.Holds path other) : content = other := by
  obtain ⟨number, found, held⟩ := holds
  obtain ⟨_, again, held'⟩ := also
  rw [found] at again
  cases again
  rw [held] at held'
  exact Option.some.inj held'

/-- A content that is stored is found under the path of its file. -/
theorem holds_store (found : tree.lookUp path = .ok (.file number))
    (known : number < tree.contents.size) (content : ByteArray) :
    (tree.store number content).Holds path content := by
  refine ⟨number, found, ?_⟩
  rw [store, Array.getElem?_setIfInBounds, if_pos rfl, if_pos known]

/-- A place that leads somewhere still does so when a name is added. -/
theorem node?_add {place : Place} {node : Node} (added : Place)
    (found : tree.node? place = some node) : (tree.add added).2.node? place = some node := by
  unfold node? at found ⊢
  simp only [add, List.lookup_append]
  split
  · rename_i directory
    rw [if_pos directory] at found
    exact found
  · rename_i other
    rw [if_neg other] at found
    cases named : tree.links.lookup place with
    | none => simp [named] at found
    | some number =>
      rw [named] at found
      exact found

/-- A part that can be followed still leads to the same node when a name is added. -/
theorem follow_add {start node : Node} {part : String} (added : Place)
    (found : tree.follow start part = .ok node) :
    (tree.add added).2.follow start part = .ok node := by
  cases start with
  | file number => cases found
  | directory place =>
    simp only [follow] at found ⊢
    by_cases same : part = "" ∨ part = "."
    · rw [if_pos same] at found ⊢
      exact found
    by_cases up : part = ".."
    · rw [if_neg same, if_pos up] at found ⊢
      exact found
    by_cases long : longestName < part.utf8ByteSize
    · rw [if_neg same, if_neg up, if_pos long] at found
      cases found
    · rw [if_neg same, if_neg up, if_neg long] at found ⊢
      cases known : tree.node? (place ++ [part]) with
      | none => simp [known] at found
      | some next =>
        rw [known] at found
        rw [node?_add added known]
        exact found

/-- Parts that can be followed still lead to the same node when a name is added. -/
theorem foldlM_follow_add {start node : Node} {parts : List String} (added : Place)
    (found : parts.foldlM tree.follow start = .ok node) :
    parts.foldlM (tree.add added).2.follow start = .ok node := by
  induction parts generalizing start with
  | nil => exact found
  | cons part rest ih =>
    rw [List.foldlM_cons] at found ⊢
    cases step : tree.follow start part with
    | error fault => simp [step, bind, Except.bind] at found
    | ok next =>
      rw [step] at found
      rw [follow_add added step]
      exact ih found

/-- A part that leads to nothing leads to the file that is added there. -/
theorem follow_add_self {place : Place} {name : String}
    (missing : tree.follow (.directory place) name = .error .notFound) :
    (tree.add (place ++ [name])).2.follow (.directory place) name =
      .ok (.file tree.contents.size) := by
  simp only [follow] at missing ⊢
  by_cases same : name = "" ∨ name = "."
  · rw [if_pos same] at missing
    cases missing
  by_cases up : name = ".."
  · rw [if_neg same, if_pos up] at missing
    cases missing
  by_cases long : longestName < name.utf8ByteSize
  · rw [if_neg same, if_neg up, if_pos long] at missing
    cases missing
  · rw [if_neg same, if_neg up, if_neg long] at missing ⊢
    have nothing : tree.node? (place ++ [name]) = none := by
      cases known : tree.node? (place ++ [name]) with
      | none => rfl
      | some node => simp [known] at missing
    have added : (tree.add (place ++ [name])).2.node? (place ++ [name]) =
        some (.file tree.contents.size) := by
      unfold node? at nothing ⊢
      simp only [add, List.lookup_append]
      split
      · rename_i directory
        rw [if_pos directory] at nothing
        cases nothing
      · rename_i other
        rw [if_neg other, Option.map_eq_none_iff] at nothing
        simp [nothing]
    rw [added]

/-- A path without a slash at its end is its front and its last name. -/
theorem parts_eq_splitLast (named : parts path ≠ []) (plain : (splitLast path).2.2 = false) :
    parts path = (splitLast path).1 ++ [(splitLast path).2.1] := by
  unfold splitLast at plain ⊢
  simp only [] at plain ⊢
  obtain ⟨front, last, whole⟩ := (List.eq_nil_or_concat (parts path)).resolve_left named
  rw [whole] at plain ⊢
  have plainName : last ≠ "" := by
    rintro rfl
    simp at plain
  simp [plainName]

/-- A path without a slash at its end leads where its last name leads from its front. -/
theorem foldlM_parts {start node : Node} (named : parts path ≠ [])
    (plain : (splitLast path).2.2 = false)
    (reached : (splitLast path).1.foldlM tree.follow start = .ok node) :
    (parts path).foldlM tree.follow start = tree.follow node (splitLast path).2.1 := by
  rw [parts_eq_splitLast named plain, List.foldlM_append, reached]
  cases step : tree.follow node (splitLast path).2.1 with
  | ok next => simp [step, bind, Except.bind, pure, Except.pure]
  | error fault => simp [step, bind, Except.bind]

/-- A file can only be created below a directory, under a plain name that leads to a file, which
is emptied, or to nothing. -/
theorem create_eq_ok (made : tree.create path = .ok (number, created)) :
    checkPath path = .ok () ∧ (splitLast path).2.2 = false ∧ parts path ≠ [] ∧
      ∃ place, (splitLast path).1.foldlM tree.follow (tree.origin path) = .ok (.directory place) ∧
        ((tree.follow (.directory place) (splitLast path).2.1 = .ok (.file number) ∧
            created = tree.store number .empty) ∨
          (tree.follow (.directory place) (splitLast path).2.1 = .error .notFound ∧
            (number, created) = tree.add (place ++ [(splitLast path).2.1]))) := by
  unfold create at made
  cases valid : checkPath path with
  | error fault => simp [valid, bind, Except.bind] at made
  | ok done =>
  cases reached : (splitLast path).1.foldlM tree.follow (tree.origin path) with
  | error fault => simp [valid, reached, bind, Except.bind] at made
  | ok node =>
  simp only [valid, reached, bind, Except.bind] at made
  cases node with
  | file other => cases made
  | directory place =>
  cases plain : (splitLast path).2.2 with
  | true =>
    simp only [plain, if_true] at made
    cases made
  | false =>
  simp only [plain, Bool.false_eq_true, if_false] at made
  refine ⟨rfl, rfl, fun empty => ?_, place, rfl, ?_⟩
  · -- without any name the path leads to the directory itself
    have name : (splitLast path).2.1 = "" := by simp [splitLast, empty]
    simp only [name, follow, true_or, if_true] at made
    cases made
  · cases last : tree.follow (.directory place) (splitLast path).2.1 with
    | ok node =>
      rw [last] at made
      cases node with
      | directory other => cases made
      | file other =>
        cases made
        exact .inl ⟨rfl, rfl⟩
    | error fault =>
      rw [last] at made
      cases fault <;> cases made
      exact .inr ⟨rfl, rfl⟩

/-- A file created under a path that led to nothing is found under that path. -/
theorem lookUp_of_create (missing : tree.lookUp path = .error .notFound)
    (made : tree.create path = .ok (number, created)) :
    created.lookUp path = .ok (.file number) ∧ number < created.contents.size := by
  obtain ⟨valid, plain, named, place, reached, made⟩ := create_eq_ok made
  unfold lookUp at missing ⊢
  simp only [valid, bind, Except.bind] at missing ⊢
  rw [foldlM_parts named plain reached] at missing
  rcases made with ⟨existing, _⟩ | ⟨_, added⟩
  · rw [existing] at missing
    cases missing
  · have places : number = tree.contents.size := congrArg Prod.fst added
    have grown : created = (tree.add (place ++ [(splitLast path).2.1])).2 := congrArg Prod.snd added
    have origin : created.origin path = tree.origin path := by rw [grown]; rfl
    have front := foldlM_follow_add (place ++ [(splitLast path).2.1]) reached
    rw [← grown] at front
    rw [origin, foldlM_parts named plain front, places, grown]
    exact ⟨follow_add_self missing, by simp [add]⟩

end BlockDelta.FileTree
