import BlockDelta.Proofs.Running
import BlockDelta.Proofs.Storage.FileTree

/-!
# Trees whose names lead somewhere

A tree that is built from files, further names and directories is sound: every
name leads to a file that is there, and a path to a file can be read. A file
that is created can be looked up under its path, whether it was there before or
not, and it is empty.
-/

namespace BlockDelta.FileTree

/-- Every name leads to a file, and no file is longer than a 64-bit word can say. -/
structure Sound (tree : FileTree) : Prop where
  /-- The number behind every name is that of a file. -/
  linked : ∀ link ∈ tree.links, link.2 < tree.contents.size
  /-- The length of every file is a 64-bit word. -/
  addressed : ∀ content ∈ tree.contents, content.size < UInt64.size

/-- A tree without files is sound. -/
theorem sound_ofWorking (working : Place) : (ofWorking working).Sound := ⟨nofun, nofun⟩

variable {tree created : FileTree} {path : String} {number other : Nat}

/-- A tree stays sound when a file is added. -/
theorem Sound.addFile (sound : tree.Sound) (place : Place) {content : ByteArray}
    (small : content.size < UInt64.size) : (tree.addFile place content).Sound := by
  have grown : (tree.addFile place content).contents.size = tree.contents.size + 1 := by
    simp [FileTree.addFile, add, store]
  refine ⟨fun link among => ?_, fun held among => ?_⟩
  · rw [grown]
    rcases List.mem_append.1 among with before | last
    · exact Nat.lt_succ_of_lt (sound.linked link before)
    · rw [List.mem_singleton.1 last]
      exact Nat.lt_succ_self _
  · rcases Array.mem_or_eq_of_mem_setIfInBounds among with listed | rfl
    · rcases Array.mem_push.1 listed with before | rfl
      · exact sound.addressed held before
      · decide
    · exact small

/-- A tree stays sound when a file gets another name. -/
theorem Sound.addLink (sound : tree.Sound) (existing added : Place) :
    (tree.addLink existing added).Sound := by
  unfold FileTree.addLink
  split
  · exact sound
  · rename_i number found
    obtain ⟨front, back, split, -⟩ := List.lookup_eq_some_iff.1 found
    refine ⟨fun link among => ?_, sound.addressed⟩
    rcases List.mem_append.1 among with before | last
    · exact sound.linked link before
    · rw [List.mem_singleton.1 last]
      exact sound.linked (existing, number) (by simp [split])

/-- A tree stays sound when a directory is made. -/
theorem Sound.addDirectory (sound : tree.Sound) (place : Place) : (tree.addDirectory place).Sound :=
  ⟨sound.linked, sound.addressed⟩

/-- A part of a path leads to files that are there. -/
theorem Sound.lt_of_follow (sound : tree.Sound) {start : Node} {part : String}
    (found : tree.follow start part = .ok (.file number)) : number < tree.contents.size := by
  cases start with
  | file _ => cases found
  | directory place =>
    simp only [follow] at found
    split_ifs at found with here up long
    · cases found
    · cases found
    · unfold node? at found
      split_ifs at found with directory
      · cases found
      · cases named : tree.links.lookup (place ++ [part]) with
        | none => simp [named] at found
        | some known =>
          obtain ⟨front, back, split, -⟩ := List.lookup_eq_some_iff.1 named
          simp only [named, Option.map_some, Except.ok.injEq, Node.file.injEq] at found
          exact found ▸ sound.linked (place ++ [part], known) (by simp [split])

/-- A path leads to files that are there. -/
theorem Sound.lt_of_lookUp (sound : tree.Sound)
    (found : tree.lookUp path = .ok (.file number)) : number < tree.contents.size := by
  obtain ⟨_, -, reached⟩ := exists_of_bind_eq_ok found
  rcases List.eq_nil_or_concat' (parts path) with none | ⟨front, last, whole⟩
  · rw [none] at reached
    cases reached
  · rw [whole, List.foldlM_append] at reached
    obtain ⟨node, -, final⟩ := exists_of_bind_eq_ok reached
    obtain ⟨next, followed, ended⟩ := exists_of_bind_eq_ok final
    cases ended
    exact sound.lt_of_follow followed

/-- A path to a file holds the content of that. -/
theorem Sound.holds (sound : tree.Sound) (found : tree.lookUp path = .ok (.file number)) :
    tree.Holds path (tree.content number) ∧ (tree.content number).size < UInt64.size := by
  have known := sound.lt_of_lookUp found
  have here : tree.content number = tree.contents[number] := by
    rw [content, ← Array.getElem_eq_getD]
  rw [here]
  exact ⟨⟨number, found, Array.getElem?_eq_getElem known⟩,
    sound.addressed _ (Array.getElem_mem known)⟩

/-- What is read behind a path is what the path holds. -/
theorem Sound.holds_of_read (sound : tree.Sound) {node : Node} {content : ByteArray}
    (found : tree.lookUp path = .ok node) (read : tree.read node = .ok content) :
    tree.Holds path content := by
  cases node with
  | directory place => cases read
  | file number =>
    cases read
    exact (sound.holds found).1

/-- A path under which a file can be created leads to that file already, or to nothing. -/
theorem lookUp_of_creatable (made : tree.create path = .ok (number, created)) :
    (tree.lookUp path = .ok (.file number) ∧ created = tree.store number .empty) ∨
      (tree.lookUp path = .error .notFound ∧ number = tree.contents.size ∧
        ∃ place, created = (tree.add place).2) := by
  obtain ⟨valid, plain, named, place, reached, made⟩ := create_eq_ok made
  unfold lookUp
  simp only [valid, bind, Except.bind]
  rw [foldlM_parts named plain reached]
  rcases made with ⟨existing, emptied⟩ | ⟨missing, added⟩
  · exact .inl ⟨existing, emptied⟩
  · exact .inr ⟨missing, congrArg Prod.fst added, _, congrArg Prod.snd added⟩

/-- A file that is created is found under its path, and is there. -/
theorem Sound.lookUp_created (sound : tree.Sound)
    (made : tree.create path = .ok (number, created)) :
    created.lookUp path = .ok (.file number) ∧ number < created.contents.size := by
  rcases lookUp_of_creatable made with ⟨existing, rfl⟩ | ⟨missing, -⟩
  · refine ⟨existing, ?_⟩
    rw [store, Array.size_setIfInBounds]
    exact sound.lt_of_lookUp existing
  · exact lookUp_of_create missing made

/-- A file is empty when it has been created anew. -/
theorem Sound.content_created (sound : tree.Sound) (found : tree.lookUp path = .ok (.file other))
    (made : tree.create path = .ok (number, created)) : created.content other = .empty := by
  rcases lookUp_of_creatable made with ⟨existing, rfl⟩ | ⟨missing, -⟩
  · rw [found] at existing
    cases existing
    rw [content_store tree number number .empty (sound.lt_of_lookUp found), if_pos rfl]
  · rw [found] at missing
    cases missing

end BlockDelta.FileTree
