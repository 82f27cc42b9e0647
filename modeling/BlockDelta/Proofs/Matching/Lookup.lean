import BlockDelta.Matching.Index
import Mathlib

/-!
# The index finds what a linear scan finds

Groups by rolling sum, a strong sum computed at most once and a remembered first
hit are ways to save work. What is found is said without them: of the blocks
that agree in rolling sum, length and strong sum, in signature order, the first
one with the preferred number, otherwise the first one.
-/

namespace BlockDelta

/-- The first candidate with the preferred number, otherwise the first candidate. -/
def Block.preferredOrFirst (preferred : Option UInt32) (candidates : List Block) : Option Block :=
  candidates.find? (fun block => preferred = some block.number) <|> candidates.head?

namespace BlockIndex

/-- The group of a rolling sum is the part of the signature that has it. -/
theorem getD_groupsOf (blocks : List Block) (weak : UInt32) :
    (groupsOf blocks).getD weak [] = blocks.filter fun block => block.weak = weak := by
  induction blocks with
  | nil => simp [groupsOf]
  | cons block rest ih =>
    have step : groupsOf (block :: rest) =
        (groupsOf rest).insert block.weak (block :: (groupsOf rest).getD block.weak []) := rfl
    rw [step, Std.HashMap.getD_insert]
    by_cases same : block.weak = weak
    · subst same
      simp [ih]
    · simp [same, ih]

/-- The remembered first hit loses to a preferred block and wins over a later first one. -/
theorem choose_eq (length : Nat) (strong : Bytes) (preferred : Option UInt32)
    (first : Option Block) (group : List Block) :
    choose length strong preferred first group =
      ((group.filter fun block => block.length = length ∧ block.strong = strong).find?
          (fun block => preferred = some block.number) <|> first <|>
        (group.filter fun block => block.length = length ∧ block.strong = strong).head?) := by
  induction group generalizing first with
  | nil => cases first <;> rfl
  | cons block rest ih =>
    rw [choose]
    by_cases hit : block.length = length ∧ block.strong = strong
    · rw [if_pos hit]
      by_cases wanted : preferred = some block.number
      · simp [hit, wanted]
      · rw [if_neg wanted, ih]
        cases first <;> simp [hit, wanted]
    · rw [if_neg hit, ih, List.filter_cons_of_neg (by simpa using hit)]

/-- Looking up a window among the blocks of a signature is scanning them one by one. -/
theorem findWith?_ofSignature (signature : Signature) (sum : Rolling.Sum) (length : Nat)
    (window : Unit → Bytes × Bytes) (preferred : Option UInt32) :
    (ofSignature signature).findWith? sum length window preferred =
      Block.preferredOrFirst preferred (signature.blocks.filter fun block =>
        block.weak = sum.value ∧ block.length = length ∧
          block.strong = signature.spec.sum ((window ()).1 ++ (window ()).2)) := by
  have grouped : (ofSignature signature).group sum.value =
      signature.blocks.filter fun block => block.weak = sum.value :=
    getD_groupsOf _ _
  have split : (signature.blocks.filter fun block =>
        block.weak = sum.value ∧ block.length = length ∧
          block.strong = signature.spec.sum ((window ()).1 ++ (window ()).2)) =
      ((ofSignature signature).group sum.value).filter fun block =>
        block.length = length ∧
          block.strong = signature.spec.sumParts (window ()).1 (window ()).2 := by
    rw [grouped, List.filter_filter, Strong.Spec.sumParts_eq_sum]
    congr 1
    funext block
    simp [Bool.and_comm]
  rw [split, findWith?]
  by_cases reached : ((ofSignature signature).group sum.value).any
      fun block => block.length == length
  · rw [if_pos reached]
    change choose length _ preferred none _ = _
    rw [choose_eq]
    rfl
  · -- No block of the group has the length, so no strong sum is asked for.
    have nothing : ((ofSignature signature).group sum.value).filter (fun block =>
        block.length = length ∧
          block.strong = signature.spec.sumParts (window ()).1 (window ()).2) = [] := by
      rw [List.filter_eq_nil_iff]
      intro block found hit
      apply reached
      rw [List.any_eq_true]
      exact ⟨block, found, by simpa using (of_decide_eq_true hit).1⟩
    rw [if_neg reached, nothing]
    rfl

end BlockIndex

end BlockDelta
