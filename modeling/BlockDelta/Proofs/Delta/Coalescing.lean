import BlockDelta.Delta.Script
import Mathlib

/-!
# Joining copies

Pushing deltas into a script one by one, each looking at its predecessor only,
gives the deltas joined from left to right: a copy is taken into the copy right
before it as long as the two continue each other and the joint length is a
32-bit word. `Continues` says when that is so. The running totals of the script
are those of the joined deltas.
-/

namespace BlockDelta

namespace Delta

/-- Deltas behind a current one: the current one takes in what continues it. -/
def joinFrom (current : Delta) : List Delta → List Delta
  | [] => [current]
  | next :: rest =>
    match current.joined? next with
    | some joined => joinFrom joined rest
    | none => current :: joinFrom next rest

/-- Every copy is taken into a contiguous copy right before it, as long as the length fits. -/
def join : List Delta → List Delta
  | [] => []
  | delta :: rest => joinFrom delta rest

section

variable {left right joint : Delta} {rest : List Delta}

/-- A first delta that takes in the next one goes on as the joint copy. -/
theorem join_of_joined (made : left.joined? right = some joint) :
    join (left :: right :: rest) = join (joint :: rest) := by
  rw [join, joinFrom, made]
  rfl

/-- A first delta that does not take in the next one is done. -/
theorem join_of_apart (apart : left.joined? right = none) :
    join (left :: right :: rest) = left :: join (right :: rest) := by
  rw [join, joinFrom, apart]
  rfl

end

/-- Induction along the joining of deltas. -/
@[elab_as_elim] theorem joinInduction {motive : List Delta → Prop} (nil : motive [])
    (single : ∀ delta, motive [delta])
    (joined : ∀ left right joint rest, left.joined? right = some joint → motive (joint :: rest) →
      motive (left :: right :: rest))
    (apart : ∀ left right rest, left.joined? right = none → motive (right :: rest) →
      motive (left :: right :: rest))
    (deltas : List Delta) : motive deltas := by
  cases deltas with
  | nil => exact nil
  | cons current rest =>
    induction rest generalizing current with
    | nil => exact single current
    | cons next rest ih =>
      cases made : current.joined? next with
      | some joint => exact joined current next joint rest made (ih joint)
      | none => exact apart current next rest made (ih next)

/-- Of two copies the second continues the first, in the basis and in the target, and one copy could
be as long as both. -/
def Continues : Delta → Delta → Prop
  | .copy source offset length, .copy nextSource nextOffset nextLength =>
    nextSource.toNat = source.toNat + length.toNat ∧
      nextOffset.toNat = offset.toNat + length.toNat ∧ length.toNat + nextLength.toNat < 2 ^ 32
  | _, _ => False

/-- Whether one delta continues another is a comparison of words. -/
instance (left right : Delta) : Decidable (left.Continues right) :=
  match left, right with
  | .copy .., .copy .. => inferInstanceAs (Decidable (_ ∧ _ ∧ _))
  | .copy .., .literal .. => inferInstanceAs (Decidable False)
  | .literal .., _ => inferInstanceAs (Decidable False)

/-- Two deltas are left apart unless the second continues the first. -/
theorem joined?_eq_none_iff {left right : Delta} :
    left.joined? right = none ↔ ¬left.Continues right := by
  cases left with
  | literal offset data => simp [joined?, Continues]
  | copy source offset length =>
    cases right with
    | literal nextOffset data => simp [joined?, Continues]
    | copy nextSource nextOffset nextLength =>
      simp only [joined?, Continues, ite_eq_right_iff, reduceCtorEq, imp_false]
      rw [eq_comm (a := nextSource.toNat), eq_comm (a := nextOffset.toNat)]
      rfl

/-- The bytes that deltas carry along. -/
def literalTotal (deltas : List Delta) : Nat :=
  totalLength (deltas.filter isLiteral)

/-- The bytes that deltas take from the basis. -/
def copyTotal (deltas : List Delta) : Nat :=
  totalLength (deltas.filter fun delta => !delta.isLiteral)

/-- A joint copy is a copy as long as its two parts. -/
theorem joined?_eq_some {left right joined : Delta} (made : left.joined? right = some joined) :
    left.isLiteral = false ∧ right.isLiteral = false ∧ joined.isLiteral = false ∧
      joined.length = left.length + right.length := by
  cases left with
  | literal offset data => simp [joined?] at made
  | copy source offset length =>
    cases right with
    | literal offset data => simp [joined?] at made
    | copy nextSource nextOffset nextLength =>
      simp only [joined?] at made
      split at made
      · rename_i fits
        cases made
        refine ⟨rfl, rfl, rfl, ?_⟩
        change (length + nextLength).toNat = length.toNat + nextLength.toNat
        rw [UInt32.toNat_add, Nat.mod_eq_of_lt fits.2.2]
      · cases made

/-- A literal in front adds to the bytes carried along. -/
theorem literalTotal_cons (delta : Delta) (rest : List Delta) :
    literalTotal (delta :: rest) =
      (if delta.isLiteral then delta.length else 0) + literalTotal rest := by
  by_cases literal : delta.isLiteral <;> simp [literalTotal, totalLength, literal]

/-- A copy in front adds to the bytes taken from the basis. -/
theorem copyTotal_cons (delta : Delta) (rest : List Delta) :
    copyTotal (delta :: rest) =
      (if delta.isLiteral then 0 else delta.length) + copyTotal rest := by
  by_cases literal : delta.isLiteral <;> simp [copyTotal, totalLength, literal]

/-- The lengths of two lists of deltas add up. -/
theorem totalLength_append (front back : List Delta) :
    totalLength (front ++ back) = totalLength front + totalLength back := by
  induction front with
  | nil => simp [totalLength]
  | cons delta rest ih => rw [List.cons_append, totalLength, totalLength, ih, Nat.add_assoc]

/-- The order of the deltas does not matter for their length. -/
theorem totalLength_perm {left right : List Delta} (same : left.Perm right) :
    totalLength left = totalLength right := by
  induction same with
  | nil => rfl
  | cons delta _ ih => rw [totalLength, totalLength, ih]
  | swap first second rest => simp only [totalLength, Nat.add_left_comm]
  | trans _ _ head tail => exact head.trans tail

/-- Every byte is carried along or taken from the basis. -/
theorem literalTotal_add_copyTotal (deltas : List Delta) :
    literalTotal deltas + copyTotal deltas = totalLength deltas := by
  induction deltas with
  | nil => rfl
  | cons delta rest ih =>
    rw [literalTotal_cons, copyTotal_cons, totalLength, ← ih]
    by_cases literal : delta.isLiteral <;> simp [literal, Nat.add_assoc, Nat.add_left_comm]

/-- The bytes carried along by two lists of deltas add up. -/
theorem literalTotal_append (front back : List Delta) :
    literalTotal (front ++ back) = literalTotal front + literalTotal back := by
  rw [literalTotal, List.filter_append, totalLength_append]
  rfl

/-- The bytes taken from the basis by two lists of deltas add up. -/
theorem copyTotal_append (front back : List Delta) :
    copyTotal (front ++ back) = copyTotal front + copyTotal back := by
  rw [copyTotal, List.filter_append, totalLength_append]
  rfl

/-- The bytes carried along and the bytes taken from the basis stay the same. -/
theorem totals_join (deltas : List Delta) :
    literalTotal (join deltas) = literalTotal deltas ∧
      copyTotal (join deltas) = copyTotal deltas := by
  induction deltas using joinInduction with
  | nil => exact ⟨rfl, rfl⟩
  | single delta => exact ⟨rfl, rfl⟩
  | joined left right joint rest made ih =>
    obtain ⟨first, second, both, length⟩ := joined?_eq_some made
    simp only [join_of_joined made, ih, literalTotal_cons, copyTotal_cons, first, second, both,
      length, Bool.false_eq_true, if_false]
    omega
  | apart left right rest separate ih =>
    rw [join_of_apart separate, literalTotal_cons, copyTotal_cons, ih.1, ih.2,
      literalTotal_cons left, copyTotal_cons left]
    exact ⟨rfl, rfl⟩

end Delta

namespace Script

/-- Adding deltas as they are adds up their totals. -/
theorem foldl_add (script : Script) (deltas : List Delta) :
    deltas.foldl add script =
      ⟨deltas.reverse ++ script.recent, script.literalBytes + Delta.literalTotal deltas,
        script.copyBytes + Delta.copyTotal deltas⟩ := by
  induction deltas generalizing script with
  | nil => rfl
  | cons delta rest ih =>
    rw [List.foldl_cons, ih, Delta.literalTotal_cons, Delta.copyTotal_cons]
    by_cases literal : delta.isLiteral <;> simp [add, literal, Nat.add_assoc]

/-- A script of given deltas has their totals. -/
theorem ofDeltas_eq (deltas : List Delta) :
    ofDeltas deltas =
      ⟨deltas.reverse, Delta.literalTotal deltas, Delta.copyTotal deltas⟩ := by
  rw [ofDeltas, foldl_add]
  simp [empty]

/-- A script of given deltas lists them as given. -/
theorem deltas_ofDeltas (deltas : List Delta) : (ofDeltas deltas).deltas = deltas := by
  rw [ofDeltas_eq, Script.deltas, List.reverse_reverse]

/-- What a script of given deltas describes is as long as the deltas. -/
theorem totalBytes_ofDeltas (deltas : List Delta) :
    (ofDeltas deltas).totalBytes = Delta.totalLength deltas := by
  rw [ofDeltas_eq]
  exact Delta.literalTotal_add_copyTotal deltas

/-- Pushing behind a last delta joins from that delta on and adds up the totals. -/
theorem extend_cons (last : Delta) (older deltas : List Delta) (literals copies : Nat) :
    (⟨last :: older, literals, copies⟩ : Script).extend deltas =
      ⟨(Delta.joinFrom last deltas).reverse ++ older, literals + Delta.literalTotal deltas,
        copies + Delta.copyTotal deltas⟩ := by
  induction deltas generalizing last older literals copies with
  | nil => rfl
  | cons delta rest ih =>
    have step : (⟨last :: older, literals, copies⟩ : Script).extend (delta :: rest) =
        ((⟨last :: older, literals, copies⟩ : Script).push delta).extend rest := rfl
    rw [step, push, Delta.joinFrom, Delta.literalTotal_cons, Delta.copyTotal_cons]
    cases made : last.joined? delta with
    | some joined =>
      obtain ⟨_, right, _, _⟩ := Delta.joined?_eq_some made
      simp only [made, ih, right, Bool.false_eq_true, if_false, Nat.zero_add, Nat.add_assoc]
    | none =>
      by_cases literal : delta.isLiteral <;> simp [made, add, literal, ih, Nat.add_assoc]

/-- Pushing deltas one by one gives the script of the joined deltas. -/
theorem extend_empty (deltas : List Delta) :
    empty.extend deltas = ofDeltas (Delta.join deltas) := by
  cases deltas with
  | nil => rfl
  | cons delta rest =>
    obtain ⟨literals, copies⟩ := Delta.totals_join (delta :: rest)
    have step : empty.extend (delta :: rest) = (empty.add delta).extend rest := rfl
    rw [step, ofDeltas_eq, literals, copies, Delta.join, Delta.literalTotal_cons,
      Delta.copyTotal_cons]
    by_cases literal : delta.isLiteral <;> simp [add, literal, extend_cons, empty]

end Script

end BlockDelta
