import BlockDelta.Proofs.Delta.Coalescing
import BlockDelta.Proofs.Matching.Lookup
import BlockDelta.Proofs.Pieces
import BlockDelta.Matching.Greedy

/-!
# The naive matching policy

What a target is matched to, said without sliding sums, groups, windows kept
between steps or literals under way. At each position the window is the next
block length of bytes, or what is left of the target; all its sums are computed
from scratch and compared with every block. `steps` is the policy, `layOut`
turns its steps into deltas, cutting each whole run of unmatched bytes at once,
and `merge` makes one copy of copies that continue each other. Nothing in them
is taken from how a script is put together delta by delta; `script_eq` says that
it comes to the same.

Programs that match byte by byte hand a literal out as soon as it reaches its
bound. `layOutEagerly` does that, and `layOut_eq_eagerly` says that it makes no
difference.
-/

namespace BlockDelta

namespace Reference

/-- The block that the one before is followed by: its number is one more. -/
def follows (last : Option UInt32) (block : Block) : Bool :=
  last.any fun number => block.number.toNat = number.toNat + 1

/-- The blocks that agree with a window in length and both sums, in signature order. -/
def candidates (signature : Signature) (window : Bytes) : List Block :=
  signature.blocks.filter fun block =>
    block.length = window.length ∧ block.weak = (Rolling.Sum.ofBytes window).value ∧
      block.strong = signature.spec.sum window

/-- The block that a window is copied from: the first candidate that follows
the last block matched, otherwise the first candidate. -/
def matched? (signature : Signature) (last : Option UInt32) (window : Bytes) : Option Block :=
  (candidates signature window).find? (follows last) <|> (candidates signature window).head?

/-- What happens at a position of the target. -/
inductive Step where
  /-- The window is copied from a block. -/
  | copied (block : Block) (length : Nat)
  /-- No block has the window, so its first byte is passed over. -/
  | passed (byte : UInt8)

/-- The steps through the rest of a target, behind the last block matched. -/
def steps (signature : Signature) (last : Option UInt32) : Bytes → List Step
  | [] => []
  | byte :: later =>
    let window := (byte :: later).take signature.layout.blockLength.toNat
    match matched? signature last window with
    | some block =>
      .copied block window.length ::
        steps signature (some block.number) ((byte :: later).drop window.length)
    | none => .passed byte :: steps signature last later
termination_by rest => rest.length
decreasing_by
  · have := signature.layout.blockLength.positive
    simp only [List.length_drop, List.length_take, List.length_cons]
    omega
  · simp only [List.length_cons]
    omega

/-- Literals that lie one behind the other. -/
def literals (start : Nat) : List Bytes → List Delta
  | [] => []
  | piece :: rest => .literal (UInt64.ofNat start) piece :: literals (start + piece.length) rest

/-- The deltas of steps from a place in the target on, behind a run of bytes
passed over; a run that ends is cut from its start into pieces of the bound. -/
def layOut (options : MatchOptions) (start : Nat) (run : Bytes) : List Step → List Delta
  | [] => literals start (Bytes.chunks options.maxLiteral options.positive run)
  | .passed byte :: rest => layOut options start (run ++ [byte]) rest
  | .copied block length :: rest =>
    literals start (Bytes.chunks options.maxLiteral options.positive run) ++
      .copy block.offset (UInt64.ofNat (start + run.length)) (UInt32.ofNat length) ::
        layOut options (start + run.length + length) [] rest

/-- The deltas of a target, none joined. -/
def deltas (signature : Signature) (options : MatchOptions) (target : Bytes) : List Delta :=
  layOut options 0 [] (steps signature none target)

/-- Deltas with every copy that continues the one right before it taken into that one, as long as
the two together are no longer than one copy can be. -/
def merge : List Delta → List Delta
  | .copy source offset length :: .copy nextSource nextOffset nextLength :: rest =>
    if Delta.Continues (.copy source offset length) (.copy nextSource nextOffset nextLength) then
      merge (.copy source offset (UInt32.ofNat (length.toNat + nextLength.toNat)) :: rest)
    else .copy source offset length :: merge (.copy nextSource nextOffset nextLength :: rest)
  | delta :: rest => delta :: merge rest
  | [] => []
termination_by deltas => deltas.length

/-- The bytes that a delta carries along. -/
def carried : Delta → Nat
  | .literal _ data => data.length
  | .copy .. => 0

/-- The bytes that a delta takes from the basis. -/
def copied : Delta → Nat
  | .literal .. => 0
  | .copy _ _ length => length.toNat

/-- The script of a target: its deltas with the copies merged, and what these carry and copy. -/
def script (signature : Signature) (options : MatchOptions) (target : Bytes) : Script :=
  let merged := merge (deltas signature options target)
  ⟨merged.reverse, (merged.map carried).sum, (merged.map copied).sum⟩

section

variable {left right joint : Delta} {rest : List Delta}

/-- A first delta that another one continues goes on as a copy as long as both. -/
theorem merge_of_joined (made : left.joined? right = some joint) :
    merge (left :: right :: rest) = merge (joint :: rest) := by
  have onward : left.Continues right := by
    by_contra apart
    rw [Delta.joined?_eq_none_iff.2 apart] at made
    cases made
  cases left with
  | literal offset data => cases onward
  | copy source offset length =>
    cases right with
    | literal nextOffset data => cases onward
    | copy nextSource nextOffset nextLength =>
      have both : length + nextLength = UInt32.ofNat (length.toNat + nextLength.toNat) := by
        rw [UInt32.ofNat_add, UInt32.ofNat_toNat, UInt32.ofNat_toNat]
      rw [merge, if_pos onward, ← both]
      simp only [Delta.joined?, Option.ite_none_right_eq_some, Option.some.injEq] at made
      rw [made.2]

/-- A first delta that the next one does not continue stays as it is. -/
theorem merge_of_apart (apart : ¬left.Continues right) :
    merge (left :: right :: rest) = left :: merge (right :: rest) := by
  cases left with
  | literal offset data => simp [merge]
  | copy source offset length =>
    cases right with
    | literal nextOffset data => simp [merge]
    | copy nextSource nextOffset nextLength => rw [merge, if_neg apart]

end

/-- Merging copies along the list is joining each delta to the last one. -/
theorem merge_eq_join (deltas : List Delta) : merge deltas = Delta.join deltas := by
  induction deltas using Delta.joinInduction with
  | nil => rw [merge, Delta.join]
  | single delta => simp [merge, Delta.join, Delta.joinFrom]
  | joined left right joint rest made ih =>
    rw [merge_of_joined made, Delta.join_of_joined made, ih]
  | apart left right rest separate ih =>
    rw [merge_of_apart (Delta.joined?_eq_none_iff.1 separate), Delta.join_of_apart separate, ih]

/-- What the deltas carry along, one by one, is the total of the literals. -/
theorem sum_carried (deltas : List Delta) :
    (deltas.map carried).sum = Delta.literalTotal deltas := by
  induction deltas with
  | nil => rfl
  | cons delta rest ih =>
    rw [List.map_cons, List.sum_cons, ih, Delta.literalTotal_cons]
    cases delta <;> rfl

/-- What the deltas take from the basis, one by one, is the total of the copies. -/
theorem sum_copied (deltas : List Delta) :
    (deltas.map copied).sum = Delta.copyTotal deltas := by
  induction deltas with
  | nil => rfl
  | cons delta rest ih =>
    rw [List.map_cons, List.sum_cons, ih, Delta.copyTotal_cons]
    cases delta <;> rfl

/-- The script of a target has the joined deltas and their totals. -/
theorem script_eq (signature : Signature) (options : MatchOptions) (target : Bytes) :
    script signature options target =
      Script.ofDeltas (Delta.join (deltas signature options target)) := by
  rw [script, merge_eq_join, Script.ofDeltas_eq, sum_carried, sum_copied]

/-- What is pending is a literal, unless nothing is. -/
def pendingLiteral (start : Nat) : Bytes → List Delta
  | [] => []
  | byte :: rest => [.literal (UInt64.ofNat start) (byte :: rest)]

/-- Something pending is a literal. -/
theorem pendingLiteral_concat (start : Nat) (front : Bytes) (byte : UInt8) :
    pendingLiteral start (front ++ [byte]) =
      [.literal (UInt64.ofNat start) (front ++ [byte])] := by
  cases front <;> rfl

/-- The deltas of steps when pending bytes become a literal as soon as they reach the bound. -/
def layOutEagerly (options : MatchOptions) (start : Nat) (pending : Bytes) :
    List Step → List Delta
  | [] => pendingLiteral start pending
  | .passed byte :: rest =>
    if pending.length + 1 = options.maxLiteral then
      .literal (UInt64.ofNat start) (pending ++ [byte]) ::
        layOutEagerly options (start + (pending.length + 1)) [] rest
    else layOutEagerly options start (pending ++ [byte]) rest
  | .copied block length :: rest =>
    pendingLiteral start pending ++
      .copy block.offset (UInt64.ofNat (start + pending.length)) (UInt32.ofNat length) ::
        layOutEagerly options (start + pending.length + length) [] rest

/-- Literals one behind the other end where their bytes end. -/
theorem literals_append (start : Nat) (front back : List Bytes) :
    literals start (front ++ back) =
      literals start front ++ literals (start + front.flatten.length) back := by
  induction front generalizing start with
  | nil => rfl
  | cons piece rest ih =>
    simp only [List.cons_append, literals, ih, List.flatten_cons, List.length_append,
      Nat.add_assoc]

/-- Less than a literal's bound is one literal or none. -/
theorem literals_chunks_of_short (options : MatchOptions) (start : Nat) {pending : Bytes}
    (short : pending.length ≤ options.maxLiteral) :
    literals start (Bytes.chunks options.maxLiteral options.positive pending) =
      pendingLiteral start pending := by
  cases pending with
  | nil => simp [literals, pendingLiteral]
  | cons byte rest =>
    rw [Bytes.chunks_of_short _ _ short (List.cons_ne_nil _ _)]
    rfl

/-- What lies behind whole literals is one literal more or none. -/
theorem literals_chunks_append (options : MatchOptions) (start count : Nat)
    (whole pending : Bytes) (cut : whole.length = count * options.maxLiteral)
    (short : pending.length ≤ options.maxLiteral) :
    literals start (Bytes.chunks options.maxLiteral options.positive (whole ++ pending)) =
      literals start (Bytes.chunks options.maxLiteral options.positive whole) ++
        pendingLiteral (start + whole.length) pending := by
  rw [Bytes.chunks_append _ _ count _ _ cut, literals_append, Bytes.flatten_chunks,
    literals_chunks_of_short options _ short]

/-- A run is laid out as its whole literals and then the rest, whether or not
the run has ended. -/
theorem layOut_append (options : MatchOptions) (start count : Nat) (whole pending : Bytes)
    (cut : whole.length = count * options.maxLiteral)
    (short : pending.length < options.maxLiteral) (rest : List Step) :
    layOut options start (whole ++ pending) rest =
      literals start (Bytes.chunks options.maxLiteral options.positive whole) ++
        layOutEagerly options (start + whole.length) pending rest := by
  induction rest generalizing start count whole pending with
  | nil => exact literals_chunks_append options start count whole pending cut (Nat.le_of_lt short)
  | cons step rest ih =>
    cases step with
    | copied block length =>
      -- The run has ended, and the next one starts with nothing in it.
      have next := ih (start + (whole ++ pending).length + length) 0 [] []
        (by simp) options.positive
      rw [layOut, layOutEagerly, List.append_nil] at *
      rw [literals_chunks_append options start count whole pending cut (Nat.le_of_lt short), next]
      simp [literals, Nat.add_assoc]
    | passed byte =>
      rw [layOut, layOutEagerly, List.append_assoc]
      have extended : (pending ++ [byte]).length = pending.length + 1 := by simp
      split
      · -- The byte completes a literal, which joins the whole ones.
        rename_i complete
        have joined : (whole ++ (pending ++ [byte])).length = (count + 1) * options.maxLiteral := by
          rw [List.length_append, extended, cut, complete, Nat.succ_mul]
        have next := ih start (count + 1) (whole ++ (pending ++ [byte])) [] joined
          options.positive
        rw [List.append_nil] at next
        rw [next, literals_chunks_append options start count whole _ cut (by omega)]
        simp [pendingLiteral_concat, Nat.add_assoc]
      · rename_i incomplete
        exact ih start count whole (pending ++ [byte]) cut (by omega)

/-- Handing literals out as soon as they reach their bound makes no difference. -/
theorem layOut_eq_eagerly (options : MatchOptions) (start : Nat) (rest : List Step) :
    layOut options start [] rest = layOutEagerly options start [] rest := by
  simpa [literals] using
    layOut_append options start 0 [] [] (by simp) options.positive rest

end Reference

end BlockDelta
