import BlockDelta.Proofs.Rolling.Law
import BlockDelta.Rolling.Registers

/-!
# Registers keep the sums

The lower halves of running registers are the sums: reducing modulo `2 ^ 16`
goes through sums, differences and products of words, so it makes no difference
whether it is done with every byte or once at the end, nor whether four bytes
are taken together. So every operation on registers that hold the sums of a
window (`ofSum`) is the operation on the sums.
-/

namespace BlockDelta.Rolling

namespace Registers

/-- The registers that hold sums. -/
def ofSum (sum : Sum) : Registers :=
  ⟨sum.first.toUInt32, sum.second.toUInt32, min sum.length longest⟩

/-- The lower half of a register is its remainder. -/
theorem lower_eq (register : UInt32) : lower register = register.toUInt16.toUInt32 := by
  apply UInt32.toNat_inj.mp
  rw [UInt16.toNat_toUInt32, UInt32.toNat_toUInt16]
  change register.toNat &&& (2 ^ 16 - 1) = _
  exact Nat.and_two_pow_sub_one_eq_mod ..

/-- A byte adds the same to a register and to a sum. -/
theorem toUInt16_term (byte : UInt8) : (term byte).toUInt16 = Rolling.term byte := by
  rw [term, UInt32.toUInt16_add, UInt8.toUInt16_toUInt32]
  rfl

/-- Four bytes at a time are taken like one at a time. -/
theorem absorbAll_eq_foldl (running : UInt32 × UInt32) (chunk : Bytes) :
    absorbAll running chunk = chunk.foldl absorb running := by
  fun_induction absorbAll running chunk with
  | case1 running a b c d rest ih => simpa only [List.foldl_cons] using ih
  | case2 => rfl

/-- The sums of a chunk are what its running registers leave modulo `2 ^ 16`. -/
theorem update_halves (running : UInt32 × UInt32) (length : Nat) (chunk : Bytes) :
    Sum.update ⟨running.1.toUInt16, running.2.toUInt16, length⟩ chunk =
      ⟨(absorbAll running chunk).1.toUInt16, (absorbAll running chunk).2.toUInt16,
        length + chunk.length⟩ := by
  rw [absorbAll_eq_foldl]
  induction chunk generalizing running length with
  | nil => rfl
  | cons byte rest ih =>
    have step : Sum.absorb ⟨running.1.toUInt16, running.2.toUInt16, length⟩ byte =
        ⟨(absorb running byte).1.toUInt16, (absorb running byte).2.toUInt16, length + 1⟩ := by
      simp only [Sum.absorb, absorb, UInt32.toUInt16_add, toUInt16_term]
    rw [List.foldl_cons, List.length_cons, Nat.add_comm rest.length, ← Nat.add_assoc, ← ih, ← step]
    rfl

/-- Registers are extended by a chunk as the sums are. -/
theorem update_ofSum (sum : Sum) (chunk : Bytes) :
    (ofSum sum).update chunk = ofSum (sum.update chunk) := by
  cases chunk with
  | nil => rfl
  | cons byte rest =>
    have halves := update_halves (sum.first.toUInt32, sum.second.toUInt32) sum.length (byte :: rest)
    simp only [UInt16.toUInt16_toUInt32] at halves
    -- a length that cannot be counted any more stays the greatest one
    have counted : min (min sum.length longest + (byte :: rest).length) longest =
        min (sum.length + (byte :: rest).length) longest := by omega
    rw [halves, ofSum, ofSum, ← counted, ← lower_eq, ← lower_eq]
    rfl

/-- Registers computed afresh hold the sums computed afresh. -/
theorem ofBytes_eq_ofSum (window : Bytes) : ofBytes window = ofSum (Sum.ofBytes window) :=
  update_ofSum Sum.empty window

/-- The length is refused where that of the sums is; otherwise it is the same, in twice the
width. -/
theorem checkedLength_ofSum (sum : Sum) :
    (∃ error, (ofSum sum).checkedLength = .error error ∧
        ∃ cause, sum.checkedLength = .error cause) ∨
      ∃ length, (ofSum sum).checkedLength = .ok length ∧
        sum.checkedLength = .ok length.toUInt16 ∧ sum.length ≤ longest := by
  have wide : longestWindow < longest := by decide
  have kept : (ofSum sum).length = min sum.length longest := rfl
  rw [checkedLength, Sum.checkedLength, kept]
  by_cases nothing : sum.length = 0
  · rw [if_pos nothing, if_pos (by omega)]
    exact .inl ⟨_, rfl, _, rfl⟩
  · rw [if_neg nothing, if_neg (by omega)]
    by_cases long : longestWindow < sum.length
    · rw [if_pos long, if_pos (by omega)]
      exact .inl ⟨_, rfl, _, rfl⟩
    · have same : min sum.length longest = sum.length := by omega
      rw [if_neg long, if_neg (by omega), same]
      exact .inr ⟨_, rfl, congrArg Except.ok (UInt32.toUInt16_ofNat' _).symm, by omega⟩

/-- Registers slide as the sums do. -/
theorem roll_ofSum {sum rolled : Sum} {outgoing incoming : UInt8}
    (done : sum.roll outgoing incoming = .ok rolled) :
    (ofSum sum).roll outgoing incoming = .ok (ofSum rolled) := by
  rcases checkedLength_ofSum sum with ⟨_, -, cause, refused⟩ | ⟨length, counted, also, -⟩
  · rw [Sum.roll, refused] at done
    cases done
  · rw [Sum.roll, also] at done
    cases done
    rw [roll, counted]
    simp only [ofSum, bind, Except.bind, pure, Except.pure, lower_eq, UInt32.toUInt16_add,
      UInt32.toUInt16_sub, UInt32.toUInt16_mul, UInt16.toUInt16_toUInt32, toUInt16_term]

/-- Registers shrink as the sums do. -/
theorem trim_ofSum {sum trimmed : Sum} {outgoing : UInt8}
    (done : sum.trim outgoing = .ok trimmed) :
    (ofSum sum).trim outgoing = .ok (ofSum trimmed) := by
  rcases checkedLength_ofSum sum with ⟨_, -, cause, refused⟩ | ⟨length, counted, also, few⟩
  · rw [Sum.trim, refused] at done
    cases done
  · rw [Sum.trim, also] at done
    cases done
    have less : min sum.length longest - 1 = min (sum.length - 1) longest := by
      rw [Nat.min_eq_left few, Nat.min_eq_left (Nat.le_trans (Nat.sub_le ..) few)]
    rw [trim, counted]
    simp only [ofSum, bind, Except.bind, pure, Except.pure, lower_eq, UInt32.toUInt16_sub,
      UInt32.toUInt16_mul, UInt16.toUInt16_toUInt32, toUInt16_term, less]

/-- Where the length of sums is refused, registers that hold them neither slide nor shrink. -/
theorem refused_of_checkedLength {sum : Sum} {cause : Error}
    (refused : sum.checkedLength = .error cause) (outgoing : UInt8) :
    (∀ incoming, ∃ error, (ofSum sum).roll outgoing incoming = .error error) ∧
      ∃ error, (ofSum sum).trim outgoing = .error error := by
  rcases checkedLength_ofSum sum with ⟨error, also, -⟩ | ⟨length, -, counted, -⟩
  · refine ⟨fun incoming => ⟨error, ?_⟩, error, ?_⟩
    · rw [roll, also]
      rfl
    · rw [trim, also]
      rfl
  · rw [refused] at counted
    cases counted

/-- Registers that hold sums are worth what the sums are worth. -/
theorem value_ofSum (sum : Sum) : (ofSum sum).value = sum.value := rfl

end Registers

end BlockDelta.Rolling
