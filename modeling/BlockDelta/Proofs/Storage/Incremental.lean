import BlockDelta.Proofs.Running
import BlockDelta.Proofs.Storage.Streams
import Mathlib

/-!
# Reading more of a stream

A read is incremental when bytes that are added behind a stream either are left
by it or are what it missed: if the stream did not end too early, the result of
reading the longer one is the same, with the added bytes behind what is left.
Reads that are incremental one by one are so in sequence. An incremental read
that takes certain bytes and nothing else therefore finds every stream too short
that ends among them.
-/

namespace BlockDelta

section

variable {Cause α β : Type} {ended : Cause → Prop}

/-- How the result of a read compares with that of reading more: it found the end, or it stays,
with more behind it. -/
def Grows (ended : Cause → Prop) (extend : α → α) (result longer : Except Cause α) : Prop :=
  (∃ cause, result = .error cause ∧ ended cause) ∨ longer = result.map extend

/-- A value and what it leaves, with more behind. -/
def leaving (more : Bytes) (parts : α × Bytes) : α × Bytes := (parts.1, parts.2 ++ more)

/-- Bytes that are added behind a stream make no other difference than that it may have ended. -/
def Incremental (ended : Cause → Prop) (read : Bytes → Except Cause (α × Bytes)) : Prop :=
  ∀ stream more, Grows ended (leaving more) (read stream) (read (stream ++ more))

namespace Grows

variable {extend : α → α} {result longer : Except Cause α}

/-- A value stays. -/
theorem ok (value : α) : Grows ended extend (.ok value) (.ok (extend value)) := .inr rfl

/-- A cause of failure stays. -/
theorem error (cause : Cause) : Grows ended extend (.error cause) (.error cause) := .inr rfl

/-- What follows a read grows with it. -/
theorem bind {onwards : β → β} {next : α → Except Cause β}
    (grows : Grows ended extend result longer)
    (further : ∀ value, result = .ok value →
      Grows ended onwards (next value) (next (extend value))) :
    Grows ended onwards (result >>= next) (longer >>= next) := by
  cases result with
  | error cause =>
    rcases grows with ⟨_, same, stopped⟩ | rfl
    · cases same
      exact .inl ⟨cause, rfl, stopped⟩
    · exact .error cause
  | ok value =>
    rcases grows with ⟨_, failed, _⟩ | rfl
    · cases failed
    · exact further value rfl

/-- What is not refused for its value grows as it would without the refusal. -/
theorem guard {condition : Prop} {first second : Decidable condition} {cause : Cause}
    (further : ¬condition → Grows ended extend result longer) :
    Grows ended extend (@ite _ condition first (.error cause) result)
      (@ite _ condition second (.error cause) longer) := by
  by_cases refused : condition
  · rw [if_pos refused, if_pos refused]
    exact .error cause
  · rw [if_neg refused, if_neg refused]
    exact further refused

/-- What needs its value to have a property grows as it would when the property is known. -/
theorem require {condition : Prop} {first second : Decidable condition} {cause : Cause}
    {result longer : condition → Except Cause α}
    (further : ∀ holds, Grows ended extend (result holds) (longer holds)) :
    Grows ended extend (@dite _ condition first result fun _ => .error cause)
      (@dite _ condition second longer fun _ => .error cause) := by
  by_cases holds : condition
  · rw [dif_pos holds, dif_pos holds]
    exact further holds
  · rw [dif_neg holds, dif_neg holds]
    exact .error cause

/-- What is made of a read grows with it. -/
theorem map {onwards : β → β} {make : α → β} (grows : Grows ended extend result longer)
    (further : ∀ value, make (extend value) = onwards (make value)) :
    Grows ended onwards (result.map make) (longer.map make) := by
  rcases grows with ⟨cause, rfl, stopped⟩ | rfl
  · exact .inl ⟨cause, rfl, stopped⟩
  · cases result with
    | error cause => exact .error cause
    | ok value => exact .inr (congrArg Except.ok (further value))

end Grows

/-- A read that takes all of some bytes finds the end when some of them are missing. -/
theorem Incremental.ended_of_append {read : Bytes → Except Cause (α × Bytes)}
    (incremental : Incremental ended read) {kept lost : Bytes} {value : α}
    (whole : read (kept ++ lost) = .ok (value, [])) (something : lost ≠ []) :
    ∃ cause, read kept = .error cause ∧ ended cause := by
  rcases incremental kept lost with stopped | grown
  · exact stopped
  · -- otherwise what is missing would have been left
    rw [whole] at grown
    obtain ⟨⟨other, left⟩, _, made⟩ := exists_of_map_eq_ok grown.symm
    have nothing : left ++ lost = [] := congrArg Prod.snd made
    exact absurd (List.append_eq_nil_iff.1 nothing).2 something

end

/-- What a format takes off a stream is settled by the bytes that it takes: whatever follows them is
left, and a stream that stops among them has ended too early, and nothing else is wrong with it. -/
def SelfDelimiting {Cause α : Type} (io : Fault → Cause)
    (decode : Bytes → Except Cause (α × Bytes)) : Prop :=
  ∀ bytes value rest, decode bytes = .ok (value, rest) →
    ∃ consumed, bytes = consumed ++ rest ∧
      (∀ others, decode (consumed ++ others) = .ok (value, others)) ∧
      ∀ kept lost, consumed = kept ++ lost → lost ≠ [] →
        ∃ fault, decode kept = .error (io fault) ∧ fault.kind = .endOfInput

/-- The cause of a failure is a fault that is the end of the input. -/
def FromEnd {Cause : Type} (io : Fault → Cause) (cause : Cause) : Prop :=
  ∃ fault, cause = io fault ∧ fault.kind = .endOfInput

/-- A format is self-delimiting when it is read incrementally, and what it accepts is accepted alike
whatever follows. -/
theorem Incremental.selfDelimiting {Cause α : Type} {io : Fault → Cause}
    {decode : Bytes → Except Cause (α × Bytes)} (incremental : Incremental (FromEnd io) decode)
    (followed : ∀ bytes value rest, decode bytes = .ok (value, rest) →
      ∃ consumed, bytes = consumed ++ rest ∧
        ∀ others, decode (consumed ++ others) = .ok (value, others)) :
    SelfDelimiting io decode := by
  intro bytes value rest read
  obtain ⟨consumed, whole, alike⟩ := followed bytes value rest read
  refine ⟨consumed, whole, alike, fun kept lost cut something => ?_⟩
  have alone : decode (kept ++ lost) = .ok (value, []) := by
    rw [← cut, ← alike [], List.append_nil]
  obtain ⟨_, failed, fault, rfl, kind⟩ := incremental.ended_of_append alone something
  exact ⟨fault, failed, kind⟩

/-- A read grows in the same way as part of a format. -/
theorem Grows.lifted {Cause α : Type} {io : Fault → Cause} {extend : α → α}
    {result longer : Except Fault α} (grows : Grows (FromEnd id) extend result longer) :
    Grows (FromEnd io) extend (result.mapError io) (longer.mapError io) := by
  rcases grows with ⟨fault, rfl, _, rfl, kind⟩ | rfl
  · exact .inl ⟨io fault, rfl, fault, rfl, kind⟩
  · cases result with
    | error fault => exact .error (io fault)
    | ok value => exact .ok value

/-- Bytes that were split off are split off a longer string as well. -/
theorem Bytes.splitExactly_append_of_some {count : Nat} {bytes front rest : Bytes}
    (split : splitExactly count bytes = some (front, rest)) (more : Bytes) :
    splitExactly count (bytes ++ more) = some (front, rest ++ more) := by
  obtain ⟨rfl, rfl⟩ := splitExactly_eq_some split
  rw [List.append_assoc, splitExactly_append]

namespace Field

/-- A field of a fixed size is read incrementally. -/
theorem incremental_bytes (count : Nat) : Incremental (FromEnd id) (bytes count) := by
  intro stream more
  unfold bytes
  cases split : Bytes.splitExactly count stream with
  | none => exact .inl ⟨.shortRead, rfl, .shortRead, rfl, rfl⟩
  | some parts =>
    rw [Bytes.splitExactly_append_of_some split]
    exact .ok parts

/-- A word is read incrementally. -/
theorem incremental_word (width : Nat) : Incremental (FromEnd id) (word width) :=
  fun stream more => (incremental_bytes width stream more).map fun _ => rfl

end Field

end BlockDelta
