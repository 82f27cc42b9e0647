import BlockDelta.Proofs.Running

/-!
# Computations that check themselves

Numbers are words of 64 bits where this program runs, and sums of words may not
fit. A strict computation makes the steps of a plain one, and before each sum,
each difference and each access by number it checks that the result is a word
or that there is such a place; where this is not so, it ends in a trap. So when
a strict computation is the plain one, no step of it goes wrong.
-/

namespace BlockDelta

/-- A step that goes wrong. -/
inductive Trap where
  /-- A sum is no word. -/
  | overflow (left right : Nat)
  /-- A difference is less than zero. -/
  | underflow (left right : Nat)
  /-- There is no such place. -/
  | outside (place size : Nat)
  deriving DecidableEq, Repr

/-- How a strict computation ends that does not succeed. -/
inductive Halt (Cause : Type) where
  /-- A step has gone wrong. -/
  | trap (trap : Trap)
  /-- The plain computation fails. -/
  | failed (cause : Cause)

/-- The same end, with the cause told for a larger computation. -/
def Halt.map {Cause Further : Type} (raise : Cause → Further) : Halt Cause → Halt Further
  | .trap wrong => .trap wrong
  | .failed cause => .failed (raise cause)

namespace Strict

/-- A sum is a word. -/
def noOverflow (left right : Nat) : Except Trap Unit :=
  if left + right < UInt64.size then .ok () else .error (.overflow left right)

/-- A difference is not less than zero. -/
def noUnderflow (left right : Nat) : Except Trap Unit :=
  if right ≤ left then .ok () else .error (.underflow left right)

/-- There is a place with a number. -/
def inside (place size : Nat) : Except Trap Unit :=
  if place < size then .ok () else .error (.outside place size)

/-- There are all places from one number on and before another. -/
def slice (first last size : Nat) : Except Trap Unit :=
  if first ≤ last ∧ last ≤ size then .ok () else .error (.outside last size)

/-- The item with a number. -/
def entry {Item : Type} (items : Array Item) (place : Nat) (other : Item) : Except Trap Item := do
  inside place items.size
  return items.getD place other

section

variable {left right place size first last : Nat}

@[simp] theorem noOverflow_eq_ok (fits : left + right < UInt64.size) :
    noOverflow left right = .ok () := if_pos fits

@[simp] theorem noUnderflow_eq_ok (least : right ≤ left) : noUnderflow left right = .ok () :=
  if_pos least

@[simp] theorem inside_eq_ok (within : place < size) : inside place size = .ok () :=
  if_pos within

@[simp] theorem slice_eq_ok (ordered : first ≤ last) (within : last ≤ size) :
    slice first last size = .ok () := if_pos ⟨ordered, within⟩

@[simp] theorem entry_eq_ok {Item : Type} {items : Array Item} {other : Item}
    (within : place < items.size) : entry items place other = .ok (items.getD place other) := by
  rw [entry, inside_eq_ok within]
  rfl

end

variable {Cause Further State α β : Type}

/-- A check that is passed leaves no trace among checks. -/
@[simp] theorem ok_bind (value : α) (next : α → Except Trap β) :
    ((.ok value : Except Trap α) >>= next) = next value := rfl

/-- The items that pass a test, which may go wrong. -/
def filterEach (test : α → Except Trap Bool) : List α → Except Trap (List α)
  | [] => .ok []
  | item :: rest => do
    let passed ← test item
    let others ← filterEach test rest
    return if passed then item :: others else others

/-- A test that goes wrong for no item picks the items that a plain one picks. -/
theorem filterEach_eq_ok {test : α → Except Trap Bool} {plain : α → Bool} {items : List α}
    (each : ∀ item ∈ items, test item = .ok (plain item)) :
    filterEach test items = .ok (items.filter plain) := by
  induction items with
  | nil => rfl
  | cons item rest ih =>
    obtain ⟨first, others⟩ := List.forall_mem_cons.1 each
    rw [filterEach, first, ih others, List.filter_cons]
    rfl

/-- A step that goes wrong for no item makes of the items what a plain one makes. -/
theorem mapM_eq_ok {step : α → Except Trap β} {plain : α → β} {items : List α}
    (each : ∀ item ∈ items, step item = .ok (plain item)) :
    items.mapM step = .ok (items.map plain) := by
  induction items with
  | nil => rfl
  | cons item rest ih =>
    obtain ⟨first, others⟩ := List.forall_mem_cons.1 each
    rw [List.mapM_cons, first, ih others]
    rfl

/-- A check that every item passes is passed by all. -/
theorem forM_eq_ok {check : α → Except Trap Unit} {items : List α}
    (each : ∀ item ∈ items, check item = .ok ()) : items.forM check = .ok () := by
  induction items with
  | nil => rfl
  | cons item rest ih =>
    obtain ⟨first, others⟩ := List.forall_mem_cons.1 each
    rw [List.forM, first]
    exact ih others

/-- A check among steps that may fail. -/
def checked (check : Except Trap α) : Except (Halt Cause) α := check.mapError .trap

/-- A plain computation among strict ones. -/
def reported (plain : Except Cause α) : Except (Halt Cause) α := plain.mapError .failed

/-- A check among actions. -/
def guarded (check : Except Trap α) : EStateM (Halt Cause) State α := fun state =>
  match check with
  | .ok value => .ok value state
  | .error trap => .error (.trap trap) state

/-- A plain action among strict ones. -/
def plainly (action : EStateM Cause State α) : EStateM (Halt Cause) State α := fun state =>
  match action state with
  | .ok value after => .ok value after
  | .error cause torn => .error (.failed cause) torn

/-- A check that is passed leaves no trace among steps. -/
@[simp] theorem checked_ok_bind (value : α) (next : α → Except (Halt Cause) β) :
    (checked (.ok value) >>= next) = next value := rfl

@[simp] theorem reported_error (cause : Cause) :
    (reported (.error cause) : Except (Halt Cause) α) = .error (.failed cause) := rfl

/-- Plain steps in order are strict when each is. -/
theorem reported_bind (first : Except Cause α) (next : α → Except Cause β) :
    reported (first >>= next) = (reported first >>= fun value => reported (next value)) := by
  cases first <;> rfl

/-- A computation that begins plainly, and goes on strictly from every success, is strict. -/
theorem reported_bind_congr {first : Except Cause α} {next : α → Except Cause β}
    {further : α → Except (Halt Cause) β}
    (onwards : ∀ value, first = .ok value → further value = reported (next value)) :
    (reported first >>= further) = reported (first >>= next) := by
  cases first with
  | error cause => rfl
  | ok value => exact onwards value rfl

/-- A plain computation may tell its causes for a larger one before or behind. -/
theorem reported_mapError (plain : Except Cause α) (raise : Cause → Further) :
    reported (plain.mapError raise) = (reported plain).mapError (Halt.map raise) := by
  cases plain <;> rfl

/-- A check that is passed leaves no trace among actions. -/
@[simp] theorem guarded_ok_bind (value : α) (next : α → EStateM (Halt Cause) State β) :
    (guarded (.ok value) >>= next) = next value := rfl

/-- How a plain action ends. -/
theorem plainly_apply (action : EStateM Cause State α) (state : State) :
    plainly action state =
      match action state with
      | .ok value after => .ok value after
      | .error cause torn => .error (.failed cause) torn := rfl

/-- Plain actions in order are strict when each is. -/
theorem plainly_bind (first : EStateM Cause State α) (next : α → EStateM Cause State β) :
    plainly (first >>= next) = (plainly first >>= fun value => plainly (next value)) := by
  funext state
  simp only [plainly_apply, bind, EStateM.bind]
  cases first state <;> rfl

/-- An action that begins plainly, and goes on strictly, is strict. -/
theorem plainly_bind_congr {first : EStateM Cause State α} {next : α → EStateM Cause State β}
    {further : α → EStateM (Halt Cause) State β}
    (onwards : ∀ value, further value = plainly (next value)) :
    (plainly first >>= further) = plainly (first >>= next) := by
  rw [plainly_bind, funext onwards]

end Strict

end BlockDelta
