import Mathlib

/-!
# Running actions in order

An action that succeeds hands its result and its state to what comes next; one
that fails keeps its state and ends the whole.
-/

namespace BlockDelta

variable {Cause State α β : Type} {first : EStateM Cause State α} {next : α → EStateM Cause State β}
variable {state after : State}

/-- What follows a success runs in the state reached. -/
theorem bind_of_ok {value : α} (done : first state = .ok value after) :
    (first >>= next) state = next value after := by
  simp only [bind, EStateM.bind, done]

/-- Nothing follows a failure. -/
theorem bind_of_error {cause : Cause} (failed : first state = .error cause after) :
    (first >>= next) state = .error cause after := by
  simp only [bind, EStateM.bind, failed]

/-- Of two actions that succeed in order, each succeeds. -/
theorem exists_of_run_eq_ok {value : β} (done : (first >>= next) state = .ok value after) :
    ∃ middle between, first state = .ok middle between ∧ next middle between = .ok value after := by
  simp only [bind, EStateM.bind] at done
  split at done
  · rename_i middle between began
    exact ⟨middle, between, began, done⟩
  · cases done

/-- Actions that begin alike, and go on alike from every success, run alike. -/
theorem bind_congr_of_ok {other : EStateM Cause State α} {further : α → EStateM Cause State β}
    (same : other state = first state)
    (onwards : ∀ value between, first state = .ok value between →
      further value between = next value between) :
    (other >>= further) state = (first >>= next) state := by
  simp only [bind, EStateM.bind, same]
  cases done : first state with
  | ok value between => exact onwards value between done
  | error cause between => rfl

/-- Of two steps that succeed together, each succeeds. -/
theorem exists_of_bind_eq_ok {step : Except Cause α} {further : α → Except Cause β} {value : β}
    (done : (step >>= further) = .ok value) :
    ∃ middle, step = .ok middle ∧ further middle = .ok value := by
  cases step with
  | error cause => cases done
  | ok middle => exact ⟨middle, rfl, done⟩

/-- A result that was made from another one. -/
theorem exists_of_map_eq_ok {step : Except Cause α} {make : α → β} {value : β}
    (done : step.map make = .ok value) : ∃ middle, step = .ok middle ∧ make middle = value := by
  cases step with
  | error cause => cases done
  | ok middle => exact ⟨middle, rfl, Except.ok.inj done⟩

/-- A step that succeeds among others that fail for further causes succeeds on its own. -/
theorem eq_ok_of_mapError {Further : Type} {raise : Cause → Further} {step : Except Cause α}
    {value : α} (done : step.mapError raise = .ok value) : step = .ok value := by
  cases step with
  | error cause => cases done
  | ok other =>
    cases done
    rfl

end BlockDelta
