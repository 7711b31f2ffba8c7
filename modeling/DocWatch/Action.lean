import DocWatch.Error

/-!
# Actions

An action reads and changes a state and answers a value or fails. What it changed before a failure
stays changed.

- `Action`: actions on a state.
- `Action.attempt`: an action from a function on states.
- `Action.lift`: something that only may fail.
-/

namespace DocWatch

/-- A computation on a state that may fail. -/
abbrev Action (σ α : Type) := ExceptT Error (StateM σ) α

namespace Action

variable {σ α : Type}

/-- The action that a function on states performs. -/
def attempt (f : σ → Except Error α × σ) : Action σ α := f

/-- The answer of an action and the state after it. -/
def perform (action : Action σ α) (state : σ) : Except Error α × σ := action state

/-- A result that does not depend on the state. -/
def lift (r : Except Error α) : Action σ α := attempt fun s => (r, s)

/-- A look at the state. -/
def view (f : σ → α) : Action σ α := attempt fun s => (.ok (f s), s)

end Action
end DocWatch
