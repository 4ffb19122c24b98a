/-
# CimBroker.Action — steps that change a state and may fail

An action takes a state and yields the next one together with a value or an error.  A failing action
still yields a state: what was changed before the failure stays changed, as a round trip to a broker
cannot be taken back.

`Action.run` carries an action out, and `Action.run_bind` says how two of them go one after the
other; all proofs about actions rest on it.  An action always ends, and only one is under way at any
time: nothing is said here about waiting, or about two clients at once.
-/
import CimBroker.Error

namespace CimBroker

/-- A step on states `σ` that yields an `α` or fails. -/
abbrev Action (σ α : Type) := ExceptT Error (StateM σ) α

namespace Action

variable {σ τ α : Type}

/-- The outcome of an action from a state, and the state after it. -/
def run (action : Action σ α) (s : σ) : Except Error α × σ :=
  StateT.run (ExceptT.run action) s

/-- An action from what it does to a state. -/
def ofRun (f : σ → Except Error α × σ) : Action σ α :=
  ExceptT.mk (StateT.mk f)

/-- The outcome of an action as the value of a step that cannot fail. -/
def outcome (action : Action σ α) : StateM σ (Except Error α) :=
  fun s => action.run s

/-- The outcome of an action as the value of an action that does not fail. -/
def attempt (action : Action σ α) : Action σ (Except Error α) :=
  ofRun fun s => (.ok (action.run s).1, (action.run s).2)

/-- An outcome as an action that changes nothing. -/
def ofExcept : Except Error α → Action σ α
  | .ok x => pure x
  | .error e => throw e

/-- The action with its error, if it fails, replaced. -/
def mapError (f : Error → Error) (action : Action σ α) : Action σ α :=
  tryCatch action fun e => throw (f e)

/-- The value that is there, or the failure with an error. -/
def require (e : Error) : Option α → Action σ α
  | some x => pure x
  | none => throw e

/-- The state. -/
def state : Action σ σ := ofRun fun s => (.ok s, s)

/-- Replaces the state by a function of it. -/
def change (f : σ → σ) : Action σ Unit := ofRun fun s => (.ok (), f s)

/-- An action on the first part of a pair. -/
def onFirst (action : Action σ α) : Action (σ × τ) α :=
  ofRun fun s => ((action.run s.1).1, (action.run s.1).2, s.2)

@[simp] theorem run_ofRun (f : σ → Except Error α × σ) (s : σ) : (ofRun f).run s = f s := rfl

@[simp] theorem run_attempt (action : Action σ α) (s : σ) :
    action.attempt.run s = (.ok (action.run s).1, (action.run s).2) := rfl

@[simp] theorem run_pure (x : α) (s : σ) : (pure x : Action σ α).run s = (.ok x, s) := rfl

@[simp] theorem run_throw (e : Error) (s : σ) : (throw e : Action σ α).run s = (.error e, s) := rfl

/-- Two actions in a row: the second runs from where the first ended, unless the first failed. -/
theorem run_bind {β : Type} (action : Action σ α) (next : α → Action σ β) (s : σ) :
    (action >>= next).run s =
      match action.run s with
      | (.ok x, s') => (next x).run s'
      | (.error e, s') => (.error e, s') := by
  simp only [run, ExceptT.run_bind, StateT.run_bind]
  cases h : StateT.run (ExceptT.run action) s with
  | mk outcome s' => cases outcome <;> rfl

@[simp] theorem run_onFirst (action : Action σ α) (s : σ × τ) :
    (onFirst action : Action (σ × τ) α).run s =
      ((action.run s.1).1, (action.run s.1).2, s.2) := rfl

end Action

end CimBroker
