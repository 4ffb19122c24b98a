/-
# CimBroker.Proofs.Frame — what an action leaves alone

A *reading* of a state is any function of it.  An action keeps a reading when the state after it
reads as the state before it, whether the action succeeded or failed.  Keeping is closed under
running actions in a row, so a routine keeps whatever each of its steps keeps, and no proof about a
routine has to run it.

The first part has what is used everywhere of actions in a row, such as `Action.run_bind_eq_ok`.
`Action.Keeps` is the notion of the second, with `Action.Keeps.bind`, and `ObjectAccess.Keeping`
asks it of everything that can be done with objects.  Keeping one reading says nothing of the
others, and nothing of the outcome.
-/
import CimBroker.Object.Access

namespace CimBroker

variable {σ τ α β γ : Type}

namespace Action

/-! ## Actions in a row -/

/-- Actions in a row succeed when each of them does, from where the one before it ended. -/
theorem run_bind_eq_ok {action : Action σ α} {next : α → Action σ β} {s s' : σ} {y : β} :
    (action >>= next).run s = (.ok y, s') ↔
      ∃ x between, action.run s = (.ok x, between) ∧ (next x).run between = (.ok y, s') := by
  rw [run_bind]
  rcases h : action.run s with ⟨outcome, between⟩
  cases outcome with
  | ok x =>
    constructor
    · intro hnext
      exact ⟨x, between, rfl, hnext⟩
    · rintro ⟨x', between', heq, hnext⟩
      cases heq
      exact hnext
  | error e =>
    constructor
    · intro heq
      cases heq
    · rintro ⟨x', between', heq, -⟩
      cases heq

/-- After an action that succeeds, the next one runs from where it ended. -/
theorem run_bind_of_ok {action : Action σ α} {next : α → Action σ β} {s between : σ} {x : α}
    (h : action.run s = (.ok x, between)) :
    (action >>= next).run s = (next x).run between := by
  rw [run_bind, h]

/-- After an action that fails, nothing runs. -/
theorem run_bind_of_error {action : Action σ α} {next : α → Action σ β} {s between : σ} {e : Error}
    (h : action.run s = (.error e, between)) :
    (action >>= next).run s = (.error e, between) := by
  rw [run_bind, h]

/-- An action on the first part of a pair ends as it does alone. -/
theorem run_onFirst_of {action : Action σ α} {st : σ × τ} {outcome : Except Error α}
    {after : σ} (h : action.run st.1 = (outcome, after)) :
    (onFirst action).run st = (outcome, after, st.2) := by
  rw [run_onFirst, h]

@[simp] theorem run_ofExcept (outcome : Except Error α) (s : σ) :
    (ofExcept outcome).run s = (outcome, s) := by
  cases outcome <;> rfl

@[simp] theorem run_mapError (f : Error → Error) (action : Action σ α) (s : σ) :
    (action.mapError f).run s = ((action.run s).1.mapError f, (action.run s).2) := by
  show StateT.run (ExceptT.run (tryCatch action fun e => throw (f e))) s = _
  rw [ExceptT.run_tryCatch, StateT.run_bind]
  show _ = ((StateT.run (ExceptT.run action) s).1.mapError f, _)
  rcases h : StateT.run (ExceptT.run action) s with ⟨outcome, after⟩
  have h' : action.run s = (outcome, after) := h
  rw [h']
  cases outcome <;> rfl

/-- What is required is there, and requiring it changes nothing. -/
theorem run_require_eq_ok {e : Error} {found : Option α} {s s' : σ} {x : α} :
    (require e found).run s = (.ok x, s') ↔ found = some x ∧ s' = s := by
  cases found with
  | none => simp [require]
  | some y =>
    rw [require, run_pure, Prod.mk.injEq, Except.ok.injEq, Option.some.injEq]
    constructor
    · rintro ⟨rfl, rfl⟩
      exact ⟨rfl, rfl⟩
    · rintro ⟨rfl, rfl⟩
      exact ⟨rfl, rfl⟩

/-! ## Keeping a reading -/

variable {f : σ → γ}

/-- The action leaves the reading `f` of the state as it is, whether it succeeds or fails. -/
def Keeps (f : σ → γ) (action : Action σ α) : Prop := ∀ s, f (action.run s).2 = f s

theorem Keeps.pure (x : α) : Keeps f (Pure.pure x : Action σ α) := fun _ => rfl

theorem Keeps.throw (e : Error) : Keeps f (MonadExcept.throw e : Action σ α) := fun _ => rfl

/-- Two actions in a row keep what both of them keep. -/
theorem Keeps.bind {action : Action σ α} {next : α → Action σ β} (h : Keeps f action)
    (hnext : ∀ x, Keeps f (next x)) : Keeps f (action >>= next) := by
  intro s
  have hs := h s
  rw [run_bind]
  revert hs
  rcases action.run s with ⟨outcome, s'⟩
  intro hs
  cases outcome with
  | error e => exact hs
  | ok x => exact (hnext x s').trans hs

/-- What follows an action that keeps a reading starts from a state with the same reading, and so
does what is left of it if it fails. -/
theorem Keeps.andThen {action : Action σ α} {next : α → Action σ β} {c : γ}
    {P : Except Error β → σ → Prop} (h : Keeps f action) (hfail : ∀ e s, f s = c → P (.error e) s)
    (hnext : ∀ x s, f s = c → P ((next x).run s).1 ((next x).run s).2) {s : σ} (hs : f s = c) :
    P ((action >>= next).run s).1 ((action >>= next).run s).2 := by
  have hafter := (h s).trans hs
  rw [run_bind]
  revert hafter
  rcases action.run s with ⟨outcome, s'⟩
  intro hafter
  cases outcome with
  | error e => exact hfail e s' hafter
  | ok x => exact hnext x s' hafter

theorem Keeps.ofExcept (outcome : Except Error α) :
    Keeps f (ofExcept outcome : Action σ α) := by
  cases outcome with
  | error e => exact Keeps.throw e
  | ok x => exact Keeps.pure x

theorem Keeps.require (e : Error) (found : Option α) :
    Keeps f (require e found : Action σ α) := by
  cases found with
  | none => exact Keeps.throw e
  | some x => exact Keeps.pure x

theorem Keeps.state {f : σ → γ} : Keeps f (Action.state : Action σ σ) := fun _ => rfl

/-- An action on the first part of a pair keeps every reading of the second. -/
theorem Keeps.onFirst (g : τ → γ) (action : Action σ α) :
    Keeps (fun s : σ × τ => g s.2) (onFirst action) := fun _ => rfl

end Action

/-! ## Operations on objects -/

namespace ObjectAccess

variable {f : σ → γ} {access : ObjectAccess σ}

/-- Every operation on objects leaves the reading `f` as it is. -/
structure Keeping (f : σ → γ) (access : ObjectAccess σ) : Prop where
  get (h : Handle) (name : String) : (access.get h name).Keeps f
  put (h : Handle) (name : String) (v : Variant) : (access.put h name v).Keeps f
  properties (h : Handle) : (access.properties h).Keeps f
  spawn (h : Handle) : (access.spawn h).Keeps f
  clone (h : Handle) : (access.clone h).Keeps f
  signature (h : Handle) (method : String) : (access.signature h method).Keeps f
  text (h : Handle) : (access.text h).Keeps f
  next (c : Cursor) : (access.next c).Keeps f

end ObjectAccess

end CimBroker
