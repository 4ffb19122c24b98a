/-
# CimBroker.Proofs.Conditions — what holds before and after an action

An action *meets* its conditions when, run from a state in which the first holds, it ends in a state
in which the second holds of its value, or fails in a state in which the third holds.  A failing
action leaves its changes behind, so the third condition is as much a part of what is promised as
the second.

`Meets` is this, and `Meets.bind` the rule for actions in a row; the single steps have one rule each
(`Meets.state`, `Meets.change`, `Meets.require`).  `Meets.after` forgets the outcome and keeps the
state.  There is no weakest condition here, and no rule for loops: rows are folded by their own
induction.
-/
import CimBroker.Proofs.Frame

namespace CimBroker.Action

variable {σ τ α β : Type} {P : σ → Prop} {Q : α → σ → Prop} {E : σ → Prop}

/-- A function of the value of an action. -/
@[simp] theorem run_map (f : α → β) (action : Action σ α) (s : σ) :
    (f <$> action).run s = ((action.run s).1.map f, (action.run s).2) := by
  rw [map_eq_pure_bind, run_bind]
  rcases action.run s with ⟨outcome, s'⟩
  cases outcome <;> rfl

/-- From `P`, the action ends in `Q` of its value, or fails in `E`. -/
def Meets (P : σ → Prop) (action : Action σ α) (Q : α → σ → Prop) (E : σ → Prop) : Prop :=
  ∀ s, P s → (∀ x s', action.run s = (.ok x, s') → Q x s') ∧
    ∀ e s', action.run s = (.error e, s') → E s'

namespace Meets

theorem pure {x : α} (h : ∀ s, P s → Q x s) : Meets P (Pure.pure x : Action σ α) Q E := by
  intro s hs
  constructor
  · rintro y s' ⟨⟩
    exact h s hs
  · rintro e s' ⟨⟩

theorem throw {e : Error} (h : ∀ s, P s → E s) :
    Meets P (MonadExcept.throw e : Action σ α) Q E := by
  intro s hs
  constructor
  · rintro y s' ⟨⟩
  · rintro e s' ⟨⟩
    exact h s hs

/-- Two actions in a row, the second from where the first ends. -/
theorem bind {R : α → σ → Prop} {S : β → σ → Prop} {action : Action σ α} {next : α → Action σ β}
    (h : Meets P action R E) (hnext : ∀ x, Meets (R x) (next x) S E) :
    Meets P (action >>= next) S E := by
  intro s hs
  obtain ⟨hok, herror⟩ := h s hs
  rw [run_bind]
  rcases hrun : action.run s with ⟨outcome, between⟩
  cases outcome with
  | ok x => exact hnext x between (hok x between hrun)
  | error e =>
    constructor
    · rintro y s' ⟨⟩
    · rintro e' s' ⟨⟩
      exact herror e between hrun

theorem mono {P' : σ → Prop} {Q' : α → σ → Prop} {action : Action σ α} (h : Meets P action Q E)
    (hbefore : ∀ s, P' s → P s) (hafter : ∀ x s, Q x s → Q' x s) : Meets P' action Q' E := by
  intro s hs
  obtain ⟨hok, herror⟩ := h s (hbefore s hs)
  exact ⟨fun x s' hrun => hafter x s' (hok x s' hrun), herror⟩

theorem ofExcept {outcome : Except Error α} (hok : ∀ x s, outcome = .ok x → P s → Q x s)
    (herror : ∀ s, P s → E s) : Meets P (ofExcept outcome : Action σ α) Q E := by
  cases outcome with
  | ok x => exact pure fun s hs => hok x s rfl hs
  | error e => exact throw herror

theorem require {e : Error} {found : Option α} (hok : ∀ x s, found = some x → P s → Q x s)
    (herror : ∀ s, P s → E s) : Meets P (require e found : Action σ α) Q E := by
  cases found with
  | some x => exact pure fun s hs => hok x s rfl hs
  | none => exact throw herror

/-- The state is read, and stays as it is. -/
theorem state : Meets P (Action.state : Action σ σ) (fun x s => x = s ∧ P s) E := by
  intro s hs
  constructor
  · rintro x s' ⟨⟩
    exact ⟨rfl, hs⟩
  · rintro e s' ⟨⟩

theorem change {f : σ → σ} {R : σ → Prop} (h : ∀ s, P s → R (f s)) :
    Meets P (Action.change f) (fun _ => R) E := by
  intro s hs
  constructor
  · rintro x s' ⟨⟩
    exact h s hs
  · rintro e s' ⟨⟩

/-- A step that yields a value and cannot fail. -/
theorem ofRun {f : σ → α} {g : σ → σ} (h : ∀ s, P s → Q (f s) (g s)) :
    Meets P (Action.ofRun fun s => (.ok (f s), g s)) Q E := by
  intro s hs
  constructor
  · rintro x s' ⟨⟩
    exact h s hs
  · rintro e s' ⟨⟩

/-- An action that keeps a condition ends in it, whether it succeeds or fails. -/
theorem after {action : Action σ α} (h : Meets P action (fun _ => E) E) {s : σ} (hs : P s) :
    E (action.run s).2 := by
  obtain ⟨hok, herror⟩ := h s hs
  rcases hrun : action.run s with ⟨outcome, s'⟩
  cases outcome with
  | ok x => exact hok x s' hrun
  | error e => exact herror e s' hrun

/-- What holds after an action, whether it succeeds or fails. -/
theorem of_after {action : Action σ α} (h : ∀ s, P s → E (action.run s).2) :
    Meets P action (fun _ => E) E := by
  intro s hs
  have hafter := h s hs
  constructor
  · intro x s' hrun
    rwa [hrun] at hafter
  · intro e s' hrun
    rwa [hrun] at hafter

end Meets

end CimBroker.Action
