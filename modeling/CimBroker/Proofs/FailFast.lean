/-
# CimBroker.Proofs.FailFast — one call of a method, whatever is asked of it

An invocation is a value that its owner may ask anything of: to set inputs after it was executed, to
execute it twice, to read outputs of a call that failed, to go on after the end.  This module runs
arbitrary rows of such steps over a recorded connection and shows that the method is called at most
once, that a failure silences everything up to the end, which reports it, and that nothing happens
after the end.

Two facts about single steps carry all of it.  A step on an invocation that has failed or ended is
*inert*: it reaches nobody and leaves its destination alone (`perform_inert`).  And an invocation
that is still to be executed has called no method (`Sparing`).

`invocation_fails_fast` is the whole of it, for every connection, every way to begin (`Start`) and
every row of steps.  What the inputs become on their way is left to `CimBroker.Proofs.Inputs`, and
what the outputs are to `CimBroker.Proofs.MethodOutputs`.
-/
import CimBroker.Proofs.Recorded
import CimBroker.Session.Invocation

namespace CimBroker.Invocation

variable {σ : Type}

/-! ## Rows of steps -/

/-- A step that can be asked of an invocation. -/
inductive Step where
  | set (name : String) (x : Argument)
  | execute
  | get (name : String) (t : DataType) (destination : t.Value)
  /-- Reads an output that holds an object. -/
  | getObject (name : String) (destination : Option Handle)
  | finish

/-- What a step gives back: nothing, the value its destination holds afterwards, or the result of
the whole call. -/
inductive Answer where
  | nothing
  | destination (t : DataType) (x : t.Value)
  | result (outcome : Except Error Unit)

/-- The destination that a step is given, with its type. -/
def Step.destination? : Step → Option ((t : DataType) × t.Value)
  | .get _ t destination => some ⟨t, destination⟩
  | .getObject _ destination => some ⟨.optional .handle, destination⟩
  | _ => none

/-- What the destination holds after a step. -/
def Answer.destination? : Answer → Option ((t : DataType) × t.Value)
  | .destination t x => some ⟨t, x⟩
  | _ => none

/-- A step: the invocation after it and what it gives back. -/
def perform (s : Service σ) (i : Invocation) : Step → StateM σ (Invocation × Answer)
  | .set name x => do return (← i.set s name x, .nothing)
  | .execute => do return (← i.execute s, .nothing)
  | .get name t destination => do
    let (i, x) ← i.get s name t destination
    return (i, .destination t x)
  | .getObject name destination => do
    let (i, x) ← i.get s name (.optional .handle) destination
    return (i, .destination (.optional .handle) x)
  | .finish => return (i.finish.2, .result i.finish.1)

/-- A row of steps, one after another. -/
def performAll (s : Service σ) (i : Invocation) : List Step → StateM σ (Invocation × List Answer)
  | [] => return (i, [])
  | step :: steps => do
    let (i, answer) ← i.perform s step
    let (i, answers) ← i.performAll s steps
    return (i, answer :: answers)

/-- What a step sets out to do when nothing holds it back. -/
def Step.work (s : Service σ) (i : Invocation) : Step → Action σ Unit
  | .set name x => i.stage s name x
  | .execute => do let _ ← s.connection.invoke i.path i.method i.inputs
  | .get name t _ => do let _ ← i.read s name t
  | .getObject name _ => do let _ ← i.read s name (.optional .handle)
  | .finish => return ()

/-! ## What single steps do -/

/-- The invocation with the failure of a piece of work, if it failed. -/
def noting {α : Type} (i : Invocation) : Except Error α → Invocation
  | .ok _ => i
  | .error e => i.fail e

variable (s : Service σ) {i : Invocation} (b : σ)

/-- The first failure of an invocation is noted as it is. -/
theorem failure_fail {e : Error} (h : i.failure = none) : (i.fail e).failure = some e := by
  show (i.failure <|> some e) = some e
  rw [h]
  rfl

theorem set_closed (name : String) (x : Argument) (h : i.failure.isSome ∨ i.ended = true) :
    (i.set s name x).run b = (i, b) := by
  have hc : (i.failure.isSome || i.ended) = true := by simpa using h
  unfold set
  rw [if_pos hc]
  rfl

theorem set_open (name : String) (x : Argument) (hf : i.failure = none) (he : i.ended = false) :
    (i.set s name x).run b =
      (i.noting ((i.stage s name x).run b).1, ((i.stage s name x).run b).2) := by
  have ho : ¬ (i.failure.isSome || i.ended) = true := by simp [hf, he]
  unfold set
  rw [if_neg ho]
  -- the staging may end either way: its outcome is noted, and what it did to the state stays
  cases h : (i.stage s name x).run b with
  | mk outcome after =>
    have hout : StateT.run (i.stage s name x).outcome b = (outcome, after) := h
    rw [StateT.run_bind, hout]
    cases outcome <;> rfl

theorem execute_closed (h : i.failure.isSome ∨ i.executed = true ∨ i.ended = true) :
    (i.execute s).run b = (i, b) := by
  have hc : (i.failure.isSome || i.executed || i.ended) = true := by
    simpa [or_assoc] using h
  unfold execute
  rw [if_pos hc]
  rfl

theorem execute_open (hf : i.failure = none) (hx : i.executed = false) (he : i.ended = false) :
    (i.execute s).run b =
      (match ((s.connection.invoke i.path i.method i.inputs).run b).1 with
        | .ok outputs => { i with inputs := none, outputs := outputs, executed := true }
        | .error e => fail { i with inputs := none } e,
       ((s.connection.invoke i.path i.method i.inputs).run b).2) := by
  have ho : ¬ (i.failure.isSome || i.executed || i.ended) = true := by simp [hf, hx, he]
  unfold execute
  rw [if_neg ho]
  cases h : (s.connection.invoke i.path i.method i.inputs).run b with
  | mk outcome after =>
    have hout : StateT.run (s.connection.invoke i.path i.method i.inputs).outcome b =
        (outcome, after) := h
    rw [StateT.run_bind, hout]
    cases outcome <;> rfl

theorem get_failed (name : String) (t : DataType) (destination : t.Value)
    (h : i.failure.isSome) : (i.get s name t destination).run b = ((i, destination), b) := by
  unfold get
  rw [if_pos h]
  rfl

theorem get_open (name : String) (t : DataType) (destination : t.Value) (hf : i.failure = none) :
    (i.get s name t destination).run b =
      ((i.noting ((i.read s name t).run b).1,
        ((i.read s name t).run b).1.toOption.getD destination), ((i.read s name t).run b).2) := by
  have ho : ¬ i.failure.isSome = true := by simp [hf]
  unfold get
  rw [if_neg ho]
  cases h : (i.read s name t).run b with
  | mk outcome after =>
    have hout : StateT.run (i.read s name t).outcome b = (outcome, after) := h
    rw [StateT.run_bind, hout]
    cases outcome <;> rfl

/-- Nothing can be read after the end, and trying to reaches nobody. -/
theorem read_ended (name : String) (t : DataType) (h : i.ended = true) :
    ∃ e, (i.read s name t).run b = (.error e, b) := by
  have hr : i.readable name =
      .error (.notFound ("output " ++ name ++ " read after " ++ i.method ++ " ended")) := by
    unfold readable
    rw [if_pos h]
  unfold read
  rw [hr]
  exact ⟨_, rfl⟩

theorem perform_get (name : String) (t : DataType) (destination : t.Value) :
    (i.perform s (.get name t destination)).run b =
      ((((i.get s name t destination).run b).1.1,
        .destination t ((i.get s name t destination).run b).1.2),
       ((i.get s name t destination).run b).2) := rfl

/-- Reading an object is reading a handle that may be missing. -/
theorem perform_getObject (name : String) (destination : Option Handle) :
    i.perform s (.getObject name destination) =
      i.perform s (.get name (.optional .handle) destination) := rfl

/-- **Inert.** A `Step` on an invocation that has failed or ended reaches nobody and leaves its
destination alone. -/
theorem perform_inert (h : i.failure.isSome ∨ i.ended = true) (step : Step) :
    ((i.perform s step).run b).2 = b ∧
      ((i.perform s step).run b).1.2.destination? = step.destination? := by
  -- reading is the one piece of work that an ended invocation still sets out to do
  have reading : ∀ (name : String) (t : DataType) (destination : t.Value),
      ∃ i', (i.perform s (.get name t destination)).run b =
        ((i', .destination t destination), b) := by
    intro name t destination
    cases hf : i.failure with
    | some e =>
      refine ⟨i, ?_⟩
      rw [perform_get, get_failed s b name t destination (by rw [hf]; rfl)]
    | none =>
      -- nothing has failed, so it has ended, and reading fails before it reaches anyone
      have he : i.ended = true := by simpa [hf] using h
      obtain ⟨e, hr⟩ := read_ended s b name t he
      refine ⟨i.fail e, ?_⟩
      rw [perform_get, get_open s b name t destination hf, hr]
      rfl
  cases step with
  | set name x =>
    show ((i.set s name x).run b).2 = b ∧ _
    rw [set_closed s b name x h]
    exact ⟨rfl, rfl⟩
  | execute =>
    show ((i.execute s).run b).2 = b ∧ _
    rw [execute_closed s b (h.imp_right .inr)]
    exact ⟨rfl, rfl⟩
  | get name t destination =>
    obtain ⟨i', hg⟩ := reading name t destination
    rw [hg]
    exact ⟨rfl, rfl⟩
  | getObject name destination =>
    obtain ⟨i', hg⟩ := reading name (.optional .handle) destination
    rw [perform_getObject, hg]
    exact ⟨rfl, rfl⟩
  | finish => exact ⟨rfl, rfl⟩

/-- A failed invocation stays as it is until it is ended. -/
theorem perform_failed (h : i.failure.isSome) {step : Step} (hs : step ≠ .finish) :
    ((i.perform s step).run b).1.1 = i := by
  cases step with
  | set name x => exact congrArg Prod.fst (set_closed s b name x (.inl h))
  | execute => exact congrArg Prod.fst (execute_closed s b (.inl h))
  | get name t destination =>
    exact congrArg (fun r => r.1.1) (get_failed s b name t destination h)
  | getObject name destination =>
    exact congrArg (fun r => r.1.1) (get_failed s b name (.optional .handle) destination h)
  | finish => exact absurd rfl hs

/-- What happened to a piece of work does not change whether an invocation has ended. -/
theorem noting_ended {α : Type} (outcome : Except Error α) :
    (i.noting outcome).ended = i.ended := by
  cases outcome <;> rfl

theorem noting_executed {α : Type} (outcome : Except Error α) :
    (i.noting outcome).executed = i.executed := by
  cases outcome <;> rfl

/-- The value of successful work does not matter to an invocation. -/
theorem noting_map {α β : Type} (f : α → β) (outcome : Except Error α) :
    i.noting (outcome.map f) = i.noting outcome := by
  cases outcome <;> rfl

/-- The error of a failure whose value would have been changed. -/
theorem error_of_map {α β : Type} {f : α → β} {outcome : Except Error α} {e : Error}
    (h : outcome.map f = .error e) : outcome = .error e := by
  cases outcome with
  | ok x => cases h
  | error e' => cases h; rfl

/-- A piece of work whose value is dropped. -/
theorem run_dropped {α : Type} (action : Action σ α) :
    (do let _ ← action : Action σ Unit).run b =
      ((action.run b).1.map fun _ => (), (action.run b).2) := by
  rw [Action.run_bind]
  rcases action.run b with ⟨outcome, b'⟩
  cases outcome <;> rfl

/-- Work fails whether or not its value is dropped. -/
theorem error_of_dropped {α : Type} {action : Action σ α} {e : Error}
    (h : ((do let _ ← action : Action σ Unit).run b).1 = .error e) :
    (action.run b).1 = .error e := by
  rw [run_dropped] at h
  exact error_of_map h

/-- **What a step can do.**  A step other than the end does nothing; or it does its work and notes
the failure of it; or it executes an invocation that was not executed before. -/
theorem perform_cases {step : Step} (hs : step ≠ .finish) :
    let r := (i.perform s step).run b
    (r.1.1 = i ∧ r.2 = b) ∨
    (step ≠ .execute ∧ i.failure = none ∧ r.1.1 = i.noting ((step.work s i).run b).1 ∧
      r.2 = ((step.work s i).run b).2) ∨
    (i.failure = none ∧ i.executed = false ∧ i.ended = false ∧
      (r.1.1.executed = true ∨ r.1.1.failure.isSome) ∧ r.1.1.ended = false ∧
      r.2 = ((s.connection.invoke i.path i.method i.inputs).run b).2) := by
  -- an object is read as any other output is, so one case serves both kinds of reading
  have reading : ∀ (name : String) (t : DataType) (destination : t.Value),
      let r := (i.perform s (.get name t destination)).run b
      (r.1.1 = i ∧ r.2 = b) ∨
      (i.failure = none ∧ r.1.1 = i.noting ((Step.get name t destination).work s i |>.run b).1 ∧
        r.2 = ((Step.get name t destination).work s i |>.run b).2) := by
    intro name t destination
    cases hf : i.failure with
    | some e =>
      left
      rw [perform_get, get_failed s b name t destination (by rw [hf]; rfl)]
      exact ⟨rfl, rfl⟩
    | none =>
      right
      rw [perform_get, get_open s b name t destination hf]
      show _ ∧ i.noting _ = i.noting (Action.run (do let _ ← i.read s name t) b).1 ∧
        _ = (Action.run (do let _ ← i.read s name t) b).2
      rw [run_dropped, noting_map]
      exact ⟨rfl, rfl, rfl⟩
  cases step with
  | set name x =>
    by_cases hc : i.failure.isSome ∨ i.ended = true
    · left
      show ((i.set s name x).run b).1 = i ∧ ((i.set s name x).run b).2 = b
      rw [set_closed s b name x hc]
      exact ⟨rfl, rfl⟩
    · right; left
      rw [not_or, Bool.not_eq_true, Bool.not_eq_true, Option.isSome_eq_false_iff,
        Option.isNone_iff_eq_none] at hc
      refine ⟨nofun, hc.1, ?_⟩
      show ((i.set s name x).run b).1 = _ ∧ ((i.set s name x).run b).2 = _
      rw [set_open s b name x hc.1 hc.2]
      exact ⟨rfl, rfl⟩
  | execute =>
    by_cases hc : i.failure.isSome ∨ i.executed = true ∨ i.ended = true
    · left
      show ((i.execute s).run b).1 = i ∧ ((i.execute s).run b).2 = b
      rw [execute_closed s b hc]
      exact ⟨rfl, rfl⟩
    · right; right
      rw [not_or, not_or, Bool.not_eq_true, Bool.not_eq_true, Bool.not_eq_true,
        Option.isSome_eq_false_iff, Option.isNone_iff_eq_none] at hc
      obtain ⟨hf, hx, he⟩ := hc
      refine ⟨hf, hx, he, ?_⟩
      show (((i.execute s).run b).1.executed = true ∨ ((i.execute s).run b).1.failure.isSome) ∧
        ((i.execute s).run b).1.ended = false ∧ ((i.execute s).run b).2 = _
      rw [execute_open s b hf hx he]
      cases ((s.connection.invoke i.path i.method i.inputs).run b).1 with
      | ok outputs => exact ⟨.inl rfl, he, rfl⟩
      | error e =>
        refine ⟨.inr ?_, he, rfl⟩
        rw [failure_fail (i := { i with inputs := none }) hf]
        rfl
  | get name t destination =>
    rcases reading name t destination with h | ⟨hf, h⟩
    · exact .inl h
    · exact .inr (.inl ⟨nofun, hf, h⟩)
  | getObject name destination =>
    rcases reading name (.optional .handle) destination with h | ⟨hf, h⟩
    · exact .inl h
    · exact .inr (.inl ⟨nofun, hf, h⟩)
  | finish => exact absurd rfl hs

/-- Whether an invocation has ended is changed by the end alone. -/
theorem perform_ended_of_ne {step : Step} (hs : step ≠ .finish) :
    ((i.perform s step).run b).1.1.ended = i.ended := by
  rcases perform_cases s (i := i) b hs with ⟨hi, -⟩ | ⟨-, -, hi, -⟩ | ⟨-, -, he, -, hi, -⟩
  · rw [hi]
  · rw [hi, noting_ended]
  · rw [hi, he]

/-- What has ended stays ended. -/
theorem perform_ended (h : i.ended = true) (step : Step) :
    ((i.perform s step).run b).1.1.ended = true := by
  by_cases hs : step = .finish
  · rw [hs]
    rfl
  · rw [perform_ended_of_ne s b hs, h]

/-- The error of a step that fails first is the one that is kept. -/
theorem perform_fails {step : Step} {e : Error} (hf : i.failure = none) (he : i.ended = false)
    (hx : step = .execute → i.executed = false)
    (hw : ((step.work s i).run b).1 = .error e) :
    ((i.perform s step).run b).1.1.failure = some e := by
  have reading : ∀ (name : String) (t : DataType) (destination : t.Value),
      ((i.read s name t).run b).1 = .error e →
        ((i.perform s (.get name t destination)).run b).1.1.failure = some e := by
    intro name t destination hr
    rw [perform_get, get_open s b name t destination hf, hr]
    exact failure_fail hf
  cases step with
  | set name x =>
    show ((i.set s name x).run b).1.failure = some e
    rw [set_open s b name x hf he, show ((i.stage s name x).run b).1 = .error e from hw]
    exact failure_fail hf
  | execute =>
    show ((i.execute s).run b).1.failure = some e
    rw [execute_open s b hf (hx rfl) he, error_of_dropped b hw]
    -- executing takes the inputs away, which is no failure
    exact failure_fail (i := { i with inputs := none }) hf
  | get name t destination => exact reading name t destination (error_of_dropped b hw)
  | getObject name destination =>
    exact reading name (.optional .handle) destination (error_of_dropped b hw)
  | finish => exact absurd hw (by simp [Step.work])

/-! ## What rows of steps do -/

/-- A row of steps reaches nobody and writes no destination. -/
structure Silent (s : Service σ) (i : Invocation) (b : σ) (steps : List Step) : Prop where
  state : ((i.performAll s steps).run b).2 = b
  destinations : ((i.performAll s steps).run b).1.2.map Answer.destination? =
    steps.map Step.destination?

theorem performAll_cons (step : Step) (steps : List Step) :
    (i.performAll s (step :: steps)).run b =
      let r := (i.perform s step).run b
      let r' := (r.1.1.performAll s steps).run r.2
      ((r'.1.1, r.1.2 :: r'.1.2), r'.2) := rfl

/-- A step that reaches nobody, before a row that reaches nobody. -/
theorem Silent.cons {step : Step} {steps : List Step}
    (h : i.failure.isSome ∨ i.ended = true)
    (hrest : Silent s ((i.perform s step).run b).1.1 b steps) :
    Silent s i b (step :: steps) := by
  obtain ⟨hstate, hanswer⟩ := perform_inert s b h step
  obtain ⟨hstates, hanswers⟩ := hrest
  constructor
  · rw [performAll_cons]
    simp only [hstate]
    exact hstates
  · rw [performAll_cons]
    simp only [hstate, List.map_cons, hanswer, hanswers]

/-- After the end every row of steps is silent. -/
theorem silent_of_ended (h : i.ended = true) (steps : List Step) : Silent s i b steps := by
  induction steps generalizing i with
  | nil => exact ⟨rfl, rfl⟩
  | cons step steps ih =>
    -- a reading may still note a failure, so it is the end that is carried on, not the invocation
    exact Silent.cons s b (.inr h) (ih (perform_ended s b h step))

/-- After a failure every row of steps up to the end is silent, and leaves the invocation as it
is. -/
theorem silent_of_failed (h : i.failure.isSome) {steps : List Step} (hs : .finish ∉ steps) :
    Silent s i b steps ∧ ((i.performAll s steps).run b).1.1 = i := by
  induction steps with
  | nil => exact ⟨⟨rfl, rfl⟩, rfl⟩
  | cons step steps ih =>
    rw [List.mem_cons, not_or] at hs
    -- no step before the end changes a failed invocation, so the same one meets the rest
    have hstep : ((i.perform s step).run b).1.1 = i := perform_failed s b h (Ne.symm hs.1)
    obtain ⟨hrest, hsame⟩ := ih hs.2
    refine ⟨Silent.cons s b (.inl h) (by rw [hstep]; exact hrest), ?_⟩
    rw [performAll_cons]
    simp only [hstep, (perform_inert s b (.inl h) step).1]
    exact hsame

/-- A row of steps that holds no end leaves open what is open. -/
theorem performAll_not_ended (h : i.ended = false) {steps : List Step} (hs : .finish ∉ steps) :
    ((i.performAll s steps).run b).1.1.ended = false := by
  induction steps generalizing i b with
  | nil => exact h
  | cons step steps ih =>
    rw [List.mem_cons, not_or] at hs
    have hstep := perform_ended_of_ne s (i := i) b (Ne.symm hs.1)
    exact ih _ (hstep.trans h) hs.2

/-- A row of steps that holds an end ends the invocation, wherever the end stands. -/
theorem performAll_ended {steps : List Step} (hs : .finish ∈ steps ∨ i.ended = true) :
    ((i.performAll s steps).run b).1.1.ended = true := by
  induction steps generalizing i b with
  | nil => exact hs.resolve_left List.not_mem_nil
  | cons step steps ih =>
    apply ih
    -- the end is this step, or a later one, or came before
    rcases hs with hs | hs
    · rcases List.mem_cons.mp hs with rfl | hs
      · exact .inr rfl
      · exact .inl hs
    · exact .inr (perform_ended s b hs step)

/-! ## How often the method is called -/

/-- At most one method call was made, and none while the invocation is still to be executed. -/
structure Sparing (i : Invocation) (st : σ × List RoundTrip) : Prop where
  atMostOne : methodCalls st ≤ 1
  noneYet : i.failure = none → i.executed = false → i.ended = false → methodCalls st = 0

/-- The work of a step other than an execution calls no method. -/
theorem keeps_work (i : Invocation) {step : Step} (hs : step ≠ .execute) :
    (step.work s.recorded i).Keeps methodCalls := by
  refine Parallel.keeps fun calls => ?_
  have k := s.recorded_alongside calls
  cases step with
  | set name x => exact k.stage i x trivial
  | execute => exact absurd rfl hs
  | get name t destination =>
    exact Parallel.bind (k.read i t trivial) fun _ => Parallel.pure ()
  | getObject name destination =>
    exact Parallel.bind (k.read i _ trivial) fun _ => Parallel.pure ()
  | finish => exact Parallel.pure ()

/-- A step leaves an invocation as sparing as it was. -/
theorem Sparing.perform {i : Invocation} {st : σ × List RoundTrip} (h : Sparing i st)
    (step : Step) :
    Sparing ((i.perform s.recorded step).run st).1.1 ((i.perform s.recorded step).run st).2 := by
  by_cases hs : step = .finish
  · -- the end calls nothing and leaves nothing to be executed
    subst hs
    exact ⟨h.atMostOne, fun _ _ he => absurd he (by simp [Invocation.perform, finish])⟩
  rcases perform_cases s.recorded (i := i) st hs with
    ⟨hi, hst⟩ | ⟨hne, hf, hi, hst⟩ | ⟨hf, hx, he, hi, -, hst⟩
  · rw [hi, hst]
    exact h
  · have hcalls := keeps_work s i hne st
    rw [hi, hst]
    refine ⟨hcalls ▸ h.atMostOne, ?_⟩
    intro _ hx he
    rw [noting_executed] at hx
    rw [noting_ended] at he
    rw [hcalls, h.noneYet hf hx he]
  · -- the one method call: there was none before it, and none is left to be made
    have hcalls := s.connection.methodCalls_invoke i.path i.method i.inputs st
    have hzero := h.noneYet hf hx he
    rw [hst]
    constructor
    · show methodCalls ((s.connection.recorded.invoke i.path i.method i.inputs).run st).2 ≤ 1
      omega
    · -- executing leaves either outputs or a failure behind
      intro hf' hx' _
      rcases hi with hi | hi
      · exact absurd hi (by rw [hx']; exact Bool.false_ne_true)
      · exact absurd hi (by rw [hf']; exact Bool.false_ne_true)

theorem Sparing.performAll {i : Invocation} {st : σ × List RoundTrip} (h : Sparing i st)
    (steps : List Step) : methodCalls ((i.performAll s.recorded steps).run st).2 ≤ 1 := by
  induction steps generalizing i st with
  | nil => exact h.atMostOne
  | cons step steps ih => exact ih (h.perform s step)

/-! ## From the beginning on -/

/-- How an invocation begins: on an object, or at a path with the class given. -/
inductive Start where
  | onObject (target : Handle) (method : String)
  | atPath (classPath objectPath method : String)

/-- The invocation that a start yields, poisoned or not. -/
def Start.begin (s : Service σ) : Start → StateM σ Invocation
  | .onObject target method => Invocation.begin s target method
  | .atPath classPath objectPath method => beginPath s classPath objectPath method

/-- An invocation that is begun and then asked a row of steps. -/
def life (s : Service σ) (start : Start) (steps : List Step) :
    StateM σ (Invocation × List Answer) := do
  performAll s (← start.begin s) steps

/-- What has to succeed for an invocation to begin unpoisoned. -/
def Start.preparation (s : Service σ) : Start → Action σ (String × Option Handle)
  | .onObject target method => Invocation.preparation s target method
  | .atPath classPath objectPath method => preparationAt s classPath objectPath method

theorem begin_eq_prepared (start : Start) :
    ∃ method, ∀ b, (start.begin s).run b =
      (prepared method ((start.preparation s).run b).1, ((start.preparation s).run b).2) := by
  cases start with
  | onObject target method => exact ⟨method, fun _ => rfl⟩
  | atPath classPath objectPath method => exact ⟨method, fun _ => rfl⟩

/-- An invocation has not ended when it begins. -/
theorem begin_not_ended (start : Start) : ((start.begin s).run b).1.ended = false := by
  obtain ⟨method, hbegin⟩ := begin_eq_prepared s start
  rw [hbegin b]
  rcases ((start.preparation s).run b).1 with e | found
  · rfl
  · rfl

/-- A preparation that fails poisons the invocation. -/
theorem begin_poisoned (start : Start) {e : Error}
    (h : ((start.preparation s).run b).1 = .error e) :
    ((start.begin s).run b).1.failure = some e := by
  obtain ⟨method, hbegin⟩ := begin_eq_prepared s start
  rw [hbegin b, h]
  rfl

/-- Preparing an invocation calls no method. -/
theorem keeps_preparation (start : Start) : (start.preparation s.recorded).Keeps methodCalls := by
  refine Parallel.keeps fun calls => ?_
  cases start with
  | onObject target method => exact (s.recorded_alongside calls).preparation target method
  | atPath classPath objectPath method =>
    exact (s.recorded_alongside calls).preparationAt classPath objectPath method

theorem sparing_begin (start : Start) :
    Sparing ((start.begin s.recorded).run (b, [])).1 ((start.begin s.recorded).run (b, [])).2 := by
  obtain ⟨method, hbegin⟩ := begin_eq_prepared s.recorded start
  have hzero : methodCalls ((start.preparation s.recorded).run (b, [])).2 = 0 :=
    keeps_preparation s start (b, [])
  rw [hbegin (b, [])]
  exact ⟨hzero ▸ Nat.zero_le 1, fun _ _ _ => hzero⟩

/-- **One call, one failure, one end.** Over any connection, whatever row of steps is asked of an
invocation from its beginning on (`life`): its method is called at most once (`methodCalls`).
Before the end, the first piece of work to fail, the preparation (`Start.preparation`) or that of a
step (`Step.work`), leaves its error; from then on every row of steps is `Silent` up to the end,
which reports that error.  After the end every row of steps is silent. -/
theorem invocation_fails_fast (s : Service σ) (start : Start) (b : σ) (steps : List Step) :
    let lived := (life s.recorded start steps).run (b, [])
    let i := lived.1.1
    let st := lived.2
    methodCalls st ≤ 1 ∧
    (.finish ∉ steps → ∀ e, ((start.preparation s.recorded).run (b, [])).1 = .error e →
      i.failure = some e) ∧
    (.finish ∉ steps → i.failure = none → ∀ step e, (step = .execute → i.executed = false) →
      ((step.work s.recorded i).run st).1 = .error e →
        ((i.perform s.recorded step).run st).1.1.failure = some e) ∧
    (.finish ∉ steps → ∀ e, i.failure = some e → ∀ more, .finish ∉ more →
      Silent s.recorded i st more ∧
        ((i.performAll s.recorded more).run st).1.1.finish.1 = .error e) ∧
    (.finish ∈ steps → ∀ more, Silent s.recorded i st more) := by
  intro lived i st
  refine ⟨(sparing_begin s b start).performAll s steps, ?_, ?_, ?_, ?_⟩
  · -- poisoned from the beginning, and unchanged since
    intro hs e hprep
    have hpoisoned := begin_poisoned s.recorded (b, []) start hprep
    have hsame := silent_of_failed s.recorded ((start.begin s.recorded).run (b, [])).2
      (by rw [hpoisoned]; rfl) hs
    exact (congrArg failure hsame.2).trans hpoisoned
  · -- the first failure of a step
    intro hs hf step e hx hw
    have he : i.ended = false := performAll_not_ended _ _ (begin_not_ended _ _ start) hs
    exact perform_fails s.recorded st hf he hx hw
  · -- between a failure and the end that reports it
    intro _ e hf more hmore
    obtain ⟨hsilent, hsame⟩ := silent_of_failed s.recorded st (by rw [hf]; rfl) hmore
    refine ⟨hsilent, ?_⟩
    rw [hsame, finish, hf]
  · -- after the end
    intro hs more
    exact silent_of_ended s.recorded st (performAll_ended _ _ (.inl hs)) more

end CimBroker.Invocation
