/-
# CimBroker.Proofs.Journal — round trips and what they were answered

A journal tells a run from outside: every round trip in order, each with the answer that came back,
failures included.  A journaled connection behaves as the connection it is made from and cannot see
its journal (`Service.journaled_alongside`), so a statement about the journals of a routine holds
for every behaviour of the other side.

The journal of a connection grows at its end.  What a routine adds to it is the sum of what its
steps add, and the lemmas here give what each operation of a session adds.

`Tells` relates the outcome of a step to the events that it adds, `Yields` does so where the step
succeeds, `AddsOnly` bounds the kinds of events, and `WrittenDown` compares a journaled step with
the plain one.  Each has a rule for steps in a row.  `Event.split_unique` is for reading journals
backwards: an event that can occur only once cuts a journal in one way.

Time is no part of a journal, and neither is anything that is done without a round trip.
-/
import CimBroker.Proofs.Recorded

namespace CimBroker

variable {σ α β : Type}

/-! ## Journals -/

instance instDecidableEqOutcome [DecidableEq α] : DecidableEq (Except Error α)
  | .ok x, .ok y => decidable_of_iff (x = y) (by simp)
  | .error e, .error e' => decidable_of_iff (e = e') (by simp)
  | .ok _, .error _ => isFalse nofun
  | .error _, .ok _ => isFalse nofun

/-- A round trip and its answer. -/
inductive Event where
  | query (wql : String) (answer : Except Error Cursor)
  | enumerate (className : String) (answer : Except Error Cursor)
  | fetch (path : String) (answer : Except Error (Option Handle))
  | invoke (path method : String) (inputs : Option Handle) (answer : Except Error (Option Handle))
  | next (cursor : Cursor) (answer : Except Error (Option Handle))
  | get (h : Handle) (name : String) (answer : Except Error (Variant × CimType))
  | put (h : Handle) (name : String) (value : Variant) (answer : Except Error Unit)
  deriving DecidableEq

namespace Event

/-- The round trip without its answer. -/
def trip : Event → RoundTrip
  | query wql _ => .query wql
  | enumerate className _ => .enumerate className
  | fetch path _ => .fetch path
  | invoke path method _ _ => .invoke path method
  | next cursor _ => .next cursor
  | get h name _ => .get h name
  | put h name value _ => .put h name value

/-- The name of the property that the event reads, if it reads one. -/
def readName? : Event → Option String
  | get _ name _ => some name
  | _ => none

variable (kind : Event → Bool) {first events seen rest more : List Event} {e : Event}

/-- An event of a kind that does not occur in the first part of a journal comes after that part. -/
theorem split_after (h : first ++ events = seen ++ e :: more) (he : kind e = true)
    (hfirst : ∀ x ∈ first, kind x = false) :
    ∃ seen', seen = first ++ seen' ∧ events = seen' ++ e :: more := by
  rcases List.append_eq_append_iff.mp h with ⟨seen', hseen, hevents⟩ | ⟨between, rfl, hmore⟩
  · exact ⟨seen', hseen, hevents⟩
  · cases between with
    | nil => exact ⟨[], by simp, hmore.symm⟩
    | cons x between =>
      obtain ⟨rfl, -⟩ := List.cons.inj hmore
      rw [hfirst e (List.mem_append_right seen List.mem_cons_self)] at he
      cases he

/-- An event of a kind that does not occur in the last part of a journal comes before that part. -/
theorem split_before (h : events ++ rest = seen ++ e :: more) (he : kind e = true)
    (hrest : ∀ x ∈ rest, kind x = false) : ∃ more', events = seen ++ e :: more' := by
  rcases List.append_eq_append_iff.mp h with ⟨between, rfl, rfl⟩ | ⟨between, rfl, hmore⟩
  · rw [hrest e (List.mem_append_right between List.mem_cons_self)] at he
    cases he
  · cases between with
    | nil =>
      obtain rfl : e :: more = rest := hmore
      rw [hrest e List.mem_cons_self] at he
      cases he
    | cons x between =>
      obtain ⟨rfl, -⟩ := List.cons.inj hmore
      exact ⟨between, rfl⟩

/-- An event of a kind that occurs only once splits a journal in one way. -/
theorem split_unique {seen' rest' : List Event} {e' : Event}
    (h : seen ++ e :: rest = seen' ++ e' :: rest') (he : kind e = true)
    (hseen : ∀ x ∈ seen', kind x = false) (hrest : ∀ x ∈ rest', kind x = false) :
    seen = seen' ∧ e = e' ∧ rest = rest' := by
  obtain ⟨between, rfl, hevents⟩ := split_after kind h.symm he hseen
  have hsingle : [e'] ++ rest' = between ++ e :: rest := hevents
  obtain ⟨more, hmore⟩ := split_before kind hsingle he hrest
  cases between with
  | nil =>
    obtain ⟨rfl, rfl⟩ := List.cons.inj hevents
    exact ⟨List.append_nil seen', rfl, rfl⟩
  | cons x between => simp at hmore

end Event

namespace Action

/-- Makes a round trip and writes it down with its answer. -/
def witnessed (event : Except Error α → Event) (action : Action σ α) :
    Action (σ × List Event) α :=
  ofRun fun s => ((action.run s.1).1, (action.run s.1).2, s.2 ++ [event (action.run s.1).1])

@[simp] theorem run_witnessed (event : Except Error α → Event) (action : Action σ α) (b : σ)
    (journal : List Event) :
    (witnessed event action).run (b, journal) =
      ((action.run b).1, (action.run b).2, journal ++ [event (action.run b).1]) := rfl

end Action

/-- The connection that keeps a journal. -/
def Connection.journaled (c : Connection σ) : Connection (σ × List Event) :=
  { c.onFirst (List Event) with
    query := fun wql => (c.query wql).witnessed (.query wql)
    enumerate := fun className => (c.enumerate className).witnessed (.enumerate className)
    fetch := fun path => (c.fetch path).witnessed (.fetch path)
    invoke := fun path method inputs =>
      (c.invoke path method inputs).witnessed (.invoke path method inputs)
    next := fun cursor => (c.next cursor).witnessed (.next cursor)
    get := fun h name => (c.get h name).witnessed (.get h name)
    put := fun h name value => (c.put h name value).witnessed (.put h name value) }

/-- The session over the journaled connection. -/
def Service.journaled (s : Service σ) : Service (σ × List Event) :=
  ⟨s.connection.journaled, s.config, s.pace⟩

/-- Keeping a journal changes no answer and nothing behind the connection. -/
theorem Service.journaled_alongside (s : Service σ) :
    s.journaled.Alongside (fun _ => True) (fun st b => st.1 = b) s where
  get _ _ _ := by rintro ⟨_, journal⟩ b rfl; exact ⟨rfl, rfl⟩
  put _ _ _ := by rintro ⟨_, journal⟩ b rfl; exact ⟨rfl, rfl⟩
  spawn _ := by rintro ⟨_, journal⟩ b rfl; exact ⟨rfl, rfl⟩
  text _ := by rintro ⟨_, journal⟩ b rfl; exact ⟨rfl, rfl⟩
  signature _ _ := by rintro ⟨_, journal⟩ b rfl; exact ⟨rfl, rfl⟩
  next _ := by rintro ⟨_, journal⟩ b rfl; exact ⟨rfl, rfl⟩
  query _ := by rintro ⟨_, journal⟩ b rfl; exact ⟨rfl, rfl⟩
  enumerate _ := by rintro ⟨_, journal⟩ b rfl; exact ⟨rfl, rfl⟩
  fetch _ := by rintro ⟨_, journal⟩ b rfl; exact ⟨rfl, rfl⟩
  config := rfl
  pace := rfl
  path := trivial
  className := trivial

theorem Service.journaled_invokesAlike (s : Service σ) :
    s.journaled.InvokesAlike (fun st b => st.1 = b) s := by
  rintro path method inputs ⟨_, journal⟩ b rfl
  exact ⟨rfl, rfl⟩

/-! ## What a step tells

A step tells a relation when its outcome and the events that it adds to the journal are always
related so.  The state of the other side does not occur in the relation, so what a routine tells
follows from what its steps tell, with no word about how the other side behaves. -/

/-- From every state, the outcome of the step and the events that it adds are related by `R`. -/
def Tells (R : β → List Event → Prop) (step : σ × List Event → β × (σ × List Event)) : Prop :=
  ∀ b journal, ∃ outcome after events,
    step (b, journal) = (outcome, after, journal ++ events) ∧ R outcome events

namespace Tells

theorem mono {R Q : β → List Event → Prop} {step : σ × List Event → β × (σ × List Event)}
    (h : Tells R step) (himp : ∀ y events, R y events → Q y events) : Tells Q step := by
  intro b journal
  obtain ⟨outcome, after, events, hrun, hR⟩ := h b journal
  exact ⟨outcome, after, events, hrun, himp outcome events hR⟩

/-- A step that tells two things tells them of the same events. -/
theorem and {R Q : β → List Event → Prop} {step : σ × List Event → β × (σ × List Event)}
    (h : Tells R step) (h' : Tells Q step) :
    Tells (fun y events => R y events ∧ Q y events) step := by
  intro b journal
  obtain ⟨outcome, after, events, hrun, hR⟩ := h b journal
  obtain ⟨outcome', after', events', hrun', hQ⟩ := h' b journal
  obtain ⟨rfl, rfl, hevents⟩ := by simpa using hrun.symm.trans hrun'
  obtain rfl := hevents
  exact ⟨outcome, after, events, hrun, hR, hQ⟩

/-- What a step that was run has added. -/
theorem events {R : β → List Event → Prop} {step : σ × List Event → β × (σ × List Event)}
    (h : Tells R step) {st st' : σ × List Event} {y : β} (hrun : step st = (y, st')) :
    ∃ events, st'.2 = st.2 ++ events ∧ R y events := by
  obtain ⟨b, journal⟩ := st
  obtain ⟨outcome, after, events, hrun', hR⟩ := h b journal
  obtain ⟨rfl, rfl⟩ := Prod.mk.inj (hrun.symm.trans hrun')
  exact ⟨events, rfl, hR⟩

theorem added {R : β → List Event → Prop} {step : σ × List Event → β × (σ × List Event)}
    (h : Tells R step) (st : σ × List Event) :
    ∃ events, (step st).2.2 = st.2 ++ events ∧ R (step st).1 events :=
  h.events rfl

/-- Two steps in a row add the events of the first and then those of the second. -/
theorem step_bind {R : α → List Event → Prop} {Q : β → List Event → Prop}
    {step : StateM (σ × List Event) α} {next : α → StateM (σ × List Event) β}
    (h : Tells R step.run)
    (hnext : ∀ x first, R x first → Tells (fun y rest => Q y (first ++ rest)) (next x).run) :
    Tells Q (step >>= next).run := by
  intro b journal
  obtain ⟨x, between, first, hrun, hR⟩ := h b journal
  obtain ⟨y, after, rest, hrun', hQ⟩ := hnext x first hR between (journal ++ first)
  refine ⟨y, after, first ++ rest, ?_, hQ⟩
  rw [StateT.run_bind, hrun, ← List.append_assoc]
  exact hrun'

/-- Two actions in a row add the events of the first and, unless it fails, those of the second. -/
theorem bind {R : Except Error α → List Event → Prop} {Q : Except Error β → List Event → Prop}
    {action : Action (σ × List Event) α} {next : α → Action (σ × List Event) β}
    (h : Tells R action.run)
    (hnext : ∀ x first, R (.ok x) first →
      Tells (fun y rest => Q y (first ++ rest)) (next x).run)
    (hfail : ∀ e events, R (.error e) events → Q (.error e) events) :
    Tells Q (action >>= next).run := by
  intro b journal
  obtain ⟨outcome, between, first, hrun, hR⟩ := h b journal
  cases outcome with
  | error e => exact ⟨.error e, between, first, Action.run_bind_of_error hrun, hfail e first hR⟩
  | ok x =>
    obtain ⟨y, after, rest, hrun', hQ⟩ := hnext x first hR between (journal ++ first)
    refine ⟨y, after, first ++ rest, ?_, hQ⟩
    rw [Action.run_bind_of_ok hrun, ← List.append_assoc]
    exact hrun'

theorem of_eq {R : β → List Event → Prop} {step : σ × List Event → β × (σ × List Event)} {y : β}
    (hstep : ∀ st, step st = (y, st)) (h : R y []) : Tells R step := by
  intro b journal
  refine ⟨y, b, [], ?_, h⟩
  rw [hstep, List.append_nil]

theorem pure {R : Except Error α → List Event → Prop} {x : α} (h : R (.ok x) []) :
    Tells R (Pure.pure x : Action (σ × List Event) α).run :=
  of_eq (fun _ => rfl) h

theorem throw {R : Except Error α → List Event → Prop} {e : Error} (h : R (.error e) []) :
    Tells R (MonadExcept.throw e : Action (σ × List Event) α).run :=
  of_eq (fun _ => rfl) h

/-- After a failure nothing is added. -/
theorem throw_bind {R : Except Error β → List Event → Prop} {e : Error}
    {next : α → Action (σ × List Event) β} (h : R (.error e) []) :
    Tells R ((MonadExcept.throw e : Action (σ × List Event) α) >>= next).run :=
  of_eq (fun _ => Action.run_bind_of_error rfl) h

theorem ofExcept {R : Except Error α → List Event → Prop} {outcome : Except Error α}
    (h : R outcome []) : Tells R (Action.ofExcept outcome : Action (σ × List Event) α).run :=
  of_eq (fun st => Action.run_ofExcept outcome st) h

theorem mapError {R : Except Error α → List Event → Prop} {f : Error → Error}
    {action : Action (σ × List Event) α}
    (h : Tells (fun outcome events => R (outcome.mapError f) events) action.run) :
    Tells R (action.mapError f).run := by
  intro b journal
  obtain ⟨outcome, after, events, hrun, hR⟩ := h b journal
  refine ⟨outcome.mapError f, after, events, ?_, hR⟩
  rw [Action.run_mapError, hrun]

/-- A step that cannot fail, as an action. -/
theorem lift {R : Except Error α → List Event → Prop} {step : StateM (σ × List Event) α}
    (h : Tells (fun x events => R (.ok x) events) step.run) :
    Tells R (ExceptT.lift step : Action (σ × List Event) α).run := by
  intro b journal
  obtain ⟨x, after, events, hrun, hR⟩ := h b journal
  refine ⟨.ok x, after, events, ?_, hR⟩
  show ((.ok (step.run (b, journal)).1 : Except Error α), (step.run (b, journal)).2) = _
  rw [hrun]

/-- A round trip adds one event, which holds its answer. -/
theorem witnessed {R : Except Error α → List Event → Prop} {event : Except Error α → Event}
    {action : Action σ α} (h : ∀ answer, R answer [event answer]) :
    Tells R (action.witnessed event).run :=
  fun b _ => ⟨_, _, _, rfl, h (action.run b).1⟩

/-- What is no round trip adds no event. -/
theorem onFirst {R : Except Error α → List Event → Prop} {action : Action σ α}
    (h : ∀ answer, R answer []) :
    Tells R (Action.onFirst action : Action (σ × List Event) α).run := by
  intro b journal
  refine ⟨(action.run b).1, (action.run b).2, [], ?_, h _⟩
  rw [Action.run_onFirst, List.append_nil]

end Tells

/-! ## What the values of a step tell -/

/-- From every state, the value of the step and the events that it adds are related by `P`.  Nothing
is said of a failure. -/
def Yields (P : α → List Event → Prop) (step : σ × List Event → Except Error α × (σ × List Event)) :
    Prop :=
  Tells (fun outcome events => ∀ x, outcome = .ok x → P x events) step

namespace Yields

/-- Two actions in a row yield what the second does, after the events of the first. -/
theorem bind {P : α → List Event → Prop} {Q : β → List Event → Prop}
    {action : Action (σ × List Event) α} {next : α → Action (σ × List Event) β}
    (h : Yields P action.run)
    (hnext : ∀ x first, P x first → Yields (fun y rest => Q y (first ++ rest)) (next x).run) :
    Yields Q (action >>= next).run := by
  refine Tells.bind h (fun x first hx => hnext x first (hx x rfl)) ?_
  intro e events _ y hy
  cases hy

theorem throw_bind {Q : β → List Event → Prop} {e : Error} {next : α → Action (σ × List Event) β} :
    Yields Q ((MonadExcept.throw e : Action (σ × List Event) α) >>= next).run := by
  refine Tells.throw_bind ?_
  intro y hy
  cases hy

/-- A round trip that succeeds has been answered with its value. -/
theorem witnessed {P : α → List Event → Prop} {event : Except Error α → Event}
    {action : Action σ α} (h : ∀ x, P x [event (.ok x)]) :
    Yields P (action.witnessed event).run := by
  refine Tells.witnessed ?_
  rintro answer x rfl
  exact h x

end Yields

/-! ## Steps that add events of one kind

A routine that makes no round trip of some kind adds no event of that kind.  To see this for a whole
routine, it is enough to see it for the round trips of its session: the routine then goes beside
itself from every journal on. -/

/-- The step adds only events that satisfy `P`. -/
def AddsOnly (P : Event → Prop) (step : σ × List Event → β × (σ × List Event)) : Prop :=
  Tells (fun _ events => ∀ e ∈ events, P e) step

/-- The states are the same, and what their journal holds besides the given one satisfies `P`. -/
def AddedOnly (P : Event → Prop) (journal : List Event) (st st' : σ × List Event) : Prop :=
  st = st' ∧ ∃ events, st.2 = journal ++ events ∧ ∀ e ∈ events, P e

namespace AddsOnly

variable {P : Event → Prop}

theorem witnessed {event : Except Error α → Event} {action : Action σ α}
    (h : ∀ answer, P (event answer)) : AddsOnly P (action.witnessed event).run := by
  refine Tells.witnessed fun answer e he => ?_
  rw [List.mem_singleton.mp he]
  exact h answer

theorem onFirst (action : Action σ α) :
    AddsOnly P (Action.onFirst action : Action (σ × List Event) α).run :=
  Tells.onFirst fun _ => List.forall_mem_nil _

theorem parallel {step : σ × List Event → β × (σ × List Event)} (h : AddsOnly P step)
    (journal : List Event) : Parallel (AddedOnly P journal) step step := by
  rintro ⟨b, now⟩ _ ⟨rfl, first, hfirst, hadded⟩
  obtain rfl : now = journal ++ first := hfirst
  obtain ⟨outcome, after, events, hrun, hevents⟩ := h b (journal ++ first)
  rw [hrun]
  exact ⟨rfl, rfl, first ++ events, List.append_assoc _ _ _,
    List.forall_mem_append.mpr ⟨hadded, hevents⟩⟩

/-- A step adds only such events if it goes beside itself from every journal on, adding them. -/
theorem of_parallel {step : σ × List Event → β × (σ × List Event)}
    (h : ∀ journal, Parallel (AddedOnly P journal) step step) : AddsOnly P step := by
  intro b journal
  obtain ⟨-, -, events, hevents, hadded⟩ := h journal (b, journal) (b, journal)
    ⟨rfl, [], (List.append_nil journal).symm, List.forall_mem_nil _⟩
  refine ⟨(step (b, journal)).1, (step (b, journal)).2.1, events, ?_, hadded⟩
  rw [← hevents]

end AddsOnly

/-- The round trips of a session, the call of a method apart, add only events that satisfy `P`, if
all events do that neither call a method nor read a property but those of the given names. -/
theorem Service.addsOnly_alongside (s : Service σ) {P : Event → Prop} {names : String → Prop}
    (h : ∀ e : Event, e.trip.isInvoke = false → (∀ name ∈ e.readName?, names name) → P e)
    (hpath : names pathProperty) (hclass : names classProperty) (journal : List Event) :
    s.journaled.Alongside names (AddedOnly P journal) s.journaled :=
  have hunread (e : Event) (hinvoke : e.trip.isInvoke = false) (hread : e.readName? = none) : P e :=
    h e hinvoke (by simp [hread])
  { get := fun handle name hname => by
      refine (AddsOnly.witnessed fun answer => h _ rfl ?_).parallel journal
      rintro _ ⟨⟩
      exact hname
    put := fun _ _ _ => (AddsOnly.witnessed fun _ => hunread _ rfl rfl).parallel journal
    spawn := fun _ => (AddsOnly.onFirst _).parallel journal
    text := fun _ => (AddsOnly.onFirst _).parallel journal
    signature := fun _ _ => (AddsOnly.onFirst _).parallel journal
    next := fun _ => (AddsOnly.witnessed fun _ => hunread _ rfl rfl).parallel journal
    query := fun _ => (AddsOnly.witnessed fun _ => hunread _ rfl rfl).parallel journal
    enumerate := fun _ => (AddsOnly.witnessed fun _ => hunread _ rfl rfl).parallel journal
    fetch := fun _ => (AddsOnly.witnessed fun _ => hunread _ rfl rfl).parallel journal
    config := rfl
    pace := rfl
    path := hpath
    className := hclass }

/-! ## Steps that are written down

Of a step that makes its round trips through a journaled connection, more can be said than what it
tells: what it adds to a journal does not depend on what the journal held before. -/

/-- The action does what the plain one does, and adds to every journal the same events, all of which
satisfy `P`. -/
def WrittenDown (P : Event → Prop) (action : Action (σ × List Event) α)
    (plain : Action σ α) : Prop :=
  ∀ b, ∃ events, (∀ e ∈ events, P e) ∧ ∀ journal,
    action.run (b, journal) = ((plain.run b).1, (plain.run b).2, journal ++ events)

namespace WrittenDown

variable {P : Event → Prop}

theorem of_eq {action : Action (σ × List Event) α} {plain : Action σ α}
    (h : ∀ b journal, action.run (b, journal) = ((plain.run b).1, (plain.run b).2, journal)) :
    WrittenDown P action plain := by
  intro b
  refine ⟨[], List.forall_mem_nil _, fun journal => ?_⟩
  rw [h, List.append_nil]

theorem pure (x : α) :
    WrittenDown P (Pure.pure x : Action (σ × List Event) α) (Pure.pure x : Action σ α) :=
  of_eq fun _ _ => rfl

theorem ofExcept (outcome : Except Error α) :
    WrittenDown P (Action.ofExcept outcome : Action (σ × List Event) α)
      (Action.ofExcept outcome : Action σ α) := by
  cases outcome <;> exact of_eq fun _ _ => rfl

theorem onFirst (action : Action σ α) :
    WrittenDown P (Action.onFirst action : Action (σ × List Event) α) action :=
  of_eq fun _ _ => rfl

theorem witnessed {event : Except Error α → Event} {action : Action σ α}
    (h : ∀ answer, P (event answer)) : WrittenDown P (action.witnessed event) action := by
  intro b
  refine ⟨[event (action.run b).1], ?_, fun journal => rfl⟩
  exact List.forall_mem_singleton.mpr (h _)

theorem bind {action : Action (σ × List Event) α} {plain : Action σ α}
    {next : α → Action (σ × List Event) β} {plainNext : α → Action σ β}
    (h : WrittenDown P action plain) (hnext : ∀ x, WrittenDown P (next x) (plainNext x)) :
    WrittenDown P (action >>= next) (plain >>= plainNext) := by
  intro b
  obtain ⟨first, hfirst, hrun⟩ := h b
  rcases hplain : plain.run b with ⟨e | x, b'⟩
  · refine ⟨first, hfirst, fun journal => ?_⟩
    rw [Action.run_bind_of_error hplain, Action.run_bind, hrun, hplain]
  · obtain ⟨rest, hrest, hrun'⟩ := hnext x b'
    refine ⟨first ++ rest, List.forall_mem_append.mpr ⟨hfirst, hrest⟩, fun journal => ?_⟩
    rw [Action.run_bind_of_ok hplain, Action.run_bind, hrun, hplain, ← List.append_assoc]
    exact hrun' (journal ++ first)

theorem mono {Q : Event → Prop} {action : Action (σ × List Event) α} {plain : Action σ α}
    (h : WrittenDown P action plain) (himp : ∀ e, P e → Q e) : WrittenDown Q action plain := by
  intro b
  obtain ⟨events, hevents, hrun⟩ := h b
  exact ⟨events, fun e he => himp e (hevents e he), hrun⟩

end WrittenDown

/-! ## What the operations of a session write down -/

namespace ObjectAccess

/-- A decoded property is the property's value, decoded. -/
theorem run_getAs (access : ObjectAccess σ) (h : Handle) (name : String) (t : DataType) (b : σ) :
    (access.getAs h name t).run b =
      (((access.get h name).run b).1.bind fun found => t.decode found.1,
        ((access.get h name).run b).2) := by
  unfold getAs value
  rw [Action.run_bind, Action.run_bind]
  rcases (access.get h name).run b with ⟨outcome, b'⟩
  cases outcome with
  | error e => rfl
  | ok found => exact Action.run_ofExcept (t.decode found.1) b'

end ObjectAccess

namespace Service

variable (s : Service σ)

/-- Reading and decoding a property is one round trip. -/
theorem run_getAs_journaled (h : Handle) (name : String) (t : DataType) (b : σ)
    (journal : List Event) :
    (s.journaled.access.getAs h name t).run (b, journal) =
      (((s.access.getAs h name t).run b).1, ((s.access.getAs h name t).run b).2,
        journal ++ [.get h name ((s.access.get h name).run b).1]) := by
  rw [ObjectAccess.run_getAs, ObjectAccess.run_getAs]
  rfl

/-- Asking for the path that an object has to have is one round trip. -/
theorem run_requirePath_journaled (h : Handle) (b : σ) (journal : List Event) :
    (s.journaled.access.requirePath h).run (b, journal) =
      (((s.access.requirePath h).run b).1, ((s.access.requirePath h).run b).2,
        journal ++ [.get h pathProperty ((s.access.get h pathProperty).run b).1]) := by
  unfold ObjectAccess.requirePath ObjectAccess.path?
  rw [Action.run_bind, Action.run_bind, run_getAs_journaled]
  rcases (s.access.getAs h pathProperty (.optional .text)).run b with ⟨outcome, b'⟩
  cases outcome with
  | error e => rfl
  | ok path => cases path <;> rfl

/-- Fetching an object that has to be there is one round trip. -/
theorem run_getObject_journaled (path : String) (b : σ) (journal : List Event) :
    (s.journaled.getObject path).run (b, journal) =
      (((s.getObject path).run b).1, ((s.getObject path).run b).2,
        journal ++ [.fetch path ((s.connection.fetch path).run b).1]) := by
  have hfetch : (s.journaled.connection.fetch path).run (b, journal) =
      (((s.connection.fetch path).run b).1, ((s.connection.fetch path).run b).2,
        journal ++ [.fetch path ((s.connection.fetch path).run b).1]) := rfl
  unfold getObject
  rw [Action.run_bind, Action.run_bind, hfetch]
  rcases (s.connection.fetch path).run b with ⟨outcome, b'⟩
  cases outcome with
  | error e => rfl
  | ok found => cases found <;> rfl

end Service

end CimBroker
