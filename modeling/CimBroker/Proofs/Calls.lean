/-
# CimBroker.Proofs.Calls — what a call of a method tells its caller

A caller of `Service.call` writes down the whole call and looks at one outcome.  The variables that
the outputs are read into start as zero and as nothing, so that the outcome is to be trusted only if
no failure on the way can be taken for those.  This module follows a call through its journal: if it
yields a return value and a job, the method was called once, it returned outputs, and both values
were read from them (`call_told`).  Everything else that can happen is a failure, and the error
number of a job is read in none of it.

Each step of an invocation is described by what it tells, and the description of the call is put
together from these with `Tells.step_bind`.

The steps are those of `Invocation.setAll_told`, `Invocation.Executed` and `Invocation.Obtained`,
and most of them are `Quietly` taken.  The wait that follows a call is left to
`CimBroker.Proofs.Waiting`, and what the inputs were is left to `CimBroker.Proofs.MethodCalls`.
-/
import CimBroker.Proofs.FailFast
import CimBroker.Proofs.Journal

namespace CimBroker

variable {σ α β : Type}

/-! ## Quiet steps -/

namespace Event

/-- Whether the event is the call of a method. -/
def isInvoke (e : Event) : Bool := e.trip.isInvoke

/-- Whether the event is a read of the error number of a job. -/
def asksCode : Event → Bool
  | get _ name _ => name == "ErrorCode"
  | _ => false

/-- The event neither calls a method nor reads the error number of a job. -/
structure Quiet (e : Event) : Prop where
  calls : e.isInvoke = false
  asks : e.asksCode = false

/-- Reading any property but the error number of a job is quiet. -/
theorem quiet_get {name : String} (h : Handle) (answer : Except Error (Variant × CimType))
    (hname : name ≠ "ErrorCode") : (Event.get h name answer).Quiet :=
  ⟨rfl, by simpa [asksCode] using hname⟩

/-- Quiet events hold no call of a method. -/
theorem countP_isInvoke_of_quiet {events : List Event} (h : ∀ e ∈ events, e.Quiet) :
    events.countP Event.isInvoke = 0 := by
  rw [List.countP_eq_zero]
  intro e he
  simp [(h e he).calls]

end Event

/-- The step adds quiet events only. -/
def Quietly (step : σ × List Event → β × (σ × List Event)) : Prop :=
  Tells (fun _ events => ∀ e ∈ events, e.Quiet) step

/-- The states are the same, and what their journal holds besides the given one is quiet. -/
def QuietSince (journal : List Event) (st st' : σ × List Event) : Prop :=
  st = st' ∧ ∃ events, st.2 = journal ++ events ∧ ∀ e ∈ events, e.Quiet

/-- A step is quiet if it goes beside itself from every journal on, with quiet events. -/
theorem Quietly.of_parallel {step : σ × List Event → β × (σ × List Event)}
    (h : ∀ journal, Parallel (QuietSince journal) step step) : Quietly step :=
  AddsOnly.of_parallel h

/-- All round trips of a session are quiet but the call of a method and the read of an error
number. -/
theorem Service.quiet_alongside (s : Service σ) (journal : List Event) :
    s.journaled.Alongside (· ≠ "ErrorCode") (QuietSince journal) s.journaled := by
  refine s.addsOnly_alongside (P := Event.Quiet) (fun e hinvoke hnames => ⟨hinvoke, ?_⟩)
    (by decide) (by decide) journal
  cases e with
  | get h name answer => exact (Event.quiet_get h answer (hnames name rfl)).asks
  | _ => rfl

/-! ## The steps of an invocation -/

namespace Service

/-- The object at a path is the answer to one fetch. -/
theorem getObject_told (s : Service σ) (path : String) :
    Tells (fun outcome events => ∃ answer, events = [.fetch path answer] ∧
      ∀ h, outcome = .ok h → answer = .ok (some h)) (s.journaled.getObject path).run := by
  refine Tells.bind (R := fun answer events => events = [.fetch path answer])
    (Tells.witnessed fun _ => rfl) ?_ ?_
  · rintro found events rfl
    cases found with
    | none => exact Tells.throw ⟨_, rfl, nofun⟩
    | some h =>
      refine Tells.pure ⟨_, rfl, ?_⟩
      rintro h' ⟨⟩
      rfl
  · rintro e events rfl
    exact ⟨_, rfl, nofun⟩

end Service

namespace Invocation

variable (s : Service σ)

/-- An invocation that is still to be executed. -/
structure Fresh (method : String) (i : Invocation) : Prop where
  method : i.method = method
  executed : i.executed = false
  ended : i.ended = false

theorem Fresh.prepared (method : String) (outcome : Except Error (String × Option Handle)) :
    Fresh method (prepared method outcome) := by
  cases outcome with
  | error e => exact ⟨rfl, rfl, rfl⟩
  | ok found => exact ⟨rfl, rfl, rfl⟩

theorem Fresh.noting {method : String} {i : Invocation} (h : Fresh method i)
    (outcome : Except Error α) : Fresh method (i.noting outcome) := by
  cases outcome with
  | error e => exact ⟨h.method, h.executed, h.ended⟩
  | ok x => exact h

theorem begin_told (target : Handle) (method : String) :
    Tells (fun i events => Fresh method i ∧ ∀ e ∈ events, e.Quiet)
      (begin s.journaled target method).run := by
  have hquiet : Quietly (preparation s.journaled target method).run :=
    Quietly.of_parallel fun journal => (s.quiet_alongside journal).preparation target method
  intro b journal
  obtain ⟨outcome, after, events, hrun, hevents⟩ := hquiet b journal
  refine ⟨Invocation.prepared method outcome, after, events, ?_, Fresh.prepared method outcome,
    hevents⟩
  show (Invocation.prepared method ((preparation s.journaled target method).run (b, journal)).1,
    ((preparation s.journaled target method).run (b, journal)).2) = _
  rw [hrun]

theorem set_told {method : String} {i : Invocation} (h : Fresh method i) {name : String}
    (x : Argument) (hname : name ≠ "ErrorCode") :
    Tells (fun i' events => Fresh method i' ∧ ∀ e ∈ events, e.Quiet)
      (i.set s.journaled name x).run := by
  intro b journal
  cases hf : i.failure with
  | some e =>
    have hclosed := set_closed s.journaled (b, journal) name x (.inl (by rw [hf]; rfl))
    refine ⟨i, b, [], ?_, h, List.forall_mem_nil _⟩
    rw [hclosed, List.append_nil]
  | none =>
    have hstage : Quietly (i.stage s.journaled name x).run :=
      Quietly.of_parallel fun journal => (s.quiet_alongside journal).stage i x hname
    obtain ⟨outcome, after, events, hrun, hquiet⟩ := hstage b journal
    refine ⟨i.noting outcome, after, events, ?_, h.noting outcome, hquiet⟩
    rw [set_open s.journaled (b, journal) name x hf h.ended, hrun]

/-- Inputs are set quietly, in whatever number. -/
theorem setAll_told {method : String} {i : Invocation} (h : Fresh method i)
    (inputs : List (String × Argument)) (hnames : ∀ input ∈ inputs, input.1 ≠ "ErrorCode") :
    Tells (fun i' events => Fresh method i' ∧ ∀ e ∈ events, e.Quiet)
      (i.setAll s.journaled inputs).run := by
  induction inputs generalizing i with
  | nil => exact Tells.of_eq (fun _ => rfl) ⟨h, List.forall_mem_nil _⟩
  | cons input inputs ih =>
    obtain ⟨name, x⟩ := input
    have hname : name ≠ "ErrorCode" := hnames (name, x) List.mem_cons_self
    have hrest : ∀ input ∈ inputs, input.1 ≠ "ErrorCode" :=
      fun input hmem => hnames input (List.mem_cons_of_mem _ hmem)
    refine Tells.step_bind (set_told s h x hname) fun i' first hfirst => ?_
    refine (ih hfirst.1 hrest).mono fun i'' rest hafter => ⟨hafter.1, ?_⟩
    exact List.forall_mem_append.mpr ⟨hfirst.2, hafter.2⟩

/-- What executing a fresh invocation tells: it has failed, and nobody was asked for an error
number; or its method was called, with one answer. -/
inductive Executed (method : String) (i' : Invocation) (events : List Event) : Prop
  | failed (hfailed : i'.failure.isSome) (hasks : ∀ e ∈ events, e.asksCode = false)
  | called {path : String} {inputs outputs : Option Handle} (hfailure : i'.failure = none)
      (hexecuted : i'.executed = true) (hended : i'.ended = false) (houtputs : i'.outputs = outputs)
      (hevents : events = [.invoke path method inputs (.ok outputs)])

theorem execute_told {method : String} {i : Invocation} (h : Fresh method i) :
    Tells (Executed method) (i.execute s.journaled).run := by
  intro b journal
  cases hf : i.failure with
  | some e =>
    have hfailed : i.failure.isSome := by rw [hf]; rfl
    refine ⟨i, b, [], ?_, .failed hfailed (List.forall_mem_nil _)⟩
    rw [execute_closed s.journaled (b, journal) (.inl hfailed), List.append_nil]
  | none =>
    rw [execute_open s.journaled (b, journal) hf h.executed h.ended]
    -- the one round trip of an execution, with whatever answer it gets
    have hrun : (s.journaled.connection.invoke i.path i.method i.inputs).run (b, journal) =
        (((s.connection.invoke i.path i.method i.inputs).run b).1,
          ((s.connection.invoke i.path i.method i.inputs).run b).2, journal ++ [.invoke i.path
            i.method i.inputs ((s.connection.invoke i.path i.method i.inputs).run b).1]) := rfl
    rw [hrun, h.method]
    rcases (s.connection.invoke i.path method i.inputs).run b with ⟨answer, after⟩
    cases answer with
    | error e =>
      refine ⟨_, after, _, rfl, .failed ?_ ?_⟩
      · show ((i.failure <|> some e).isSome : Bool) = true
        rw [hf]
        rfl
      · intro event hevent
        rw [List.mem_singleton.mp hevent]
        rfl
    | ok outputs => exact ⟨_, after, _, rfl, .called hf rfl h.ended rfl rfl⟩

/-- Reading an output of the given outputs: as it stands, or as the object at the path that stands
there, where a reference is declared and an object is wanted. -/
inductive OutputRead (outputs : Handle) (name : String) (t : DataType) (x : t.Value) :
    List Event → Prop
  | direct {v : Variant} {declared : CimType} (hdecode : t.decode v = .ok x) :
      OutputRead outputs name t x [.get outputs name (.ok (v, declared))]
  | resolved {path : String} {v : Variant} {declared : CimType} {h : Handle}
      (hpath : v.text? = some path) (href : declared.isReference)
      (hdecode : t.decode (.object h) = .ok x) :
      OutputRead outputs name t x
        [.get outputs name (.ok (v, declared)), .fetch path (.ok (some h))]

/-- Reading an output other than an error number is quiet. -/
theorem OutputRead.quiet {outputs : Handle} {name : String} {t : DataType} {x : t.Value}
    {events : List Event} (h : OutputRead outputs name t x events) (hname : name ≠ "ErrorCode") :
    ∀ e ∈ events, e.Quiet := by
  cases h with
  | direct =>
    intro e he
    rw [List.mem_singleton.mp he]
    exact Event.quiet_get outputs _ hname
  | resolved =>
    intro e he
    rcases List.mem_cons.mp he with rfl | hmem
    · exact Event.quiet_get outputs _ hname
    · rw [List.mem_singleton.mp hmem]
      exact ⟨rfl, rfl⟩

/-- What a reading tells: it fails quietly, or an output was read. -/
def Reading (i : Invocation) (name : String) (t : DataType) (outcome : Except Error t.Value)
    (events : List Event) : Prop :=
  (∃ e, outcome = .error e ∧ ∀ e ∈ events, e.Quiet) ∨
    ∃ outputs x, i.readable name = .ok outputs ∧ outcome = .ok x ∧
      OutputRead outputs name t x events

theorem read_told (i : Invocation) {name : String} (t : DataType) (hname : name ≠ "ErrorCode") :
    Tells (Reading i name t) (i.read s.journaled name t).run := by
  unfold read
  cases hreadable : i.readable name with
  | error e => exact Tells.throw_bind (.inl ⟨e, rfl, List.forall_mem_nil _⟩)
  | ok outputs =>
    rw [show (Action.ofExcept (.ok outputs) : Action (σ × List Event) Handle) = pure outputs from
      rfl, pure_bind]
    -- a read that fails, or whose value means nothing, is a quiet failure
    have hget : ∀ answer, (Event.get outputs name answer).Quiet :=
      fun answer => Event.quiet_get outputs answer hname
    refine Tells.bind (R := fun answer events => events = [.get outputs name answer])
      (Tells.witnessed fun _ => rfl) ?_ ?_
    · rintro ⟨v, declared⟩ first rfl
      have hplain : Tells (fun outcome rest => Reading i name t outcome
            ([.get outputs name (.ok (v, declared))] ++ rest))
          (Action.ofExcept (t.decode v) : Action (σ × List Event) t.Value).run := by
        refine Tells.ofExcept ?_
        cases hdecode : t.decode v with
        | error e => exact .inl ⟨e, rfl, by simpa using hget _⟩
        | ok x => exact .inr ⟨outputs, x, hreadable, rfl, .direct hdecode⟩
      dsimp only
      split
      · rename_i path hpath
        split
        · rename_i hreference
          rw [Bool.and_eq_true] at hreference
          refine Tells.bind (s.getObject_told path) ?_ ?_
          · rintro h fetched ⟨answer, rfl, hfound⟩
            obtain rfl := hfound h rfl
            refine Tells.ofExcept ?_
            cases hdecode : t.decode (.object h) with
            | error e =>
              refine .inl ⟨e, rfl, ?_⟩
              simpa using ⟨hget _, ⟨rfl, rfl⟩⟩
            | ok x =>
              exact .inr ⟨outputs, x, hreadable, rfl, .resolved hpath hreference.1 hdecode⟩
          · rintro e fetched ⟨answer, rfl, -⟩
            refine .inl ⟨e, rfl, ?_⟩
            simpa using ⟨hget _, ⟨rfl, rfl⟩⟩
        · exact hplain
      · exact hplain
    · rintro e events rfl
      exact .inl ⟨e, rfl, by simpa using hget _⟩

/-- What reading into a destination tells: it has failed, and nobody was asked for an error number;
or the invocation is what it was, and the destination holds what was read. -/
inductive Obtained (i : Invocation) (name : String) (t : DataType) (r : Invocation × t.Value)
    (events : List Event) : Prop
  | failed (hfailed : r.1.failure.isSome) (hasks : ∀ e ∈ events, e.asksCode = false)
  | read {outputs : Handle} (hfailure : i.failure = none) (hsame : r.1 = i)
      (hreadable : i.readable name = .ok outputs) (hread : OutputRead outputs name t r.2 events)

theorem get_told (i : Invocation) {name : String} (t : DataType) (destination : t.Value)
    (hname : name ≠ "ErrorCode") :
    Tells (Obtained i name t) (i.get s.journaled name t destination).run := by
  intro b journal
  cases hf : i.failure with
  | some e =>
    have hfailed : i.failure.isSome := by rw [hf]; rfl
    refine ⟨(i, destination), b, [], ?_, .failed hfailed (List.forall_mem_nil _)⟩
    rw [get_failed s.journaled (b, journal) name t destination hfailed, List.append_nil]
  | none =>
    obtain ⟨outcome, after, events, hrun, hread⟩ := read_told s i t hname b journal
    rw [get_open s.journaled (b, journal) name t destination hf, hrun]
    refine ⟨_, after, events, rfl, ?_⟩
    rcases hread with ⟨e, rfl, hquiet⟩ | ⟨outputs, x, hreadable, rfl, hread⟩
    · refine .failed ?_ fun event hevent => (hquiet event hevent).asks
      show ((i.fail e).failure.isSome : Bool) = true
      rw [failure_fail hf]
      rfl
    · exact .read hf rfl hreadable hread

theorem Obtained.asks {i : Invocation} {name : String} {t : DataType} {r : Invocation × t.Value}
    {events : List Event} (h : Obtained i name t r events) (hname : name ≠ "ErrorCode") :
    ∀ e ∈ events, e.asksCode = false := by
  cases h with
  | failed _ hasks => exact hasks
  | read _ _ _ hread => exact fun e he => (hread.quiet hname e he).asks

/-- The outputs of an invocation that was executed and has not ended are those that it holds. -/
theorem outputs_of_readable {i : Invocation} {name : String} {outputs : Handle}
    (hexecuted : i.executed = true) (hended : i.ended = false)
    (h : i.readable name = .ok outputs) : i.outputs = some outputs := by
  unfold readable at h
  rw [hexecuted, hended] at h
  cases houtputs : i.outputs with
  | none => simp [houtputs] at h
  | some held =>
    simp [houtputs] at h
    rw [h]

end Invocation

/-! ## The whole call -/

open Invocation in
/-- Reading both outputs of a call that may have started a job, in the order given. -/
inductive Answered (outputs : Handle) (returnValue : BitVec 32) (job : Option Handle) :
    JobOutputs → List Event → Prop
  | jobFirst {jobEvents valueEvents : List Event}
      (hjob : OutputRead outputs "Job" (.optional .handle) job jobEvents)
      (hvalue : OutputRead outputs "ReturnValue" .uint32 returnValue valueEvents) :
      Answered outputs returnValue job .jobFirst (jobEvents ++ valueEvents)
  | returnValueFirst {jobEvents valueEvents : List Event}
      (hvalue : OutputRead outputs "ReturnValue" .uint32 returnValue valueEvents)
      (hjob : OutputRead outputs "Job" (.optional .handle) job jobEvents) :
      Answered outputs returnValue job .returnValueFirst (valueEvents ++ jobEvents)

/-- Reading both outputs is quiet. -/
theorem Answered.quiet {outputs : Handle} {returnValue : BitVec 32} {job : Option Handle}
    {order : JobOutputs} {events : List Event} (h : Answered outputs returnValue job order events) :
    ∀ e ∈ events, e.Quiet := by
  cases h with
  | jobFirst hjob hvalue =>
    simp only [List.forall_mem_append]
    exact ⟨hjob.quiet (by decide), hvalue.quiet (by decide)⟩
  | returnValueFirst hvalue hjob =>
    simp only [List.forall_mem_append]
    exact ⟨hvalue.quiet (by decide), hjob.quiet (by decide)⟩

/-- What a call tells: it fails, and nobody was asked for an error number; or, after quiet
preparations, the method was called once, it returned outputs, and both values come from them. -/
inductive CallTold (method : String) (order : JobOutputs) :
    Except Error (Nat × Option Handle) → List Event → Prop
  | failed {e : Error} {events : List Event} (hasks : ∀ e ∈ events, e.asksCode = false) :
      CallTold method order (.error e) events
  | answered {before answers : List Event} {path : String} {inputs job : Option Handle}
      {outputs : Handle} {returnValue : BitVec 32} (hbefore : ∀ e ∈ before, e.Quiet)
      (hanswers : Answered outputs returnValue job order answers) :
      CallTold method order (.ok (returnValue.toNat, job))
        (before ++ .invoke path method inputs (.ok (some outputs)) :: answers)

namespace Invocation

/-- What reading both outputs into their destinations tells: a failure is on record, and nobody was
asked for an error number; or both were read from the outputs of the invocation. -/
inductive AnswersTold (i : Invocation) (order : JobOutputs)
    (r : Invocation × BitVec 32 × Option Handle) (events : List Event) : Prop
  | failed (hfailed : r.1.failure.isSome) (hasks : ∀ e ∈ events, e.asksCode = false)
  | read (hsame : r.1 = i) (hfailure : i.failure = none)
      (hread : i.executed = true → i.ended = false →
        ∃ outputs, i.outputs = some outputs ∧ Answered outputs r.2.1 r.2.2 order events)

/-- Two outputs, one after the other: a failure of either is on record after both, and without one
both were read from the invocation as it is. -/
theorem Obtained.both {i i' : Invocation} {first second : String} {t t' : DataType} {x : t.Value}
    {r : Invocation × t'.Value} {events rest : List Event}
    (h : Obtained i first t (i', x) events) (h' : Obtained i' second t' r rest)
    (hfirst : first ≠ "ErrorCode") (hsecond : second ≠ "ErrorCode") :
    (r.1.failure.isSome ∧ ∀ e ∈ events ++ rest, e.asksCode = false) ∨
      r.1 = i ∧ i.failure = none ∧ (i.executed = true → i.ended = false →
        ∃ outputs, i.outputs = some outputs ∧ OutputRead outputs first t x events ∧
          OutputRead outputs second t' r.2 rest) := by
  have hasks : ∀ e ∈ events ++ rest, e.asksCode = false :=
    List.forall_mem_append.mpr ⟨h.asks hfirst, h'.asks hsecond⟩
  cases h' with
  | failed hfailed => exact .inl ⟨hfailed, hasks⟩
  | read hfailure hsame hreadable hread =>
    cases h with
    | failed hfailed =>
      -- a failure of the first reading would still be there
      rw [show i'.failure = none from hfailure] at hfailed
      cases hfailed
    | read hfailure' hsame' hreadable' hread' =>
      obtain rfl : i' = i := hsame'
      refine .inr ⟨hsame, hfailure', fun hexecuted hended => ?_⟩
      have houtputs := outputs_of_readable hexecuted hended hreadable
      have houtputs' := outputs_of_readable hexecuted hended hreadable'
      obtain rfl := Option.some.inj (houtputs.symm.trans houtputs')
      exact ⟨_, houtputs, hread', hread⟩

/-- The invocation behind a call ends with the result of the call. -/
theorem callTold_of_answers {method : String} {order : JobOutputs} {i i' : Invocation}
    {returnValue : BitVec 32} {job : Option Handle} {before executed answers : List Event}
    (hbefore : ∀ e ∈ before, e.Quiet) (hexecuted : Executed method i executed)
    (hanswers : AnswersTold i order (i', returnValue, job) answers) :
    CallTold method order (i'.finish.1.map fun _ => (returnValue.toNat, job))
      (before ++ (executed ++ answers)) := by
  cases hanswers with
  | failed hfailed hasks =>
    obtain ⟨e, he⟩ := Option.isSome_iff_exists.mp hfailed
    have hfinish : i'.finish.1 = .error e := by
      rw [finish, show i'.failure = some e from he]
    rw [hfinish]
    refine .failed fun event hevent => ?_
    rcases List.mem_append.mp hevent with hmem | hmem
    · exact (hbefore event hmem).asks
    rcases List.mem_append.mp hmem with hmem | hmem
    · cases hexecuted with
      | failed _ hasks' => exact hasks' event hmem
      | called _ _ _ _ hevents =>
        rw [hevents, List.mem_singleton] at hmem
        rw [hmem]
        rfl
    · exact hasks event hmem
  | read hsame hfailure hread =>
    obtain rfl : i' = i := hsame
    cases hexecuted with
    | failed hfailed =>
      rw [hfailure] at hfailed
      cases hfailed
    | called _ hexecuted hended houtputs hevents =>
      obtain ⟨outputs, hsome, hanswered⟩ := hread hexecuted hended
      have hfinish : i'.finish.1 = .ok () := by rw [finish, hfailure]
      rw [hfinish, hevents]
      rw [hsome] at houtputs
      rw [← houtputs]
      exact .answered hbefore hanswered

end Invocation

open Invocation in
/-- **What a call tells** (`CallTold`). A call yields a return value and a job only if its method
was called once, returned outputs, and both were read from them. -/
theorem call_told (s : Service σ) (target : Handle) (method : String)
    (inputs : List (String × Argument)) (order : JobOutputs)
    (hnames : ∀ input ∈ inputs, input.1 ≠ "ErrorCode") :
    Tells (CallTold method order) (s.journaled.call target method inputs order).run := by
  unfold Service.call
  refine Tells.bind (R := fun outcome events => ∃ r : Except Error Unit × Nat × Option Handle,
    outcome = .ok r ∧ CallTold method order (r.1.map fun _ => r.2) events) (Tells.lift ?_) ?_ ?_
  · refine Tells.step_bind (begin_told s target method) fun i₀ begun hbegun => ?_
    refine Tells.step_bind (setAll_told s hbegun.1 inputs hnames) fun i₁ staged hstaged => ?_
    refine Tells.step_bind (execute_told s hstaged.1) fun i₂ executed hexecuted => ?_
    have hbefore : ∀ e ∈ begun ++ staged, e.Quiet :=
      List.forall_mem_append.mpr ⟨hbegun.2, hstaged.2⟩
    -- either order leaves the same to be shown: what both readings told
    have hend : ∀ i₃ (returnValue : BitVec 32) job answers,
        AnswersTold i₂ order (i₃, returnValue, job) answers →
        CallTold method order (i₃.finish.1.map fun _ => (returnValue.toNat, job))
          (begun ++ (staged ++ (executed ++ answers))) := by
      intro i₃ returnValue job answers hanswers
      have htold := callTold_of_answers hbefore hexecuted hanswers
      rwa [List.append_assoc] at htold
    cases order with
    | jobFirst =>
      refine Tells.step_bind (get_told s i₂ (.optional .handle) none (by decide)) ?_
      rintro ⟨i₃, job⟩ first hjob
      refine Tells.step_bind (get_told s i₃ .uint32 0 (by decide)) ?_
      rintro ⟨i₄, returnValue⟩ rest hvalue
      refine Tells.of_eq (fun _ => rfl) ⟨_, rfl, ?_⟩
      rw [List.append_nil]
      apply hend
      rcases hjob.both hvalue (by decide) (by decide) with ⟨hfailed, hasks⟩ | ⟨hsame, hf, hread⟩
      · exact .failed hfailed hasks
      · refine .read hsame hf fun hx he => ?_
        obtain ⟨outputs, hsome, hjob', hvalue'⟩ := hread hx he
        exact ⟨outputs, hsome, .jobFirst hjob' hvalue'⟩
    | returnValueFirst =>
      refine Tells.step_bind (get_told s i₂ .uint32 0 (by decide)) ?_
      rintro ⟨i₃, returnValue⟩ first hvalue
      refine Tells.step_bind (get_told s i₃ (.optional .handle) none (by decide)) ?_
      rintro ⟨i₄, job⟩ rest hjob
      refine Tells.of_eq (fun _ => rfl) ⟨_, rfl, ?_⟩
      rw [List.append_nil]
      apply hend
      rcases hvalue.both hjob (by decide) (by decide) with ⟨hfailed, hasks⟩ | ⟨hsame, hf, hread⟩
      · exact .failed hfailed hasks
      · refine .read hsame hf fun hx he => ?_
        obtain ⟨outputs, hsome, hvalue', hjob'⟩ := hread hx he
        exact ⟨outputs, hsome, .returnValueFirst hvalue' hjob'⟩
  · rintro ⟨result, returnValue, job⟩ first ⟨_, ⟨⟩, htold⟩
    cases result with
    | error e =>
      refine Tells.throw_bind ?_
      rw [List.append_nil]
      exact htold
    | ok _ =>
      refine Tells.pure ?_
      rw [List.append_nil]
      exact htold
  · rintro e events ⟨_, ⟨⟩, -⟩

end CimBroker
