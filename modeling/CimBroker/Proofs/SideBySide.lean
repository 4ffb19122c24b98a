/-
# CimBroker.Proofs.SideBySide — one routine over two connections

A routine of a session reaches the world through its connection only.  So if two connections answer
alike from related states, and leave related states behind, a routine yields the same over both, and
again leaves related states behind.  That is shown here once for the routines that look something
up, prepare a call, make it and wait for its job.

Two kinds of relations matter.  A connection that notes down what passes goes alongside the one that
it is made from, so that watching a routine changes nothing about it.  And a connection that leaves
a reading of its state as it is goes alongside itself, so that what the single round trips leave
alone, the routines leave alone (`Parallel.keeps`).  For readings that are changed when certain
properties are read, the names of those that are read are kept track of.

`Service.Alongside` is the condition on two sessions, and there is a lemma for each routine under
it, up to `Service.Alongside.call`.  The operations on machines are taken along in
`CimBroker.Proofs.MachineOperations`.  Reading and writing whole records is left out, since that
begins with a look at all properties; rows of puts are in `CimBroker.Proofs.RecordWrites`.
-/
import CimBroker.Proofs.Frame
import CimBroker.Session.Invocation
import CimBroker.Session.Job

namespace CimBroker

variable {σ τ α β γ : Type} {R : σ → τ → Prop}

/-! ## Steps side by side -/

/-- From related states, the two steps yield the same and end in related states. -/
def Parallel (R : σ → τ → Prop) (step : σ → β × σ) (step' : τ → β × τ) : Prop :=
  ∀ s s', R s s' → (step s).1 = (step' s').1 ∧ R (step s).2 (step' s').2

namespace Parallel

theorem step_bind {step : StateM σ α} {step' : StateM τ α} {next : α → StateM σ β}
    {next' : α → StateM τ β} (h : Parallel R step.run step'.run)
    (hnext : ∀ x, Parallel R (next x).run (next' x).run) :
    Parallel R (step >>= next).run (step' >>= next').run := by
  intro s s' hs
  obtain ⟨hvalue, hafter⟩ := h s s' hs
  rw [StateT.run_bind, StateT.run_bind]
  show ((next (step.run s).1).run _).1 = ((next' (step'.run s').1).run _).1 ∧
    R ((next (step.run s).1).run _).2 ((next' (step'.run s').1).run _).2
  rw [hvalue]
  exact hnext _ _ _ hafter

theorem step_pure (x : α) :
    Parallel R (Pure.pure x : StateM σ α).run (Pure.pure x : StateM τ α).run :=
  fun _ _ hs => ⟨rfl, hs⟩

theorem pure (x : α) :
    Parallel R (Pure.pure x : Action σ α).run (Pure.pure x : Action τ α).run :=
  fun _ _ hs => ⟨rfl, hs⟩

theorem throw (e : Error) :
    Parallel R (MonadExcept.throw e : Action σ α).run (MonadExcept.throw e : Action τ α).run :=
  fun _ _ hs => ⟨rfl, hs⟩

/-- Two rows of actions go side by side if each pair of them does. -/
theorem bind {action : Action σ α} {action' : Action τ α} {next : α → Action σ β}
    {next' : α → Action τ β} (h : Parallel R action.run action'.run)
    (hnext : ∀ x, Parallel R (next x).run (next' x).run) :
    Parallel R (action >>= next).run (action' >>= next').run := by
  intro s s' hs
  have hh := h s s' hs
  rw [Action.run_bind, Action.run_bind]
  revert hh
  rcases action.run s with ⟨outcome, after⟩
  rcases action'.run s' with ⟨outcome', after'⟩
  rintro ⟨rfl, hafter⟩
  cases outcome with
  | error e => exact ⟨rfl, hafter⟩
  | ok x => exact hnext x after after' hafter

theorem ofExcept (outcome : Except Error α) :
    Parallel R (Action.ofExcept outcome : Action σ α).run
      (Action.ofExcept outcome : Action τ α).run := by
  cases outcome with
  | error e => exact throw e
  | ok x => exact pure x

theorem require (e : Error) (found : Option α) :
    Parallel R (Action.require e found : Action σ α).run
      (Action.require e found : Action τ α).run := by
  cases found with
  | none => exact throw e
  | some x => exact pure x

theorem mapError {action : Action σ α} {action' : Action τ α} (f : Error → Error)
    (h : Parallel R action.run action'.run) :
    Parallel R (action.mapError f).run (action'.mapError f).run := by
  intro s s' hs
  obtain ⟨houtcome, hafter⟩ := h s s' hs
  rw [Action.run_mapError, Action.run_mapError]
  exact ⟨congrArg (Except.mapError f) houtcome, hafter⟩

theorem outcome {action : Action σ α} {action' : Action τ α}
    (h : Parallel R action.run action'.run) : Parallel R action.outcome.run action'.outcome.run :=
  h

theorem attempt {action : Action σ α} {action' : Action τ α}
    (h : Parallel R action.run action'.run) :
    Parallel R action.attempt.run action'.attempt.run := by
  intro s s' hs
  obtain ⟨houtcome, hafter⟩ := h s s' hs
  exact ⟨congrArg Except.ok houtcome, hafter⟩

theorem lift {step : StateM σ α} {step' : StateM τ α} (h : Parallel R step.run step'.run) :
    Parallel R (ExceptT.lift step : Action σ α).run (ExceptT.lift step' : Action τ α).run := by
  intro s s' hs
  obtain ⟨hvalue, hafter⟩ := h s s' hs
  exact ⟨congrArg Except.ok hvalue, hafter⟩

end Parallel

/-! ### Beside oneself -/

/-- The states are the same, and read as `c`. -/
def ReadsAs (f : σ → γ) (c : γ) (s s' : σ) : Prop := s = s' ∧ f s = c

/-- An action that keeps a reading goes beside itself, whatever is read. -/
theorem Action.Keeps.parallel {f : σ → γ} {action : Action σ α} (h : action.Keeps f) (c : γ) :
    Parallel (ReadsAs f c) action.run action.run := by
  rintro s _ ⟨rfl, hs⟩
  exact ⟨rfl, rfl, (h s).trans hs⟩

/-- A step that goes beside itself, whatever is read, keeps the reading. -/
theorem Parallel.leaves {f : σ → γ} {step : σ → β × σ}
    (h : ∀ c, Parallel (ReadsAs f c) step step) (s : σ) : f (step s).2 = f s :=
  (h (f s) s s ⟨rfl, rfl⟩).2.2

theorem Parallel.keeps {f : σ → γ} {action : Action σ α}
    (h : ∀ c, Parallel (ReadsAs f c) action.run action.run) : action.Keeps f :=
  Parallel.leaves h

/-- What follows a step that keeps a reading starts from a state with the same reading. -/
theorem Parallel.andThen {f : σ → γ} {c : γ} {step : StateM σ α} {next : α → StateM σ β}
    {P : β → σ → Prop} (h : ∀ c, Parallel (ReadsAs f c) step.run step.run)
    (hnext : ∀ x s, f s = c → P ((next x).run s).1 ((next x).run s).2) {s : σ} (hs : f s = c) :
    P ((step >>= next).run s).1 ((step >>= next).run s).2 :=
  hnext _ _ ((Parallel.leaves h s).trans hs)

/-! ## Sessions side by side -/

/-- From related states, the two sessions answer each round trip alike, the call of a method apart,
and are in related states afterwards, as long as no properties are read but those of the given
names. -/
structure Service.Alongside (names : String → Prop) (R : σ → τ → Prop) (s : Service σ)
    (s' : Service τ) : Prop where
  get (h : Handle) {name : String} (hname : names name) :
    Parallel R (s.access.get h name).run (s'.access.get h name).run
  put (h : Handle) (name : String) (v : Variant) :
    Parallel R (s.access.put h name v).run (s'.access.put h name v).run
  spawn (h : Handle) : Parallel R (s.access.spawn h).run (s'.access.spawn h).run
  text (h : Handle) : Parallel R (s.access.text h).run (s'.access.text h).run
  signature (h : Handle) (method : String) :
    Parallel R (s.access.signature h method).run (s'.access.signature h method).run
  next (c : Cursor) : Parallel R (s.access.next c).run (s'.access.next c).run
  query (wql : String) : Parallel R (s.connection.query wql).run (s'.connection.query wql).run
  enumerate (className : String) :
    Parallel R (s.connection.enumerate className).run (s'.connection.enumerate className).run
  fetch (path : String) :
    Parallel R (s.connection.fetch path).run (s'.connection.fetch path).run
  config : s.config = s'.config
  pace : s.pace = s'.pace
  path : names pathProperty
  className : names classProperty

/-- The two sessions answer the calls of methods alike as well. -/
def Service.InvokesAlike (R : σ → τ → Prop) (s : Service σ) (s' : Service τ) : Prop :=
  ∀ path method inputs, Parallel R (s.connection.invoke path method inputs).run
    (s'.connection.invoke path method inputs).run

namespace Service.Alongside

variable {names : String → Prop} {s : Service σ} {s' : Service τ}

theorem getAs (k : s.Alongside names R s') (h : Handle) {name : String} (t : DataType)
    (hname : names name) :
    Parallel R (s.access.getAs h name t).run (s'.access.getAs h name t).run := by
  refine Parallel.bind (Parallel.bind (k.get h hname) fun _ => Parallel.pure _) fun v => ?_
  exact Parallel.ofExcept (t.decode v)

theorem requirePath (k : s.Alongside names R s') (h : Handle) :
    Parallel R (s.access.requirePath h).run (s'.access.requirePath h).run :=
  Parallel.bind (k.getAs h (.optional .text) k.path) fun path => Parallel.require _ path

theorem getObject (k : s.Alongside names R s') (path : String) :
    Parallel R (s.getObject path).run (s'.getObject path).run :=
  Parallel.bind (k.fetch path) fun found => Parallel.require _ found

theorem classOf (k : s.Alongside names R s') (h : Handle) :
    Parallel R (s.classOf h).run (s'.classOf h).run :=
  Parallel.bind (k.getAs h .text k.className) fun name => k.getObject name

theorem refetch (k : s.Alongside names R s') (h : Handle) :
    Parallel R (s.refetch h).run (s'.refetch h).run :=
  Parallel.bind (k.requirePath h) fun path => k.getObject path

theorem parameters (k : s.Alongside names R s') (h : Handle) (method : String) :
    Parallel R (s.access.parameters h method).run (s'.access.parameters h method).run := by
  refine Parallel.bind (k.signature h method) fun found => ?_
  rcases found with ⟨definition, outputs⟩
  cases definition with
  | none => exact Parallel.pure none
  | some definition => exact Parallel.bind (k.spawn definition) fun _ => Parallel.pure _

theorem nextResult (k : s.Alongside names R s') (r : Results) :
    Parallel R (r.next s.access).run (r.next s'.access).run := by
  unfold Results.next
  cases r.cursor? with
  | none => exact Parallel.pure _
  | some cursor =>
    refine Parallel.bind (k.next cursor) fun found => ?_
    cases found with
    | none => exact Parallel.pure _
    | some h => exact Parallel.pure _

theorem getSingleton (k : s.Alongside names R s') (className : String) :
    Parallel R (s.getSingleton className).run (s'.getSingleton className).run := by
  refine Parallel.bind (Parallel.bind (k.enumerate className) fun _ => Parallel.pure _)
    fun results => ?_
  exact Parallel.bind (k.nextResult results) fun found => Parallel.require _ found.1

theorem findRelated (k : s.Alongside names R s') (path className : String) :
    Parallel R (s.findRelated path className).run (s'.findRelated path className).run := by
  refine Parallel.bind (Parallel.bind (k.query _) fun _ => Parallel.pure _) fun results => ?_
  exact Parallel.bind (k.nextResult results) fun found => Parallel.require _ found.1

/-! ### Waiting -/

theorem conclude (k : s.Alongside names R s') (job : Handle) (hcode : names "ErrorCode")
    (htext : names "ErrorDescription") :
    Parallel R (JobWaiter.conclude s job).run (JobWaiter.conclude s' job).run := by
  refine Parallel.bind (k.getAs job .uint32 hcode) fun code => ?_
  split
  · exact Parallel.pure job
  · exact Parallel.bind (k.getAs job .text htext) fun description => Parallel.throw _

/-- Waiting reads three properties of a job besides its path. -/
theorem waitWithin (k : s.Alongside names R s') (w : JobWaiter) (hstate : names "JobState")
    (hcode : names "ErrorCode") (htext : names "ErrorDescription") (patience pauses : Nat)
    (job : Handle) :
    Parallel R (w.waitWithin s patience pauses job).run
      (w.waitWithin s' patience pauses job).run := by
  induction patience generalizing pauses job with
  | zero => exact Parallel.throw _
  | succ patience ih =>
    refine Parallel.bind (k.getAs job .uint16 hstate) fun state => ?_
    rw [← k.pace]
    split
    · exact k.conclude job hcode htext
    · cases w.expired? s.pace pauses with
      | some limit => exact Parallel.throw _
      | none => exact Parallel.bind (k.refetch job) fun next => ih (pauses + 1) next

theorem waitResult (k : s.Alongside names R s') (w : JobWaiter) (hstate : names "JobState")
    (hcode : names "ErrorCode") (htext : names "ErrorDescription") (method : String)
    (returnValue : Nat) (job : Option Handle) :
    Parallel R (w.waitResult s method returnValue job).run
      (w.waitResult s' method returnValue job).run := by
  unfold JobWaiter.waitResult
  split
  · exact Parallel.pure ()
  · split
    · refine Parallel.bind (Parallel.require _ job) fun h => ?_
      refine Parallel.bind ?_ fun _ => Parallel.pure ()
      unfold JobWaiter.wait
      rw [← k.pace]
      exact k.waitWithin w hstate hcode htext s.pace.patience 0 h
    · exact Parallel.throw _

/-! ### Calling -/

open Invocation

theorem preparation (k : s.Alongside names R s') (target : Handle) (method : String) :
    Parallel R (preparation s target method).run (preparation s' target method).run := by
  refine Parallel.bind (k.requirePath target) fun path => ?_
  refine Parallel.bind (k.classOf target) fun definition => ?_
  exact Parallel.bind (k.parameters definition method) fun _ => Parallel.pure _

theorem preparationAt (k : s.Alongside names R s') (classPath objectPath method : String) :
    Parallel R (preparationAt s classPath objectPath method).run
      (preparationAt s' classPath objectPath method).run := by
  refine Parallel.bind (k.getObject classPath) fun definition => ?_
  exact Parallel.bind (k.parameters definition method) fun _ => Parallel.pure _

/-- Staging an input reads the declaration of that input only. -/
theorem stage (k : s.Alongside names R s') (i : Invocation) {name : String} (x : Argument)
    (hname : names name) : Parallel R (i.stage s name x).run (i.stage s' name x).run := by
  unfold Invocation.stage
  refine Parallel.bind (Parallel.require _ i.inputs) fun inputs => ?_
  cases x with
  | value v => exact Parallel.bind (Parallel.pure v) fun v => k.put inputs name v
  | texts items => exact Parallel.bind (Parallel.pure _) fun v => k.put inputs name v
  | object h =>
    refine Parallel.bind (Parallel.bind (k.get inputs hname) fun _ => Parallel.pure _)
      fun declared => ?_
    split
    · refine Parallel.bind (k.requirePath h) fun path => ?_
      exact Parallel.bind (Parallel.pure _) fun v => k.put inputs name v
    · exact Parallel.bind (Parallel.pure _) fun v => k.put inputs name v

theorem read (k : s.Alongside names R s') (i : Invocation) {name : String} (t : DataType)
    (hname : names name) : Parallel R (i.read s name t).run (i.read s' name t).run := by
  unfold Invocation.read
  refine Parallel.bind (Parallel.ofExcept _) fun outputs => ?_
  refine Parallel.bind (k.get outputs hname) fun found => ?_
  rcases found with ⟨v, declared⟩
  dsimp only
  split
  · split
    · exact Parallel.bind (k.getObject _) fun h => Parallel.ofExcept _
    · exact Parallel.ofExcept _
  · exact Parallel.ofExcept _

theorem begin (k : s.Alongside names R s') (target : Handle) (method : String) :
    Parallel R (begin s target method).run (begin s' target method).run :=
  Parallel.step_bind (k.preparation target method).outcome fun _ => Parallel.step_pure _

theorem set (k : s.Alongside names R s') (i : Invocation) {name : String} (x : Argument)
    (hname : names name) : Parallel R (i.set s name x).run (i.set s' name x).run := by
  unfold Invocation.set
  split
  · exact Parallel.step_pure i
  · refine Parallel.step_bind (k.stage i x hname).outcome fun outcome => ?_
    cases outcome with
    | ok _ => exact Parallel.step_pure _
    | error e => exact Parallel.step_pure _

theorem setAll (k : s.Alongside names R s') (i : Invocation) (inputs : List (String × Argument))
    (hnames : ∀ input ∈ inputs, names input.1) :
    Parallel R (i.setAll s inputs).run (i.setAll s' inputs).run := by
  induction inputs generalizing i with
  | nil => exact Parallel.step_pure i
  | cons input inputs ih =>
    obtain ⟨hname, hrest⟩ := List.forall_mem_cons.mp hnames
    exact Parallel.step_bind (k.set i input.2 hname) fun i => ih i hrest

/-- Reading an output over what its destination holds. -/
theorem output (k : s.Alongside names R s') (i : Invocation) {name : String} (t : DataType)
    (destination : t.Value) (hname : names name) :
    Parallel R (i.get s name t destination).run (i.get s' name t destination).run := by
  unfold Invocation.get
  split
  · exact Parallel.step_pure _
  · refine Parallel.step_bind (k.read i t hname).outcome fun outcome => ?_
    cases outcome with
    | ok x => exact Parallel.step_pure _
    | error e => exact Parallel.step_pure _

theorem execute (hinvoke : s.InvokesAlike R s') (i : Invocation) :
    Parallel R (i.execute s).run (i.execute s').run := by
  unfold Invocation.execute
  split
  · exact Parallel.step_pure i
  · refine Parallel.step_bind (hinvoke i.path i.method i.inputs).outcome fun outcome => ?_
    cases outcome with
    | ok outputs => exact Parallel.step_pure _
    | error e => exact Parallel.step_pure _

/-- A call goes side by side if calling the method does. -/
theorem call (k : s.Alongside names R s') (hinvoke : s.InvokesAlike R s') (target : Handle)
    (method : String) (inputs : List (String × Argument)) (order : JobOutputs)
    (hnames : ∀ input ∈ inputs, names input.1) (hjob : names "Job") (hvalue : names "ReturnValue") :
    Parallel R (s.call target method inputs order).run
      (s'.call target method inputs order).run := by
  unfold Service.call
  refine Parallel.bind (Parallel.lift ?_) fun r =>
    Parallel.bind (Parallel.ofExcept r.1) fun _ => Parallel.pure _
  refine Parallel.step_bind (k.begin target method) fun i => ?_
  refine Parallel.step_bind (k.setAll i inputs hnames) fun i => ?_
  refine Parallel.step_bind (execute hinvoke i) fun i => ?_
  cases order with
  | jobFirst =>
    refine Parallel.step_bind (k.output i (.optional .handle) none hjob) fun r => ?_
    exact Parallel.step_bind (k.output r.1 .uint32 0 hvalue) fun _ => Parallel.step_pure _
  | returnValueFirst =>
    refine Parallel.step_bind (k.output i .uint32 0 hvalue) fun r => ?_
    exact Parallel.step_bind (k.output r.1 (.optional .handle) none hjob) fun _ =>
      Parallel.step_pure _

end Service.Alongside

end CimBroker
