/-
# CimBroker.Proofs.MethodCalls — which method is called, how often, and with what

A statement that a routine calls one method, or calls it with certain inputs, is a statement about
the journal that it adds.  `Event.OneCall` is the shape of a journal with no call in it or with one:
of which method it is, and what its parameters have to do with the events before it.  From the shape
follow how often the method is called (`Event.OneCall.countP_calls_le`), that no other is
(`Event.OneCall.not_calls`), and what holds wherever a call is seen (`Event.OneCall.calledWith`).

`Service.call_once` walks through `Service.call`.  Looking back from the call, each input was put on
the parameters that the call was made with, in a form in which its argument travels (`Supplied`,
`Argument.Travels`).  Every change of a pair goes through `VirtualMachine.exchange`, which calls its
method so (`VirtualMachine.exchange_once`): the item that travels is the text of an object which was
given the key and the value (`VirtualMachine.CarriesPair`).

Nothing is said of a call that is never reached, and nothing of what the other side makes of the
inputs.
-/
import CimBroker.Proofs.MachineOperations

namespace CimBroker

variable {σ α β : Type}

/-! ## Journals with one call -/

namespace Event

/-- Whether the event is a call of the method. -/
def calls (method : String) : Event → Bool
  | invoke _ called _ _ => called == method
  | _ => false

theorem not_calls_of_not_isInvoke {method : String} {e : Event} (h : e.isInvoke = false) :
    e.calls method = false := by
  cases e with
  | invoke => cases h
  | _ => rfl

/-- Wherever the events show a call, it is one of the method, and what is before it and the
parameters of the call satisfy `P`. -/
def CalledWith (method : String) (P : Option Handle → List Event → Prop) (events : List Event) :
    Prop :=
  ∀ seen path called parameters answer more,
    events = seen ++ .invoke path called parameters answer :: more → called = method ∧
      P parameters seen

/-- There is no call among the events; or there is one, it is one of the method, and what is before
it and its parameters satisfy `P`. -/
inductive OneCall (method : String) (P : Option Handle → List Event → Prop) : List Event → Prop
  | none {events : List Event} (h : ∀ e ∈ events, e.isInvoke = false) : OneCall method P events
  | call {before after : List Event} {path : String} {parameters : Option Handle}
      {answer : Except Error (Option Handle)} (hbefore : ∀ e ∈ before, e.isInvoke = false)
      (hP : P parameters before) (hafter : ∀ e ∈ after, e.isInvoke = false) :
      OneCall method P (before ++ .invoke path method parameters answer :: after)

namespace OneCall

variable {method other : String} {P Q : Option Handle → List Event → Prop}
  {first events rest : List Event}

/-- Events without a call may follow. -/
theorem append (h : OneCall method P events) (hrest : ∀ e ∈ rest, e.isInvoke = false) :
    OneCall method P (events ++ rest) := by
  cases h with
  | none hnone => exact .none (List.forall_mem_append.mpr ⟨hnone, hrest⟩)
  | call hbefore hP hafter =>
    rw [List.append_assoc, List.cons_append]
    exact .call hbefore hP (List.forall_mem_append.mpr ⟨hafter, hrest⟩)

/-- Events without a call may go before, and be taken into account. -/
theorem after (h : OneCall method P events) (hfirst : ∀ e ∈ first, e.isInvoke = false)
    (himp : ∀ parameters before, P parameters before → Q parameters (first ++ before)) :
    OneCall method Q (first ++ events) := by
  cases h with
  | none hnone => exact .none (List.forall_mem_append.mpr ⟨hfirst, hnone⟩)
  | call hbefore hP hafter =>
    rw [← List.append_assoc]
    exact .call (List.forall_mem_append.mpr ⟨hfirst, hbefore⟩) (himp _ _ hP) hafter

theorem calledWith (h : OneCall method P events) : CalledWith method P events := by
  intro seen path called parameters answer more hsplit
  cases h with
  | none hnone => cases hnone (.invoke path called parameters answer) (by simp [hsplit])
  | call hbefore hP hafter =>
    obtain ⟨rfl, hevent, -⟩ := split_unique isInvoke hsplit.symm rfl hbefore hafter
    cases hevent
    exact ⟨rfl, hP⟩

/-- Another method is not called. -/
theorem not_calls (h : OneCall method P events) (hne : other ≠ method) :
    ∀ e ∈ events, e.calls other = false := by
  cases h with
  | none hnone => exact fun e he => not_calls_of_not_isInvoke (hnone e he)
  | call hbefore _ hafter =>
    refine List.forall_mem_append.mpr ⟨fun e he => not_calls_of_not_isInvoke (hbefore e he),
      List.forall_mem_cons.mpr ⟨?_, fun e he => not_calls_of_not_isInvoke (hafter e he)⟩⟩
    exact beq_eq_false_iff_ne.mpr hne.symm

theorem countP_other (h : OneCall method P events) (hne : other ≠ method) :
    events.countP (calls other) = 0 :=
  List.countP_eq_zero.mpr fun e he => by simp [h.not_calls hne e he]

theorem countP_calls_le (h : OneCall method P events) : events.countP (calls method) ≤ 1 := by
  have hzero {quiet : List Event} (hquiet : ∀ e ∈ quiet, e.isInvoke = false) :
      quiet.countP (calls method) = 0 :=
    List.countP_eq_zero.mpr fun e he => by simp [not_calls_of_not_isInvoke (hquiet e he)]
  cases h with
  | none hnone => exact Nat.le_trans (Nat.le_of_eq (hzero hnone)) (Nat.zero_le 1)
  | call hbefore _ hafter =>
    rw [List.countP_append, List.countP_cons, hzero hbefore, hzero hafter]
    split <;> decide

/-- Of two journals in a row, with calls of different methods, neither method is called more than
once. -/
theorem countP_append_le (h : OneCall method P events) (h' : OneCall other Q rest)
    (hne : method ≠ other) :
    (events ++ rest).countP (calls method) ≤ 1 ∧ (events ++ rest).countP (calls other) ≤ 1 := by
  rw [List.countP_append, List.countP_append, h'.countP_other hne, h.countP_other hne.symm,
    Nat.zero_add]
  exact ⟨h.countP_calls_le, h'.countP_calls_le⟩

end OneCall

end Event

/-! ## Steps without a call -/

/-- All round trips but the calls of methods add no call. -/
theorem Service.uncalled_alongside (s : Service σ) (journal : List Event) :
    s.journaled.Alongside (fun _ => True) (AddedOnly (fun e => e.isInvoke = false) journal)
      s.journaled :=
  s.addsOnly_alongside (fun _ hinvoke _ => hinvoke) trivial trivial journal

/-- A step that goes beside itself without any call adds no call. -/
theorem Yields.of_parallel {step : σ × List Event → Except Error α × (σ × List Event)}
    (h : ∀ journal, Parallel (AddedOnly (fun e => e.isInvoke = false) journal) step step) :
    Yields (fun _ events => ∀ e ∈ events, e.isInvoke = false) step :=
  (AddsOnly.of_parallel h).mono fun _ _ hnone _ _ => hnone

namespace Invocation

variable (s : Service σ)

/-- Reading an output calls nothing. -/
theorem get_uncalled (i : Invocation) {name : String} (t : DataType) (destination : t.Value) :
    AddsOnly (fun e => e.isInvoke = false) (i.get s.journaled name t destination).run :=
  AddsOnly.of_parallel fun journal => (s.uncalled_alongside journal).output i t destination trivial

/-- An execution calls nothing; or the invocation had no failure and calls its method with its
parameters, and outputs that come back can be read. -/
theorem execute_shown (i : Invocation) :
    Tells (fun i' events => events = [] ∨ i.failure = none ∧ ∃ answer,
      events = [.invoke i.path i.method i.inputs answer] ∧
        ∀ outputs, answer = .ok (some outputs) →
          i'.failure = none ∧ ∀ name, i'.readable name = .ok outputs)
      (i.execute s.journaled).run := by
  intro b journal
  by_cases hopen : i.failure = none ∧ i.executed = false ∧ i.ended = false
  · obtain ⟨hf, hx, he⟩ := hopen
    rw [execute_open s.journaled (b, journal) hf hx he]
    refine ⟨_, _, _, rfl, .inr ⟨hf, _, rfl, fun outputs hanswer => ?_⟩⟩
    have hinvoke : ((s.journaled.connection.invoke i.path i.method i.inputs).run (b, journal)).1 =
        .ok (some outputs) := hanswer
    rw [hinvoke]
    exact ⟨hf, fun name => by simp [readable, he]⟩
  · refine ⟨i, b, [], ?_, .inl rfl⟩
    rw [List.append_nil]
    refine execute_closed s.journaled (b, journal) ?_
    cases hf : i.failure with
    | some e => exact .inl rfl
    | none =>
      refine .inr (Decidable.or_iff_not_imp_left.mpr ?_)
      simpa [hf] using hopen

end Invocation

/-! ## What a call is made with -/

/-- The forms in which an argument can travel: a value and texts in one, an object as itself or, for
a reference, as a path. -/
inductive Argument.Travels : Argument → Variant → Prop
  | value (v : Variant) : Travels (.value v) v
  | texts (items : List String) : Travels (.texts items) (.ofTexts items)
  | reference (h : Handle) (path : String) : Travels (.object h) (.text path)
  | object (h : Handle) : Travels (.object h) (.object h)

/-- Each of the inputs was put on the parameters, under its name and in a form in which it
travels. -/
def Supplied (inputs : List (String × Argument)) (parameters : Option Handle)
    (events : List Event) : Prop :=
  ∀ input ∈ inputs, ∃ h v, parameters = some h ∧ input.2.Travels v ∧
    .put h input.1 v (.ok ()) ∈ events

theorem Supplied.mono {inputs : List (String × Argument)} {parameters : Option Handle}
    {events events' : List Event} (h : Supplied inputs parameters events)
    (hevents : ∀ e ∈ events, e ∈ events') : Supplied inputs parameters events' := by
  intro input hinput
  obtain ⟨h, v, hparameters, htravels, hput⟩ := h input hinput
  exact ⟨h, v, hparameters, htravels, hevents _ hput⟩

namespace Invocation

variable (s : Service σ)

/-- An input that was staged has been put on the parameters. -/
theorem stage_supplied (i : Invocation) (name : String) (x : Argument) :
    Yields (fun _ events => Supplied [(name, x)] i.inputs events)
      (i.stage s.journaled name x).run := by
  have k := s.uncalled_alongside
  unfold stage
  cases i.inputs with
  | none => exact Yields.throw_bind
  | some h =>
    -- whatever was asked before, what is put in the end is a form of the argument
    have hput (first : List Event) (v : Variant) (hv : x.Travels v) :
        Yields (fun _ rest => Supplied [(name, x)] (some h) (first ++ rest))
          (s.journaled.access.put h name v).run := by
      refine Yields.witnessed fun _ => List.forall_mem_singleton.mpr ⟨h, v, rfl, hv, ?_⟩
      exact List.mem_append_right first (List.mem_singleton_self _)
    simp only [Action.require, pure_bind]
    cases x with
    | value v => exact hput [] v (.value v)
    | texts items => exact hput [] _ (.texts items)
    | object o =>
      refine Yields.bind (Yields.of_parallel fun journal => Parallel.bind
        ((k journal).get h trivial) fun _ => Parallel.pure _) fun declared first _ => ?_
      split
      · refine Yields.bind (Yields.of_parallel fun journal => (k journal).requirePath o)
          fun path asked _ => ?_
        simpa only [List.append_assoc] using hput (first ++ asked) _ (.reference o path)
      · exact hput first _ (.object o)

/-- Inputs that were set one after another, with no failure in the end, have been put on the
parameters. -/
theorem setAll_supplied {method : String} {i : Invocation} (h : Fresh method i)
    (inputs : List (String × Argument)) (hnames : ∀ input ∈ inputs, input.1 ≠ "ErrorCode") :
    Tells (fun i' events => i'.failure = none →
        i.failure = none ∧ i' = i ∧ Supplied inputs i.inputs events)
      (i.setAll s.journaled inputs).run := by
  induction inputs generalizing i with
  | nil => exact Tells.of_eq (fun _ => rfl) fun hf => ⟨hf, rfl, List.forall_mem_nil _⟩
  | cons input inputs ih =>
    obtain ⟨name, x⟩ := input
    obtain ⟨hname, hrest⟩ := List.forall_mem_cons.mp hnames
    have hset : Tells (fun i' events => i'.failure = none →
        i.failure = none ∧ i' = i ∧ Supplied [(name, x)] i.inputs events)
        (i.set s.journaled name x).run := by
      intro b journal
      cases hf : i.failure with
      | some e =>
        refine ⟨i, b, [], ?_, fun hnone => ?_⟩
        · rw [set_closed s.journaled (b, journal) name x (.inl (by rw [hf]; rfl)), List.append_nil]
        · rw [hf] at hnone
          cases hnone
      | none =>
        obtain ⟨outcome, after, events, hrun, hsupplied⟩ := stage_supplied s i name x b journal
        rw [set_open s.journaled (b, journal) name x hf h.ended, hrun]
        refine ⟨_, _, _, rfl, fun hnone => ?_⟩
        cases outcome with
        | ok _ => exact ⟨rfl, rfl, hsupplied () rfl⟩
        | error e =>
          rw [show (i.noting (.error e : Except Error Unit)).failure = some e from
            failure_fail hf] at hnone
          cases hnone
    refine Tells.step_bind ((set_told s h x hname).and hset) fun i' first hfirst => ?_
    refine (ih hfirst.1.1 hrest).mono fun i'' rest hafter hnone => ?_
    obtain ⟨hf', rfl, hsupplied⟩ := hafter hnone
    obtain ⟨hf, rfl, hsuppliedFirst⟩ := hfirst.2 hf'
    refine ⟨hf, rfl, List.forall_mem_cons.mpr ⟨?_, ?_⟩⟩
    · exact hsuppliedFirst.mono (fun e he => List.mem_append_left rest he) _
        (List.mem_singleton_self _)
    · exact hsupplied.mono fun e he => List.mem_append_right first he

end Invocation

open Invocation in
/-- **A call is made at most once, and with its inputs**: wherever `Service.call` gets as far as the
call, they have been put on the parameters of the call. -/
theorem Service.call_once (s : Service σ) (target : Handle) (method : String)
    (inputs : List (String × Argument)) (order : JobOutputs)
    (hnames : ∀ input ∈ inputs, input.1 ≠ "ErrorCode") :
    Tells (fun _ events => Event.OneCall method (Supplied inputs) events)
      (s.journaled.call target method inputs order).run := by
  unfold Service.call
  refine Tells.bind (R := fun _ events => Event.OneCall method (Supplied inputs) events)
    (Tells.lift ?_) (fun r first hfirst => ?_) fun _ _ h => h
  · refine Tells.step_bind (begin_told s target method) fun i begun hbegun => ?_
    refine Tells.step_bind ((setAll_told s hbegun.1 inputs hnames).and
      (setAll_supplied s hbegun.1 inputs hnames)) fun i₁ staged hstaged => ?_
    refine Tells.step_bind (execute_shown s i₁) fun i₂ executed hexecuted => ?_
    have hbegunQuiet : ∀ e ∈ begun, e.isInvoke = false := fun e he => (hbegun.2 e he).calls
    have hstagedQuiet : ∀ e ∈ staged, e.isInvoke = false := fun e he => (hstaged.1.2 e he).calls
    have hexecution : Event.OneCall method (Supplied inputs) (staged ++ executed) := by
      rcases hexecuted with rfl | ⟨hf, answer, rfl, -⟩
      · rw [List.append_nil]
        exact .none hstagedQuiet
      · obtain ⟨-, rfl, hsupplied⟩ := hstaged.2 hf
        rw [hstaged.1.1.method]
        exact .call hstagedQuiet hsupplied (List.forall_mem_nil _)
    -- reading the outputs, in either order, calls nothing
    refine Tells.mono (R := fun _ rest => ∀ e ∈ rest, e.isInvoke = false)
      (AddsOnly.of_parallel fun journal => ?_) fun _ rest hrest => ?_
    · have k := s.uncalled_alongside journal
      cases order with
      | jobFirst =>
        refine Parallel.step_bind (k.output i₂ (.optional .handle) none trivial) fun r => ?_
        exact Parallel.step_bind (k.output r.1 .uint32 0 trivial) fun _ => Parallel.step_pure _
      | returnValueFirst =>
        refine Parallel.step_bind (k.output i₂ .uint32 0 trivial) fun r => ?_
        exact Parallel.step_bind (k.output r.1 (.optional .handle) none trivial) fun _ =>
          Parallel.step_pure _
    · rw [← List.append_assoc staged]
      exact (hexecution.append hrest).after hbegunQuiet fun _ before h =>
        h.mono fun _ => List.mem_append_right begun
  · refine Tells.mono (R := fun _ rest => ∀ e ∈ rest, e.isInvoke = false)
      (AddsOnly.of_parallel fun journal => ?_) fun _ rest hrest => hfirst.append hrest
    exact Parallel.bind (Parallel.ofExcept r.1) fun _ => Parallel.pure _

namespace VirtualMachine

variable (s : Service σ) (vm : VirtualMachine)

/-- The text is that of an object which was given a key and a value. -/
def HoldsPair (key value : String) (events : List Event) (text : String) : Prop :=
  ∃ item b, ((s.access.text item).run b).1 = .ok text ∧
    .put item "Name" (.text key) (.ok ()) ∈ events ∧
    .put item "Data" (.text value) (.ok ()) ∈ events

/-- The item of a pair holds its key and its value. -/
theorem itemText_told (key value : String) :
    Yields (fun text events => HoldsPair s key value events text)
      (itemText s.journaled key value).run := by
  have k := s.uncalled_alongside
  have hput (item : Handle) (name : String) (t : DataType) (x : t.Value) :
      Yields (fun _ events => .put item name (t.encode x) (.ok ()) ∈ events)
        (s.journaled.access.putAs item name t x).run :=
    Yields.witnessed fun _ => List.mem_singleton_self _
  unfold itemText
  refine Yields.bind (Yields.of_parallel fun journal => Parallel.bind ((k journal).getObject _)
    fun _ => (k journal).spawn _) fun item first _ => ?_
  refine Yields.bind (hput item "Name" .text key) fun _ named hnamed => ?_
  refine Yields.bind (hput item "Data" .text value) fun _ given hgiven => ?_
  refine Yields.bind (hput item "Source" .uint16 0) fun _ sourced _ => ?_
  intro b journal
  refine ⟨_, _, [], by rw [List.append_nil]; rfl, fun text htext => ⟨item, b, htext, ?_, ?_⟩⟩
  · have hname : .put item "Name" (.text key) (.ok ()) ∈ named := hnamed
    simp [hname]
  · have hdata : .put item "Data" (.text value) (.ok ()) ∈ given := hgiven
    simp [hdata]

/-- The parameters carry a pair: the path of the machine was put on them, and the text of an object
that holds the pair. -/
def CarriesPair (key value : String) (parameters : Option Handle) (events : List Event) : Prop :=
  ∃ h text, parameters = some h ∧ HoldsPair s key value events text ∧
    .put h "TargetSystem" (.text vm.path) (.ok ()) ∈ events ∧
    .put h "DataItems" (.ofTexts [text]) (.ok ()) ∈ events

/-- **A method that is called on the item of a pair is called at most once, and with that pair**
(`OneCall`, `CarriesPair`). -/
theorem exchange_once (method key value hint : String) :
    Tells (fun _ events => Event.OneCall method (vm.CarriesPair s key value) events)
      (exchange s.journaled vm method key value hint).run := by
  have k := s.uncalled_alongside
  refine Tells.bind (R := fun _ events => ∀ e ∈ events, e.isInvoke = false)
    (AddsOnly.of_parallel fun journal => (k journal).getSingleton managementServiceClass)
    (fun target first hfirst => ?_) fun _ _ hnone => .none hnone
  refine Tells.bind ((AddsOnly.of_parallel fun journal => parallel_itemText (k journal) key
    value).and (itemText_told s key value)) (fun text given hgiven => ?_) fun _ given hgiven =>
      .none (List.forall_mem_append.mpr ⟨hfirst, hgiven.1⟩)
  obtain ⟨hgiven, hholds⟩ := hgiven
  obtain ⟨item, b, htext, hname, hdata⟩ := hholds text rfl
  -- what was put on the item and on the parameters is there once the whole front is looked at
  have hcarried (events : List Event) (h : Event.OneCall method (Supplied
      [("TargetSystem", .of .text vm.path), ("DataItems", .texts [text])]) events) :
      Event.OneCall method (vm.CarriesPair s key value) (first ++ (given ++ events)) := by
    rw [← List.append_assoc]
    refine h.after (List.forall_mem_append.mpr ⟨hfirst, hgiven⟩)
      fun parameters before hsupplied => ?_
    obtain ⟨h, v, rfl, htarget, hputTarget⟩ := hsupplied _ List.mem_cons_self
    obtain ⟨h', v', hsame, hitems, hputItems⟩ :=
      hsupplied _ (List.mem_cons_of_mem _ List.mem_cons_self)
    cases htarget
    cases hitems
    cases hsame
    refine ⟨h, text, rfl, ⟨item, b, htext, ?_, ?_⟩, List.mem_append_right _ hputTarget,
      List.mem_append_right _ hputItems⟩
    · exact List.mem_append_left _ (List.mem_append_right _ hname)
    · exact List.mem_append_left _ (List.mem_append_right _ hdata)
  refine Tells.bind (s.call_once target method _ .returnValueFirst (by simp))
    (fun r called hcalled => ?_) fun _ called hcalled => hcarried called hcalled
  refine Tells.mono (R := fun _ rest => ∀ e ∈ rest, e.isInvoke = false)
    (AddsOnly.of_parallel fun journal => Parallel.mapError _ (parallel_wait (k journal) method r.1
      r.2)) fun _ rest hrest => ?_
  have happended := (hcarried called hcalled).append hrest
  simpa only [List.append_assoc] using happended

end VirtualMachine

end CimBroker
