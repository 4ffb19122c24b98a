/-
# CimBroker.Proofs.BrokerRuns — everything that can be asked of a broker

A run of a broker is any row of requests, made by whoever has it in hand: its owner, a session, or
the routine of a method while the method is being called.  A class is defined at most once.  The
states that runs lead to are `Reach`, and `typed_iff_changes_admitted` says when all of them are
typed: exactly when no change is queued that the object's class does not admit.  Every other way
into the store checks what it is given; queueing does not, and the next fetches let everyone see it.

The invariant is `Broker.Sound` of `CimBroker.Proofs.TypedStore`.  A request keeps it
(`Sound.after`), a method call does (`invoke_sound`), and so does a run (`Reach.sound`).  In the
other direction `Reach.fetches` has a queued change come out, and `queued_change_spoils` is a run in
which that does harm.  Left out are runs that define a class anew: objects that are stored then
belong to a definition that they were not checked against.
-/
import CimBroker.Proofs.TypedStore

namespace CimBroker.Broker

open CimBroker.Action

/-! ## Requests -/

/-- What can be asked of a broker, apart from calling a method. -/
inductive Request where
  | defineClass (c : ClassDef)
  | insert (className : String) (values : List (String × Variant))
  | insertJob (states : List (BitVec 16)) (code : BitVec 16) (description : String)
  | schedule (path name : String) (v : Variant)
  | setProperty (path name : String) (v : Variant)
  | remove (path : String)
  | associate (first second : String)
  | requireCredentials (c : Credentials)
  | clearCalls
  | object (path : String)
  | classObject (name : String)
  | logIn (namespaceName : String) (credentials : Option Credentials)
  | query (wql : String)
  | enumerate (className : String)
  | fetch (path : String)
  | next (cursor : Cursor)
  | get (h : Handle) (name : String)
  | put (h : Handle) (name : String) (v : Variant)
  | properties (h : Handle)
  | spawn (h : Handle)
  | clone (h : Handle)
  | signature (h : Handle) (method : String)
  | text (h : Handle)

namespace Request

/-- The broker after a request, whether the request succeeded or not. -/
def after (b : Broker) : Request → Broker
  | defineClass c => ((Broker.defineClass c).run b).2
  | insert className values => ((Broker.insert className values).run b).2
  | insertJob states code description => ((Broker.insertJob states code description).run b).2
  | schedule path name v => ((Broker.schedule path name v).run b).2
  | setProperty path name v => ((Broker.setProperty path name v).run b).2
  | remove path => ((Broker.remove path).run b).2
  | associate first second => ((Broker.associate first second).run b).2
  | requireCredentials c => ((Broker.requireCredentials c).run b).2
  | clearCalls => (Broker.clearCalls.run b).2
  | object path => ((Broker.object path).run b).2
  | classObject name => ((Broker.classObject name).run b).2
  | logIn namespaceName credentials => ((Broker.logIn namespaceName credentials).run b).2
  | query wql => ((runQuery wql).run b).2
  | enumerate className => ((runEnumeration className).run b).2
  | fetch path => ((Broker.fetch path).run b).2
  | next cursor => ((Broker.next cursor).run b).2
  | get h name => ((Broker.get h name).run b).2
  | put h name v => ((Broker.put h name v).run b).2
  | properties h => ((Broker.properties h).run b).2
  | spawn h => ((Broker.spawn h).run b).2
  | clone h => ((Broker.clone h).run b).2
  | signature h method => ((Broker.signature h method).run b).2
  | text h => ((objectText h).run b).2

/-- A class is defined under a name that is free, and changes are queued where they are permitted;
everything else may be asked at any time. -/
def Allowed (permitted : Broker → String → String → Variant → Prop) (b : Broker) : Request → Prop
  | defineClass c => b.classes.get? c.name = none
  | schedule path name v => permitted b path name v
  | _ => True

end Request

/-! ## Requests keep the invariant -/

theorem keepsSound_answer (q : Wql.Query) : KeepsSound (answer q) := by
  refine Meets.bind (Meets.state (P := Sound)) fun b => ?_
  cases q with
  | select className filters => exact Meets.ofExcept (fun _ _ _ h => h.2) fun _ h => h.2
  | associators path resultClass => exact Meets.pure fun _ h => h.2
  | references path resultClass =>
    refine Meets.bind (classNamed_meets (fun _ h => h.2) resultClass) fun c => ?_
    exact Meets.pure fun _ h => h.1.2

theorem keepsSound_openCursor (results : List Handle) : KeepsSound (openCursor results) :=
  Meets.ofRun fun _ h => h.congr rfl rfl rfl

theorem keepsSound_next (c : Cursor) : KeepsSound (next c) := by
  refine Meets.of_after fun b h => ?_
  unfold next
  rw [run_ofRun]
  split
  · exact h
  · exact h.congr rfl rfl rfl

theorem keepsSound_runQuery (wql : String) : KeepsSound (runQuery wql) := by
  refine Meets.bind (keepsSound_note _) fun _ => ?_
  refine Meets.bind (Meets.ofExcept (Q := fun _ => Sound) (fun _ _ _ h => h) fun _ h => h)
    fun q => ?_
  refine Meets.bind (keepsSound_answer q) fun paths => ?_
  exact Meets.bind (keepsSound_fetchAll paths) fun results => keepsSound_openCursor results

theorem keepsSound_runEnumeration (className : String) : KeepsSound (runEnumeration className) := by
  refine Meets.bind (keepsSound_note _) fun _ => ?_
  refine Meets.bind (classNamed_meets (fun _ h => h) className) fun c => ?_
  refine Meets.bind (Meets.state (P := fun b : Broker =>
    b.Sound ∧ b.classes.get? className = some c)) fun b => ?_
  refine Meets.bind ((keepsSound_fetchAll _).mono (fun _ h => h.2.1) fun _ _ h => h)
    fun results => ?_
  exact keepsSound_openCursor results

theorem keepsSound_fetch (path : String) : KeepsSound (fetch path) :=
  Meets.bind (keepsSound_note _) fun _ => keepsSound_snapshot path

theorem keepsSound_object (path : String) : KeepsSound (object path) := by
  refine Meets.bind (keepsSound_snapshot path) fun found => ?_
  exact Meets.require (fun _ _ _ h => h) fun _ h => h

theorem keepsSound_classObject (name : String) : KeepsSound (classObject name) := by
  refine Meets.bind (classNamed_meets (fun _ h => h) name) fun c => ?_
  exact bring_sound _ fun _ h => ⟨h.1, ClassDef.Types.empty⟩

theorem keepsSound_logIn (namespaceName : String) (credentials : Option Credentials) :
    KeepsSound (logIn namespaceName credentials) := by
  refine Meets.bind (keepsSound_note _) fun _ => ?_
  refine Meets.bind (Meets.state (P := Sound)) fun b => ?_
  split
  · split
    · exact Meets.pure fun _ h => h.2
    · exact Meets.throw fun _ h => h.2
  · exact Meets.pure fun _ h => h.2

/-- **One request keeps `Sound`**, if it queues nothing but what may be queued. -/
theorem Sound.after {permitted : Broker → String → String → Variant → Prop} {b : Broker}
    (h : b.Sound) {r : Request} (hr : r.Allowed permitted b)
    (hmay : ∀ path name v, permitted b path name v → b.MayChange path name v) :
    (r.after b).Sound := by
  cases r with
  | defineClass c => exact (defineClass_sound c).after ⟨h, hr⟩
  | schedule path name v =>
    have hadmitted : Meets (fun b => b.Sound ∧ ∀ name' v', (name' = name ∧ v' = v) →
        b.MayChange path name' v') (schedule path name v) (fun _ => Sound) Sound :=
      (schedule_sound path ⟨rfl, rfl⟩).mono (fun _ h => h) fun _ _ h => h.1
    refine hadmitted.after ⟨h, ?_⟩
    rintro _ _ ⟨rfl, rfl⟩
    exact hmay path _ _ hr
  | insert className values =>
    exact ((insert_sound className values).mono (fun _ h => h) fun _ _ h => h.1).after h
  | insertJob states code description =>
    exact (keepsSound_insertJob states code description).after h
  | setProperty path name v => exact (keepsSound_setProperty path name v).after h
  | remove path => exact (keepsSound_remove path).after h
  | associate first second => exact h.congr rfl rfl rfl
  | requireCredentials c => exact h.congr rfl rfl rfl
  | clearCalls => exact h.congr rfl rfl rfl
  | object path => exact (keepsSound_object path).after h
  | classObject name => exact (keepsSound_classObject name).after h
  | logIn namespaceName credentials => exact (keepsSound_logIn namespaceName credentials).after h
  | query wql => exact (keepsSound_runQuery wql).after h
  | enumerate className => exact (keepsSound_runEnumeration className).after h
  | fetch path => exact (keepsSound_fetch path).after h
  | next cursor => exact (keepsSound_next cursor).after h
  | get handle name => exact (keepsSound_get handle name).after h
  | put handle name v => exact (keepsSound_put handle name v).after h
  | properties handle => exact (keepsSound_properties handle).after h
  | spawn handle => exact (keepsSound_spawn handle).after h
  | clone handle => exact (keepsSound_clone handle).after h
  | signature handle method => exact (keepsSound_signature handle method).after h
  | text handle => exact (keepsSound_objectText handle).after h

/-! ## Runs -/

/-- The broker once a call is written down, which is all that happens before its routine starts. -/
def begun (path method : String) (b : Broker) : Broker := ((note (.invoke path method)).run b).2

/-- A run leads from one state to another.  A method call is a run when its routine, which may be
any that has the broker and a state of its own in hand, does nothing but run. -/
inductive Reach (permitted : Broker → String → String → Variant → Prop) : Broker → Broker → Prop
  | nothing (b : Broker) : Reach permitted b b
  | request {b b' : Broker} (h : Reach permitted b b') {r : Request} (hr : r.Allowed permitted b') :
      Reach permitted b (r.after b')
  /-- A call has begun, and its routine is to run. -/
  | begun {b b' : Broker} (h : Reach permitted b b') (path method : String) :
      Reach permitted b (begun path method b')
  | invoke {ω : Type} {b b' : Broker} (h : Reach permitted b b') (routines : Routines ω) (own : ω)
      (path method : String) (inputs : Option Handle)
      (hroutine : ∀ routine call, Reach permitted (Broker.begun path method b')
        ((routines routine call).run (Broker.begun path method b', own)).2.1) :
      Reach permitted b ((Broker.invoke routines path method inputs).run (b', own)).2.1

variable {permitted : Broker → String → String → Variant → Prop}

theorem Reach.trans {b b' b'' : Broker} (h : Reach permitted b b') (h' : Reach permitted b' b'') :
    Reach permitted b b'' := by
  induction h' with
  | nothing => exact h
  | request _ hr ih => exact .request (ih h) hr
  | begun _ path method ih => exact .begun (ih h) path method
  | invoke _ routines own path method inputs hroutine ih =>
    exact .invoke (ih h) routines own path method inputs hroutine

/-! ## Method calls keep the invariant -/

/-- Looking something up changes nothing. -/
theorem keeps_lookup {α : Type} (e : Error) (find : Broker → Option α) :
    (do Action.require e (find (← Action.state)) : Action Broker α).Keeps fun b : Broker => b :=
  Keeps.bind Keeps.state fun b => Keeps.require e (find b)

theorem keeps_methodAt (path method : String) :
    (methodAt path method).Keeps fun b : Broker => b := by
  have hname : (classNameAt path).Keeps fun b : Broker => b := by
    refine Keeps.bind Keeps.state fun b => ?_
    split
    · exact Keeps.pure _
    · exact Keeps.bind (keeps_lookup _ fun b => b.objects.get? path) fun o => Keeps.pure _
  refine Keeps.bind hname fun className => ?_
  refine Keeps.bind (keeps_lookup _ fun b => b.classes.get? className) fun c => ?_
  refine Keeps.bind (Keeps.require _ _) fun m => ?_
  exact Keeps.bind (Keeps.require _ _) fun routine => Keeps.pure _

theorem keeps_inputBag (inputs : Option Handle) :
    (inputBag inputs).Keeps fun b : Broker => b := by
  cases inputs with
  | none => exact Keeps.pure _
  | some h => exact Keeps.bind (keeps_lookup _ fun b => b.live[h.id]?) fun o => Keeps.pure _

/-- The part of a call before its routine starts. -/
def opening (path method : String) (inputs : Option Handle) :
    Action Broker (MethodDef × Routine × MethodCall) := do
  note (.invoke path method)
  let (m, routine) ← methodAt path method
  return (m, routine, (⟨path, method, ← inputBag inputs⟩ : MethodCall))

/-- A call is its opening, its routine, and the outputs. -/
theorem invoke_eq {ω : Type} (routines : Routines ω) (path method : String)
    (inputs : Option Handle) : invoke routines path method inputs = (do
      let found ← onFirst (opening path method inputs)
      let results ← routines found.2.1 found.2.2
      onFirst (bringOutputs found.1 results)) := rfl

/-- Before its routine starts a call is written down, and everything else is only looked at. -/
theorem opening_after (path method : String) (inputs : Option Handle) (b : Broker) :
    ((opening path method inputs).run b).2 = begun path method b := by
  have hlook : (do
      let (m, routine) ← methodAt path method
      return (m, routine, (⟨path, method, ← inputBag inputs⟩ : MethodCall)) :
      Action Broker (MethodDef × Routine × MethodCall)).Keeps fun b : Broker => b := by
    refine Keeps.bind (keeps_methodAt path method) fun found => ?_
    exact Keeps.bind (keeps_inputBag inputs) fun _ => Keeps.pure _
  exact hlook (begun path method b)

/-- A call leads from one sound broker to another, if its routine does. -/
theorem invoke_sound {ω : Type} (routines : Routines ω) (own : ω) (path method : String)
    (inputs : Option Handle) {b : Broker} (h : (begun path method b).Sound)
    (hroutine : ∀ routine call,
      ((routines routine call).run (begun path method b, own)).2.1.Sound) :
    ((invoke routines path method inputs).run (b, own)).2.1.Sound := by
  rw [invoke_eq, run_bind, run_onFirst, opening_after]
  cases ((opening path method inputs).run b).1 with
  | error e => exact h
  | ok found =>
    have hran := hroutine found.2.1 found.2.2
    show (Action.run (do
      let results ← routines found.2.1 found.2.2
      onFirst (bringOutputs found.1 results)) (begun path method b, own)).2.1.Sound
    rw [run_bind]
    rcases hrun : (routines found.2.1 found.2.2).run (begun path method b, own) with ⟨outcome, st⟩
    rw [hrun] at hran
    cases outcome with
    | error e => exact hran
    | ok results => exact (keepsSound_bringOutputs found.1 results).after hran

/-- **Runs keep `Sound`**, if nothing is queued on the way that may not be (`MayChange`). -/
theorem Reach.sound {b b' : Broker} (h : Reach permitted b b') (hb : b.Sound)
    (hmay : ∀ b', Reach permitted b b' → ∀ path name v, permitted b' path name v →
      b'.MayChange path name v) : b'.Sound := by
  induction h with
  | nothing => exact hb
  | request h hr ih => exact (ih hb hmay).after hr (hmay _ h)
  | begun _ path method ih => exact (ih hb hmay).congr rfl rfl rfl
  | @invoke ω b b' h routines own path method inputs hroutine ih ihRoutine =>
    have hbegun : (Broker.begun path method b').Sound := (ih hb hmay).congr rfl rfl rfl
    refine invoke_sound routines own path method inputs hbegun fun routine call => ?_
    refine ihRoutine routine call hbegun fun b'' hb'' => ?_
    -- what the routine comes by is reached by the run as a whole
    exact hmay b'' ((h.begun path method).trans hb'')

/-! ## Queued changes come out -/

/-- Fetching an object applies its oldest change and leaves the classes as they are. -/
theorem fetch_after {b : Broker} {path : String} {o : StoredObject}
    (hpath : b.classes.get? path = none) (ho : b.objects.get? path = some o) :
    (Request.after b (.fetch path)).classes = b.classes ∧
      (Request.after b (.fetch path)).objects.get? path = some (StoredObject.advance o) := by
  show ((fetch path).run b).2.classes = b.classes ∧ ((fetch path).run b).2.objects.get? path = _
  unfold fetch snapshot note classNamed bringInstance bring
  cases hc : b.classes.get? o.className with
  | none => simp [run_bind, state, change, require, hpath, ho, hc, Table.get?_set]
  | some c => simp [run_bind, state, change, require, hpath, ho, hc, Table.get?_set, Except.map]

/-- The object after a number of changes. -/
def advanced (o : StoredObject) : Nat → StoredObject
  | 0 => o
  | n + 1 => advanced (StoredObject.advance o) n

/-- The last of a row of changes is seen once all of them are applied. -/
theorem advanced_last {o : StoredObject} {changes : List (String × Variant)} {name : String}
    {v : Variant} (h : o.pending = changes ++ [(name, v)]) :
    (advanced o (changes.length + 1)).className = o.className ∧
      (advanced o (changes.length + 1)).values.get? name = some v := by
  induction changes generalizing o with
  | nil => simp [advanced, StoredObject.advance, h, Table.get?_set]
  | cons change changes ih =>
    obtain ⟨name', v'⟩ := change
    have hrest : (StoredObject.advance o).pending = changes ++ [(name, v)] := by
      simp [StoredObject.advance, h]
    have hclass : (StoredObject.advance o).className = o.className := by
      simp [StoredObject.advance, h]
    rw [← hclass]
    exact ih hrest

/-- Fetching a number of times leads to the object after that many changes. -/
theorem Reach.fetches {b b' : Broker} {path : String} {o : StoredObject}
    (h : Reach permitted b b') (hpath : b'.classes.get? path = none)
    (ho : b'.objects.get? path = some o) (n : Nat) :
    ∃ b'', Reach permitted b b'' ∧ b''.classes = b'.classes ∧
      b''.objects.get? path = some (advanced o n) := by
  induction n generalizing b' o with
  | zero => exact ⟨b', h, rfl, ho⟩
  | succ n ih =>
    obtain ⟨hclasses, ho'⟩ := fetch_after hpath ho
    have hnext : Reach permitted b (Request.after b' (.fetch path)) := h.request trivial
    obtain ⟨b'', hreach, hsame, hadvanced⟩ := ih hnext (hclasses ▸ hpath) ho'
    exact ⟨b'', hreach, hsame.trans hclasses, hadvanced⟩

/-- Queueing a change puts it behind the others. -/
theorem schedule_after {b : Broker} {path : String} {o : StoredObject}
    (ho : b.objects.get? path = some o) (name : String) (v : Variant) :
    (Request.after b (.schedule path name v)).classes = b.classes ∧
      (Request.after b (.schedule path name v)).objects.get? path =
        some { o with pending := o.pending ++ [(name, v)] } := by
  show ((schedule path name v).run b).2.classes = b.classes ∧
    ((schedule path name v).run b).2.objects.get? path = _
  unfold schedule storedAt
  simp [run_bind, state, change, require, ho, Table.get?_set]

/-- **When a broker stays typed.** Take the runs of a broker (`Reach`) in which each class is
defined at most once and changes are queued where they are `permitted`: whatever is inserted, set,
put, fetched, queried, spawned, cloned and called, in whatever order, and whatever the routines of
methods do of the same kind.  In all states that these runs lead to, each value, stored or behind a
handle, stands under a declared name and is accepted by its declared type (`Typed`), if and only if
each change that is queued is one that the class of the object admits, or is for a path that is the
name of a class, under which no object can be fetched (`MayChange`). -/
theorem typed_iff_changes_admitted (permitted : Broker → String → String → Variant → Prop) :
    (∀ b, Reach permitted .empty b → b.Typed) ↔
      ∀ b, Reach permitted .empty b → ∀ path name v, permitted b path name v →
        b.MayChange path name v := by
  constructor
  · intro htyped b hb path name v hpermitted o c ho hpath hc
    -- queue the change, and fetch the object until the change has come out
    have hqueued : Reach permitted .empty (Request.after b (.schedule path name v)) :=
      hb.request hpermitted
    obtain ⟨hclasses, ho'⟩ := schedule_after ho name v
    obtain ⟨b', hb', hsame, hlast⟩ := hqueued.fetches (hclasses ▸ hpath) ho' (o.pending.length + 1)
    have hqueue : ({ o with pending := o.pending ++ [(name, v)] } : StoredObject).pending =
        o.pending ++ [(name, v)] := rfl
    obtain ⟨hclass, hvalue⟩ := advanced_last hqueue
    obtain ⟨c', hc', htypes⟩ := (htyped b' hb').stored path _ hlast
    rw [hclass, hsame, hclasses, hc] at hc'
    cases hc'
    exact htypes name v hvalue
  · intro hmay b hb
    exact (hb.sound sound_empty hmay).typed

/-- A class with one text. -/
def namedClass : ClassDef := .ofProperties "Widget" [("Name", .scalarOf .string)]

/-- The broker after a number is queued for a text and the object is fetched. -/
def spoiled : Broker :=
  [.defineClass namedClass, .insert "Widget" [("Name", .text "first")],
    .schedule (instancePath "Widget" 1) "Name" (.int32 5),
    .fetch (instancePath "Widget" 1)].foldl Request.after .empty

/-- Where anything may be queued, a run leads to an object that is not typed. -/
theorem queued_change_spoils :
    Reach (fun _ _ _ _ => True) .empty spoiled ∧ ¬ spoiled.Typed := by
  constructor
  · have hdefined := Reach.request (r := .defineClass namedClass) (.nothing .empty)
      (show Request.Allowed (fun _ _ _ _ => True) .empty (.defineClass namedClass) from rfl)
    have hinserted := hdefined.request (r := .insert "Widget" [("Name", .text "first")]) trivial
    have hqueued := hinserted.request
      (r := .schedule (instancePath "Widget" 1) "Name" (.int32 5)) trivial
    exact hqueued.request (r := .fetch (instancePath "Widget" 1)) trivial
  · intro htyped
    obtain ⟨c, hc, htypes⟩ := htyped.stored (instancePath "Widget" 1)
      ⟨"Widget", ⟨[("Name", .int32 5)]⟩, []⟩ rfl
    obtain rfl : namedClass = c := Option.some.inj hc
    obtain ⟨t, ht, haccepts⟩ := htypes "Name" (.int32 5) rfl
    obtain rfl : CimType.scalarOf .string = t := Option.some.inj ht
    cases haccepts

end CimBroker.Broker
