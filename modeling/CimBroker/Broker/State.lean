/-
# CimBroker.Broker.State — a broker in memory

The broker holds class definitions, stored objects by path, associations between paths, and the
account it wants to see.  What it has handed out lives apart from what it stores: a handle names a
*live object*, which carries its own definition and its own values from the moment it was made, so
that nothing stored, changed or removed later can be seen through it.

A stored object has a queue of changes.  Each fetch shows the values as they are and then applies
the oldest change of the queue, which is how a job passes through its states while it is being
watched.

Every round trip is written down.

`Broker.bring` makes live objects.  `Broker.insert`, `Broker.schedule`, `Broker.setProperty`,
`Broker.remove` and `Broker.associate` change the store, and `Broker.snapshot` is a fetch.  There is
nothing here on who may ask for what, beyond `Broker.requireCredentials`.
-/
import CimBroker.Action
import CimBroker.Broker.Schema
import CimBroker.Object.Access
import CimBroker.Session.Connection

namespace CimBroker

/-- A round trip that was made, as the broker writes it down. -/
inductive Call where
  | connect (namespaceName : String)
  | query (wql : String)
  | enumerate (className : String)
  | fetch (path : String)
  | invoke (path method : String)
  | get (name : String)
  | put (name : String)
  deriving DecidableEq, Repr

/-- An object in the store. -/
structure StoredObject where
  className : String
  values : Table Variant
  /-- Changes to come, oldest first. -/
  pending : List (String × Variant)
  deriving Repr

/-- An object behind a handle. -/
structure LiveObject where
  definition : ClassDef
  path : Option String
  /-- Whether the object stands for its class definition. -/
  isClass : Bool
  values : Table Variant
  deriving Repr

/-- A broker in memory. -/
structure Broker where
  classes : Table ClassDef := .empty
  objects : Table StoredObject := .empty
  /-- Pairs of associated paths, oldest first. -/
  associations : List (String × String) := []
  /-- The account that connecting requires. -/
  credentials : Option Credentials := none
  /-- The number of the instance stored last. -/
  lastId : Nat := 0
  /-- The round trips, latest first. -/
  trail : List Call := []
  /-- The live objects by the number of their handle. -/
  live : Array LiveObject := #[]
  /-- What each cursor has left. -/
  cursors : Array (List Handle) := #[]

namespace Broker

/-- The broker without classes and objects. -/
def empty : Broker := { lastId := 0 }

/-- The round trips, oldest first. -/
def calls (b : Broker) : List Call := b.trail.reverse

/-- Writes a round trip down. -/
def note (call : Call) : Action Broker Unit :=
  Action.change fun b => { b with trail := call :: b.trail }

/-- Forgets the round trips. -/
def clearCalls : Action Broker Unit := Action.change fun b => { b with trail := [] }

/-- The number of reads of a property that were written down. -/
def readsOf (name : String) (b : Broker) : Nat :=
  (b.trail.filter fun call => call == .get name).length

/-! ## Classes -/

/-- Defines a class, in place of an earlier one of its name. -/
def defineClass (c : ClassDef) : Action Broker Unit :=
  Action.change fun b => { b with classes := b.classes.set c.name c }

def hasClass (name : String) (b : Broker) : Bool := b.classes.contains name

/-- The definition of a class. -/
def classNamed (name : String) : Action Broker ClassDef := do
  Action.require (.notFound ("class " ++ name)) ((← Action.state).classes.get? name)

/-! ## Live objects -/

/-- A handle to a new live object. -/
def bring (o : LiveObject) : Action Broker Handle :=
  Action.ofRun fun b => (.ok ⟨b.live.size⟩, { b with live := b.live.push o })

/-- A handle to a class definition. -/
def bringClass (c : ClassDef) : Action Broker Handle := bring ⟨c, some c.name, true, .empty⟩

/-- A handle to an instance with the given values. -/
def bringInstance (c : ClassDef) (path : Option String) (values : Table Variant) :
    Action Broker Handle :=
  bring ⟨c, path, false, values⟩

/-- The object behind a handle. -/
def liveObject (h : Handle) : Action Broker LiveObject := do
  Action.require (.notFound "object") (← Action.state).live[h.id]?

/-- Replaces the values of the object behind a handle. -/
def setLiveValues (h : Handle) (values : Table Variant) : Action Broker Unit :=
  Action.change fun b =>
    { b with live := b.live.modify h.id fun o => { o with values := values } }

/-! ## The store -/

/-- The path of the instance stored as number `n` of a class. -/
def instancePath (className : String) (n : Nat) : String :=
  className ++ ".InstanceID=\"" ++ toString n ++ "\""

/-- Stores an instance of a class and yields its path. -/
def insert (className : String) (values : List (String × Variant)) : Action Broker String := do
  let c ← classNamed className
  let stored ← Action.ofExcept (c.assign .empty values)
  Action.ofRun fun b =>
    let path := instancePath c.name (b.lastId + 1)
    (.ok path,
      { b with
        lastId := b.lastId + 1
        objects := b.objects.set path ⟨c.name, stored, []⟩ })

/-- The object stored at a path. -/
def storedAt (path : String) : Action Broker StoredObject := do
  Action.require (.notFound path) ((← Action.state).objects.get? path)

/-- Queues a change of a stored object.  It is not checked before it is applied, nor then. -/
def schedule (path name : String) (v : Variant) : Action Broker Unit := do
  let o ← storedAt path
  Action.change fun b =>
    { b with objects := b.objects.set path { o with pending := o.pending ++ [(name, v)] } }

/-- Changes a stored object at once. -/
def setProperty (path name : String) (v : Variant) : Action Broker Unit := do
  let o ← storedAt path
  let c ← classNamed o.className
  Action.ofExcept (c.checkAssignable name v)
  Action.change fun b =>
    { b with objects := b.objects.set path { o with values := o.values.set name v } }

/-- Takes an object out of the store, and says whether it was there. -/
def remove (path : String) : Action Broker Bool :=
  Action.ofRun fun b =>
    (.ok (b.objects.contains path), { b with objects := b.objects.erase path })

/-- Associates two paths. -/
def associate (first second : String) : Action Broker Unit :=
  Action.change fun b => { b with associations := b.associations ++ [(first, second)] }

/-- Requires an account on connecting. -/
def requireCredentials (c : Credentials) : Action Broker Unit :=
  Action.change fun b => { b with credentials := some c }

/-- Stores a job that passes through the given states, one with each fetch, and ends with an error
number and a description.  Without states it is finished from the start. -/
def insertJob (states : List (BitVec 16)) (code : BitVec 16) (description : String) :
    Action Broker String := do
  if !(← Action.state).hasClass jobClass then
    defineClass (.job jobClass)
  let first := (states.head?.map BitVec.toNat).getD 7
  let path ← insert jobClass
    [("JobState", .int32 first), ("ErrorCode", .int32 code.toNat),
      ("ErrorDescription", .text description)]
  (states.drop 1).forM fun state => schedule path "JobState" (.int32 state.toNat)
  return path

/-! ## Fetching -/

/-- The object after its oldest change, if one is queued. -/
def StoredObject.advance (o : StoredObject) : StoredObject :=
  match o.pending with
  | [] => o
  | (name, v) :: rest => { o with values := o.values.set name v, pending := rest }

/-- A handle to what is at a path, a class definition or an instance as it is now, after which the
instance undergoes its oldest change. -/
def snapshot (path : String) : Action Broker (Option Handle) := do
  match (← Action.state).classes.get? path with
  | some c => return some (← bringClass c)
  | none =>
    match (← Action.state).objects.get? path with
    | none => return none
    | some o => do
      Action.change fun b =>
        { b with objects := b.objects.set path (StoredObject.advance o) }
      let c ← classNamed o.className
      return some (← bringInstance c (some path) o.values)

/-- A handle to what is at a path, without a round trip. -/
def object (path : String) : Action Broker Handle := do
  Action.require (.notFound path) (← snapshot path)

/-- A handle to a class definition, without a round trip. -/
def classObject (name : String) : Action Broker Handle := do
  bringClass (← classNamed name)

end Broker

end CimBroker
