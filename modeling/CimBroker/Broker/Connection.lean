/-
# CimBroker.Broker.Connection — connecting to a broker in memory

The routines of methods are given from outside.  A routine sees the call, may do with the broker
whatever it likes, and yields the outputs; it may also keep a state of its own, so a connection
works on pairs of a broker and such a state.

A call is checked before its routine starts: the object or class has to exist, and its class has to
declare the method and to have a routine for it.  What the routine yields is checked against the
declared outputs; a method without outputs yields no object, whatever its routine says.

`Broker.invoke` is the call of a method and `Broker.connection` all that a session can ask;
`Broker.connector` looks at the account first (`Broker.logIn`).  Nothing bounds what a routine does.
What a theorem needs of a routine is a hypothesis of that theorem.
-/
import CimBroker.Broker.Queries

namespace CimBroker

/-- What a routine sees of a call. -/
structure MethodCall where
  /-- The path of the object that the method is called on. -/
  target : String
  method : String
  inputs : PropertyBag
  deriving Repr

/-- An input decoded as the wanted type; one that was not given is nothing. -/
def MethodCall.input (call : MethodCall) (name : String) (t : DataType) : Except Error t.Value :=
  t.decode ((call.inputs.get? name).getD .null)

/-- What each routine does, on a broker and a state of the routines' own. -/
abbrev Routines (ω : Type) :=
  Routine → MethodCall → Action (Broker × ω) (List (String × Variant))

namespace ObjectAccess

/-- The operations on objects, beside a state that they do not touch. -/
def onFirst {σ : Type} (τ : Type) (access : ObjectAccess σ) : ObjectAccess (σ × τ) where
  get h name := (access.get h name).onFirst
  put h name v := (access.put h name v).onFirst
  properties h := (access.properties h).onFirst
  spawn h := (access.spawn h).onFirst
  clone h := (access.clone h).onFirst
  signature h method := (access.signature h method).onFirst
  text h := (access.text h).onFirst
  next c := (access.next c).onFirst
  depth s := access.depth s.1
  remaining s c := access.remaining s.1 c

end ObjectAccess

namespace Broker

/-- The name of the class that a method is looked up in: the class itself, or that of the instance
at the path. -/
def classNameAt (path : String) : Action Broker String := do
  match (← Action.state).classes.get? path with
  | some c => return c.name
  | none => return (← storedAt path).className

/-- The method of the object at a path, and its routine. -/
def methodAt (path method : String) : Action Broker (MethodDef × Routine) := do
  let className ← classNameAt path
  let c ← classNamed className
  let shown := className ++ "." ++ method
  let m ← Action.require (.remote ("method " ++ shown ++ " not found")) (c.method? method)
  let routine ← Action.require (.remote ("method " ++ shown ++ " is not implemented")) m.routine
  return (m, routine)

/-- An object of the outputs that a routine yielded. -/
def bringOutputs (m : MethodDef) (results : List (String × Variant)) :
    Action Broker (Option Handle) := do
  match ClassDef.ofParameters? m.outputs with
  | none => return none
  | some c => do
    let values ← Action.ofExcept (c.assign .empty results)
    return some (← bringInstance c none values)

/-- What a routine sees of the inputs. -/
def inputBag : Option Handle → Action Broker PropertyBag
  | some h => properties h
  | none => return .empty

variable {ω : Type}

/-- Calls a method. -/
def invoke (routines : Routines ω) (path method : String) (inputs : Option Handle) :
    Action (Broker × ω) (Option Handle) := do
  let (m, routine, call) ← Action.onFirst do
    note (.invoke path method)
    let (m, routine) ← methodAt path method
    return (m, routine, (⟨path, method, ← inputBag inputs⟩ : MethodCall))
  let results ← routines routine call
  Action.onFirst (bringOutputs m results)

/-- The connection to a broker. -/
def connection (routines : Routines ω) : Connection (Broker × ω) where
  toObjectAccess := access.onFirst ω
  query wql := (runQuery wql).onFirst
  enumerate className := (runEnumeration className).onFirst
  fetch path := (fetch path).onFirst
  invoke := invoke routines

/-- Opens a connection, if the account is the required one. -/
def logIn (namespaceName : String) (credentials : Option Credentials) : Action Broker Unit := do
  note (.connect namespaceName)
  match (← Action.state).credentials with
  | some required =>
    if credentials = some required then return ()
    else throw (.connection "Access denied")
  | none => return ()

/-- Connects to a broker; the server does not matter. -/
def connector (routines : Routines ω) : Connector (Broker × ω) :=
  fun _ namespaceName credentials => do
    (logIn namespaceName credentials).onFirst
    return connection routines

end Broker

end CimBroker
