/-
# CimBroker.Session.Invocation — one call of a method

An invocation is prepared, given its inputs, executed, asked for its outputs and ended.  It keeps
the first failure of any of these steps: from then on every step does nothing, and ending reports
that failure.  So a caller may write the whole call down without looking at a single outcome.

The steps never fail; they turn one invocation into the next, in the state of the broker.

`Invocation.begin`, `Invocation.set`, `Invocation.execute`, `Invocation.get` and `Invocation.finish`
are the steps, and `Service.call` is the row of steps that most callers need.  A method is called at
most once in the life of an invocation (`CimBroker.Proofs.FailFast`).
-/
import CimBroker.Session.Service

namespace CimBroker

/-- An input of a method. -/
inductive Argument where
  | value (v : Variant)
  /-- Texts, which travel as an array even when there are none. -/
  | texts (items : List String)
  /-- An object, which travels as its path where a reference is declared and as itself otherwise. -/
  | object (h : Handle)
  deriving DecidableEq, Repr

/-- An argument of a native type. -/
def Argument.of (t : DataType) (x : t.Value) : Argument := .value (t.encode x)

/-- A call of a method, on its way. -/
structure Invocation where
  path : String
  method : String
  inputs : Option Handle
  outputs : Option Handle
  executed : Bool
  ended : Bool
  /-- The first failure. -/
  failure : Option Error
  deriving DecidableEq, Repr

namespace Invocation

variable {σ : Type} (s : Service σ)

/-- An invocation from what its preparation yielded: a path and the input parameters. -/
def prepared (method : String) : Except Error (String × Option Handle) → Invocation
  | .ok (path, inputs) => ⟨path, method, inputs, none, false, false, none⟩
  | .error e => ⟨"", method, none, none, false, false, some e⟩

/-- The path of an object, and a blank object for the inputs of a method of its class. -/
def preparation (target : Handle) (method : String) : Action σ (String × Option Handle) := do
  let path ← s.access.requirePath target
  let definition ← s.classOf target
  return (path, ← s.access.parameters definition method)

/-- A given path, and a blank object for the inputs of a method of a given class. -/
def preparationAt (classPath objectPath method : String) :
    Action σ (String × Option Handle) := do
  let definition ← s.getObject classPath
  return (objectPath, ← s.access.parameters definition method)

/-- Prepares a call on an object; the input parameters come from its class. -/
def begin (target : Handle) (method : String) : StateM σ Invocation := do
  return prepared method (← (preparation s target method).outcome)

/-- Prepares a call on the object at a path; the input parameters come from the given class. -/
def beginPath (classPath objectPath method : String) : StateM σ Invocation := do
  return prepared method (← (preparationAt s classPath objectPath method).outcome)

/-- The invocation with the failure of a step, if it has none yet. -/
def fail (i : Invocation) (e : Error) : Invocation := { i with failure := i.failure <|> some e }

/-- Puts an input in its place. -/
def stage (i : Invocation) (name : String) (x : Argument) : Action σ Unit := do
  let inputs ← Action.require
    (.notFound (i.method ++ " takes no input parameter " ++ name)) i.inputs
  let v ← match x with
    | .value v => pure v
    | .texts items => pure (Variant.ofTexts items)
    | .object h => do
      if (← s.access.declaredType inputs name).isReference then
        pure (Variant.text (← s.access.requirePath h))
      else pure (Variant.object h)
  s.access.put inputs name v

/-- Sets an input. -/
def set (i : Invocation) (name : String) (x : Argument) : StateM σ Invocation := do
  if i.failure.isSome || i.ended then return i
  else
    match ← (stage s i name x).outcome with
    | .ok () => return i
    | .error e => return i.fail e

/-- Calls the method, the first time only. -/
def execute (i : Invocation) : StateM σ Invocation := do
  if i.failure.isSome || i.executed || i.ended then return i
  else
    let i' := { i with inputs := none }
    match ← (s.connection.invoke i.path i.method i.inputs).outcome with
    | .ok outputs => return { i' with outputs := outputs, executed := true }
    | .error e => return i'.fail e

/-- The output parameters, if they can be read. -/
def readable (i : Invocation) (name : String) : Except Error Handle :=
  if i.ended then
    .error (.notFound ("output " ++ name ++ " read after " ++ i.method ++ " ended"))
  else if !i.executed then
    .error (.notFound ("output " ++ name ++ " read before " ++ i.method ++ " was executed"))
  else
    match i.outputs with
    | some h => .ok h
    | none => .error (.notFound (i.method ++ " returned no output parameter " ++ name))

/-- Reads an output.  Where an object is wanted and a path is declared, the path is resolved. -/
def read (i : Invocation) (name : String) (t : DataType) : Action σ t.Value := do
  let outputs ← Action.ofExcept (i.readable name)
  let (v, declared) ← s.access.get outputs name
  match v.text? with
  | some path =>
    if declared.isReference && t.isObjectHandle then
      let h ← s.getObject path
      Action.ofExcept (t.decode (.object h))
    else Action.ofExcept (t.decode v)
  | none => Action.ofExcept (t.decode v)

/-- Reads an output over the value that its destination holds, which stays where reading fails. -/
def get (i : Invocation) (name : String) (t : DataType) (destination : t.Value) :
    StateM σ (Invocation × t.Value) := do
  if i.failure.isSome then return (i, destination)
  else
    match ← (read s i name t).outcome with
    | .ok x => return (i, x)
    | .error e => return (i.fail e, destination)

/-- Ends the call and reports its first failure, once. -/
def finish (i : Invocation) : Except Error Unit × Invocation :=
  (match i.failure with
    | some e => .error e
    | none => .ok (),
   { i with inputs := none, outputs := none, ended := true, failure := none })

/-- Sets inputs, one after another. -/
def setAll (i : Invocation) : List (String × Argument) → StateM σ Invocation
  | [] => return i
  | (name, x) :: rest => do setAll (← set s i name x) rest

end Invocation

/-- The outputs of a method that may start a job, and the order in which they are read. -/
inductive JobOutputs where
  | jobFirst
  | returnValueFirst

/-- Calls a method that may start a job, and reads its return value and the job it refers to. -/
def Service.call {σ : Type} (s : Service σ) (target : Handle) (method : String)
    (inputs : List (String × Argument)) (order : JobOutputs) : Action σ (Nat × Option Handle) := do
  let calls : StateM σ (Except Error Unit × Nat × Option Handle) := do
    let i ← Invocation.begin s target method
    let i ← i.setAll s inputs
    let i ← i.execute s
    let (i, returnValue, job) ← match order with
      | .jobFirst => do
        let (i, job) ← i.get s "Job" (.optional .handle) none
        let (i, returnValue) ← i.get s "ReturnValue" .uint32 0
        pure (i, returnValue, job)
      | .returnValueFirst => do
        let (i, returnValue) ← i.get s "ReturnValue" .uint32 0
        let (i, job) ← i.get s "Job" (.optional .handle) none
        pure (i, returnValue, job)
    return (i.finish.1, returnValue.toNat, job)
  let (result, returnValue, job) ← ExceptT.lift calls
  Action.ofExcept result
  return (returnValue, job)

end CimBroker
