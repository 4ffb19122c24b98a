/-
# CimBroker.Broker.Schema — class definitions

A class declares properties and methods.  A method declares its input and output parameters, and may
have a routine that carries it out; a routine is known by its number, and what it does is given to
the broker's connection (`CimBroker.Broker.Connection`).

The parameters of a method form a definition of their own, so that parameter objects are spawned,
filled and checked like any other object.

`ClassDef.checkAssignable` judges a value by the declaration of its name, and `ClassDef.assign` a
row of values; everything that is stored or put goes through one of the two, except for changes that
are queued.  Classes do not inherit from one another.
-/
import CimBroker.Object.Bag
import CimBroker.Table

namespace CimBroker

/-- The name of what carries out a method. -/
structure Routine where
  id : Nat
  deriving DecidableEq, Repr

/-- Names with declared types, in order. -/
abbrev Declarations := List (String × CimType)

/-- A method of a class. -/
structure MethodDef where
  name : String
  inputs : Declarations
  outputs : Declarations
  routine : Option Routine
  deriving DecidableEq, Repr

/-- A class definition. -/
structure ClassDef where
  name : String
  properties : Declarations
  methods : List MethodDef
  deriving DecidableEq, Repr

namespace ClassDef

/-- The type that a class declares for a property. -/
def declared? (c : ClassDef) (name : String) : Option CimType :=
  (c.properties.find? fun p => p.1 == name).map Prod.snd

/-- The first method of the given name. -/
def method? (c : ClassDef) (name : String) : Option MethodDef :=
  c.methods.find? fun m => m.name == name

/-- A class without methods. -/
def ofProperties (name : String) (properties : Declarations) : ClassDef := ⟨name, properties, []⟩

/-- The definition that parameters form, if there are any. -/
def ofParameters? (parameters : Declarations) : Option ClassDef :=
  if parameters.isEmpty then none else some (ofProperties "__PARAMETERS" parameters)

/-- The error of a property that the class does not declare. -/
def undeclared (c : ClassDef) (name : String) : Error :=
  .notFound ("property " ++ name ++ " on " ++ c.name)

/-- Succeeds where the class declares the property and the declaration admits the value. -/
def checkAssignable (c : ClassDef) (name : String) (v : Variant) : Except Error Unit :=
  match c.declared? name with
  | none => .error (c.undeclared name)
  | some t =>
    if t.accepts v then .ok ()
    else
      .error (.remote ("type mismatch: " ++ c.name ++ "." ++ name ++ " is " ++ t.name ++ ", got " ++
        v.typeName))

/-- Values by name from a list of assignments, each of which is checked; a later assignment to a
name replaces an earlier one. -/
def assign (c : ClassDef) : Table Variant → List (String × Variant) → Except Error (Table Variant)
  | values, [] => .ok values
  | values, (name, v) :: rest =>
    match c.checkAssignable name v with
    | .ok () => c.assign (values.set name v) rest
    | .error e => .error e

end ClassDef

/-- The class of jobs. -/
def jobClass : String := "Msvm_ConcreteJob"

/-- The definition of a class of jobs. -/
def ClassDef.job (name : String) : ClassDef :=
  .ofProperties name
    [("InstanceID", .scalarOf .string), ("JobState", .scalarOf (.integer false .w16)),
      ("ErrorCode", .scalarOf (.integer false .w16)), ("ErrorDescription", .scalarOf .string)]

end CimBroker
