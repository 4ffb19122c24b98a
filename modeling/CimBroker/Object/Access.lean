/-
# CimBroker.Object.Access — reading and writing objects through their handles

`ObjectAccess σ` is what a backend with states `σ` offers on the objects it has handed out.  Nothing
is cached: each `get` and each `put` is a round trip of its own, and `properties` is the one way to
see an object at a single moment.

Everything else here is built from those operations: the path and class of an object, typed reads
and writes, and fresh parameter objects for a method.

`ObjectAccess.getAs` and `ObjectAccess.putAs` go through the codec, `ObjectAccess.getNat` reads a
natural number whatever its width, and `ObjectAccess.parameters` makes an object for the inputs of a
method.  A backend may do anything at all behind these operations; what a theorem needs of it, it
says.
-/
import CimBroker.Action
import CimBroker.Object.Bag
import CimBroker.Variant.Codec

namespace CimBroker

/-- The name of a cursor over the results of a query. -/
structure Cursor where
  id : Nat
  deriving DecidableEq, Repr, Inhabited

/-- What a backend offers on objects and cursors. -/
structure ObjectAccess (σ : Type) where
  /-- Reads a property with its declared type. -/
  get : Handle → String → Action σ (Variant × CimType)
  put : Handle → String → Variant → Action σ Unit
  /-- Every property at one moment, those of the system included. -/
  properties : Handle → Action σ PropertyBag
  /-- A blank instance of a class definition. -/
  spawn : Handle → Action σ Handle
  clone : Handle → Action σ Handle
  /-- The input and the output parameters of a method as definitions, where it has any. -/
  signature : Handle → String → Action σ (Option Handle × Option Handle)
  /-- The object as exchange text. -/
  text : Handle → Action σ String
  /-- The next result of a cursor, or nothing after the last one. -/
  next : Cursor → Action σ (Option Handle)
  /-- A bound on how deep objects are nested in objects. -/
  depth : σ → Nat
  /-- A bound on the number of results that a cursor has left. -/
  remaining : σ → Cursor → Nat

namespace ObjectAccess

variable {σ : Type} (access : ObjectAccess σ)

/-- The value of a property. -/
def value (h : Handle) (name : String) : Action σ Variant := do
  return (← access.get h name).1

/-- A property decoded as the wanted type. -/
def getAs (h : Handle) (name : String) (t : DataType) : Action σ t.Value := do
  Action.ofExcept (t.decode (← access.value h name))

/-- The path of an object; an instance that was never stored has none. -/
def path? (h : Handle) : Action σ (Option String) :=
  access.getAs h pathProperty (.optional .text)

/-- The path of an object that has to have one. -/
def requirePath (h : Handle) : Action σ String := do
  Action.require (.notFound "object has no path; it was never committed") (← access.path? h)

/-- The name of the object's class. -/
def className (h : Handle) : Action σ String :=
  access.getAs h classProperty .text

/-- The declared type of a property. -/
def declaredType (h : Handle) (name : String) : Action σ CimType := do
  return (← access.get h name).2

/-- The bits of a signed word as a natural number. -/
def signedBits? : Variant → Option Nat
  | .scalar (.integer true _ word) => some word.toNat
  | _ => none

/-- A property read as a natural number below 2⁶⁴: signed words bit for bit, everything else as an
unsigned 64-bit integer. -/
def getNat (h : Handle) (name : String) : Action σ Nat := do
  let v ← access.value h name
  match signedBits? v with
  | some n => return n
  | none => return (← Action.ofExcept (DataType.uint64.decode v)).toNat

/-- Writes a value of a native type. -/
def putAs (h : Handle) (name : String) (t : DataType) (x : t.Value) : Action σ Unit :=
  access.put h name (t.encode x)

/-- A blank object for the input parameters of a method, if it takes any. -/
def parameters (h : Handle) (method : String) : Action σ (Option Handle) := do
  match (← access.signature h method).1 with
  | some definition => return some (← access.spawn definition)
  | none => return none

/-- The diagnostic form of an object: its class and its path, as far as they can be read. -/
def inspect (h : Handle) : StateM σ String := do
  let path ← (access.path? h).outcome
  let className ← (access.className h).outcome
  let shown (part : Option String) : String := Text.optional (part.map Text.quoted)
  return Text.labelled "Instance"
    [("class", shown className.toOption), ("path", shown (path.toOption.bind id))]

end ObjectAccess

end CimBroker
