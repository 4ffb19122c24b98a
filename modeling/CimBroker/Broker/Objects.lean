/-
# CimBroker.Broker.Objects — what the broker's objects do

Reads and writes of single properties are round trips and are written down, whether they succeed or
not.  A write has to name a declared property and a value that its declaration admits; an embedded
object is cloned on its way in, so that the embedded copy and the object it came from go separate
ways.  Looking at all properties, spawning, cloning and the exchange text are no round trips.

`Broker.get`, `Broker.put` and `Broker.clone` are the operations on single objects,
`LiveObject.text` is the exchange text, and `Broker.access` has all of them together.  A copy is one
of the object's own values: what these embed is not copied again, and neither are the items of an
array that is put (`Broker.kept`).
-/
import CimBroker.Broker.State
import CimBroker.Markup.Escape
import CimBroker.Variant.Codec

namespace CimBroker

namespace LiveObject

/-- The value of a system property. -/
def systemValue? (o : LiveObject) (name : String) : Option Variant :=
  if name = pathProperty then some (o.path.elim .null .text)
  else if name = classProperty then some (.text o.definition.name)
  else none

/-- The value of a declared property; one that was never given is nothing. -/
def value (o : LiveObject) (name : String) : Variant := (o.values.get? name).getD .null

/-- A property with its declared type. -/
def read (o : LiveObject) (name : String) : Except Error (Variant × CimType) :=
  match o.systemValue? name with
  | some v => .ok (v, .scalarOf .string)
  | none =>
    match o.definition.declared? name with
    | some t => .ok (o.value name, t)
    | none => .error (o.definition.undeclared name)

/-- Every property: class and path, and then the declared ones in order. -/
def bag (o : LiveObject) : PropertyBag :=
  ⟨[⟨classProperty, .text o.definition.name, .scalarOf .string⟩,
      ⟨pathProperty, o.path.elim .null .text, .scalarOf .string⟩] ++
    o.definition.properties.map fun p => ⟨p.1, o.value p.1, p.2⟩⟩

/-- The exchange text of one property; one without a value has none. -/
def propertyText (o : LiveObject) (p : String × CimType) : String :=
  match o.value p.1 with
  | .null => ""
  | v =>
    let shown := match AtomType.decodeText v with
      | .ok text => text
      | .error _ => ""
    "<PROPERTY NAME=\"" ++ Markup.escape p.1 ++ "\" TYPE=\"" ++ p.2.base.name.toLower ++
      "\"><VALUE>" ++ Markup.escape shown ++ "</VALUE></PROPERTY>"

/-- The exchange text of an object. -/
def text (o : LiveObject) : String :=
  "<INSTANCE CLASSNAME=\"" ++ Markup.escape o.definition.name ++ "\">" ++
    String.join (o.definition.properties.map o.propertyText) ++ "</INSTANCE>"

end LiveObject

namespace Broker

/-- Reads a property. -/
def get (h : Handle) (name : String) : Action Broker (Variant × CimType) := do
  note (.get name)
  Action.ofExcept ((← liveObject h).read name)

/-- A handle to a new object with everything that an object has at this moment. -/
def clone (h : Handle) : Action Broker Handle := do
  bring (← liveObject h)

/-- The value that is kept when a value is written: of an object, a clone. -/
def kept : Variant → Action Broker Variant
  | .object h => return .object (← clone h)
  | v => return v

/-- Writes a property. -/
def put (h : Handle) (name : String) (v : Variant) : Action Broker Unit := do
  note (.put name)
  if isSystemName name then
    throw (.remote ("system property " ++ name ++ " is read-only"))
  let o ← liveObject h
  Action.ofExcept (o.definition.checkAssignable name v)
  let v ← kept v
  setLiveValues h (o.values.set name v)

/-- Every property of an object. -/
def properties (h : Handle) : Action Broker PropertyBag := do
  return (← liveObject h).bag

/-- A blank instance of a class definition. -/
def spawn (h : Handle) : Action Broker Handle := do
  let o ← liveObject h
  if o.isClass then bringInstance o.definition none .empty
  else throw (.remote (o.definition.name ++ " is not a class definition"))

/-- A handle to the definition that parameters form, if there are any. -/
def bringParameters (parameters : Declarations) : Action Broker (Option Handle) := do
  match ClassDef.ofParameters? parameters with
  | some c => return some (← bringClass c)
  | none => return none

/-- The parameters of a method, as definitions. -/
def signature (h : Handle) (method : String) : Action Broker (Option Handle × Option Handle) := do
  let o ← liveObject h
  let m ← Action.require (.notFound ("method " ++ o.definition.name ++ "." ++ method))
    (o.definition.method? method)
  let inputs ← bringParameters m.inputs
  let outputs ← bringParameters m.outputs
  return (inputs, outputs)

/-- The exchange text of an object. -/
def objectText (h : Handle) : Action Broker String := do
  return (← liveObject h).text

/-- Opens a cursor over handles. -/
def openCursor (results : List Handle) : Action Broker Cursor :=
  Action.ofRun fun b => (.ok ⟨b.cursors.size⟩, { b with cursors := b.cursors.push results })

/-- What a cursor has left. -/
def cursorRest (b : Broker) (c : Cursor) : List Handle := b.cursors[c.id]?.getD []

/-- The next handle of a cursor. -/
def next (c : Cursor) : Action Broker (Option Handle) :=
  Action.ofRun fun b =>
    match b.cursorRest c with
    | [] => (.ok none, b)
    | h :: rest => (.ok (some h), { b with cursors := b.cursors.modify c.id fun _ => rest })

/-- The operations on the broker's objects.  An object can be nested in as many others as there
are. -/
def access : ObjectAccess Broker where
  get := get
  put := put
  properties := properties
  spawn := spawn
  clone := clone
  signature := signature
  text := objectText
  next := next
  depth b := b.live.size
  remaining b c := (b.cursorRest c).length

end Broker

end CimBroker
