/-
# CimBroker.Broker.Queries — answering queries

A query is answered in two steps: first the paths that it selects are found, all of them on the
store as it is, and then each of them is fetched, which lets the object's queue advance.  A
selection compares the text of each named property with the wanted text and fails when a property
that it has to look at has no text; the associates of a path come in the order in which they were
associated.

`Broker.answer` finds the paths, `Broker.fetchAll` fetches them, and `Broker.runQuery` does both for
the text of a query; `Broker.runEnumeration` lists the instances of a class.  Which texts are
queries is left to `CimBroker.Wql.Query`.
-/
import CimBroker.Broker.Objects
import CimBroker.Text.Search
import CimBroker.Wql.Query

namespace CimBroker

/-- Whether an object's class has the given name, in whatever case. -/
def StoredObject.isOf (o : StoredObject) (className : String) : Bool :=
  Text.sameWord o.className className

/-- Whether every filter names a value of the object with the wanted text. -/
def StoredObject.meets (o : StoredObject) : List (String × String) → Except Error Bool
  | [] => .ok true
  | (name, wanted) :: filters =>
    match o.values.get? name with
    | none => .ok false
    | some v =>
      match AtomType.decodeText v with
      | .ok text => if text = wanted then o.meets filters else .ok false
      | .error e => .error e

namespace Broker

/-- The stored objects of a class, in path order. -/
def instancesOf (b : Broker) (className : String) : List (String × StoredObject) :=
  b.objects.entries.filter fun entry => entry.2.isOf className

/-- The paths of the entries that meet the filters, up to the first that cannot be decided. -/
def meeting (filters : List (String × String)) :
    List (String × StoredObject) → Except Error (List String)
  | [] => .ok []
  | (path, o) :: rest =>
    match o.meets filters with
    | .error e => .error e
    | .ok true => (meeting filters rest).map (path :: ·)
    | .ok false => meeting filters rest

/-- The other path of an association that a path takes part in. -/
def otherEnd? (path : String) (pair : String × String) : Option String :=
  if pair.1 = path then some pair.2 else if pair.2 = path then some pair.1 else none

/-- Whether an object is stored at a path and of a class. -/
def isStoredOf (b : Broker) (className path : String) : Bool :=
  ((b.objects.get? path).map fun o => o.isOf className).getD false

/-- Whether a reference property of an object holds a path. -/
def refersTo (c : ClassDef) (path : String) (o : StoredObject) : Bool :=
  c.properties.any fun p =>
    p.2.isReference && (o.values.get? p.1).bind Variant.text? == some path

/-- The paths that a query selects. -/
def answer (q : Wql.Query) : Action Broker (List String) := do
  let b ← Action.state
  match q with
  | .select className filters => Action.ofExcept (meeting filters (b.instancesOf className))
  | .associators path resultClass =>
    return (b.associations.filterMap (otherEnd? path)).filter (b.isStoredOf resultClass)
  | .references path resultClass => do
    let c ← classNamed resultClass
    let found := b.objects.entries.filter fun entry =>
      entry.2.className == c.name && refersTo c path entry.2
    return found.map Prod.fst

/-- Handles to what is at the given paths, fetched in turn. -/
def fetchAll : List String → Action Broker (List Handle)
  | [] => return []
  | path :: paths => do
    match ← snapshot path with
    | some h => return h :: (← fetchAll paths)
    | none => fetchAll paths

/-- Runs a query. -/
def runQuery (wql : String) : Action Broker Cursor := do
  note (.query wql)
  let paths ← answer (← Action.ofExcept (Wql.Query.parse wql))
  openCursor (← fetchAll paths)

/-- Lists the instances of a class. -/
def runEnumeration (className : String) : Action Broker Cursor := do
  note (.enumerate className)
  let _ ← classNamed className
  openCursor (← fetchAll (((← Action.state).instancesOf className).map Prod.fst))

/-- Finds a class definition or an instance. -/
def fetch (path : String) : Action Broker (Option Handle) := do
  note (.fetch path)
  snapshot path

end Broker

end CimBroker
