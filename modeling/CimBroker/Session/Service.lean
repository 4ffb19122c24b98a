/-
# CimBroker.Session.Service — a connected session

A service is a connection together with the configuration it was opened with.  Its operations are
sequential: each one waits for the broker's answer before anything else happens.

How time passes while a job is waited for is part of the service too (`Pace`), so that waiting is a
function like everything else: the pace says how much time has gone by after a number of looks at
the job, and how many looks the caller has patience for.

`Service.query` and `Service.getObject` are the basic operations, and `Service.findRelated`,
`Service.getRecord` and `Service.queryRecords` are built on them.  A session does not reconnect, and
keeps nothing between two operations.
-/
import CimBroker.Session.Config
import CimBroker.Session.Results

namespace CimBroker

/-- How time passes while a job is waited for. -/
structure Pace where
  /-- The number of looks at a job after which the caller gives up. -/
  patience : Nat
  /-- The time that has gone by after a number of pauses of the given length. -/
  elapsed : (pause : Time.Duration) → (pauses : Nat) → Time.Duration

/-- A connected session. -/
structure Service (σ : Type) where
  connection : Connection σ
  config : SessionConfig
  pace : Pace

namespace Service

variable {σ : Type}

/-- Every failure to connect is a connection error. -/
def asConnectionError : Error → Error
  | .connection text => .connection text
  | e => .connection e.message

/-- Opens a session.  A faulty configuration is refused before the connector is asked. -/
def connect (connector : Connector σ) (config : SessionConfig) (pace : Pace) :
    Action σ (Service σ) := do
  Action.ofExcept config.validate
  let connection ← Action.mapError asConnectionError
    (connector config.server config.namespaceName config.credentials)
  return ⟨connection, config, pace⟩

variable (s : Service σ)

/-- The operations on objects. -/
abbrev access : ObjectAccess σ := s.connection.toObjectAccess

/-- Runs a query. -/
def query (wql : String) : Action σ Results := do
  return .ofCursor (← s.connection.query wql)

/-- Lists the instances of a class. -/
def enumerate (className : String) : Action σ Results := do
  return .ofCursor (← s.connection.enumerate className)

/-- The class definition or instance at a path. -/
def getObject (path : String) : Action σ Handle := do
  Action.require (.notFound path) (← s.connection.fetch path)

/-- The first instance of a class, as for classes that have exactly one. -/
def getSingleton (className : String) : Action σ Handle := do
  let (found, _) ← (← s.enumerate className).next s.access
  Action.require (.notFound ("no instance of " ++ className)) found

/-- The object as it is stored now. -/
def refetch (h : Handle) : Action σ Handle := do
  s.getObject (← s.access.requirePath h)

/-- The error of a query without results. -/
def noResults (wql : String) : Error := .notFound ("no results for " ++ wql)

/-- The first result of a query. -/
def findFirst (wql : String) : Action σ Handle := do
  let (found, _) ← (← s.query wql).next s.access
  Action.require (noResults wql) found

/-- The query for the objects of a class that are associated with the object at a path. -/
def relatedQuery (path className : String) : String :=
  "ASSOCIATORS OF \x7b" ++ path ++ "\x7d WHERE ResultClass = " ++ className

/-- The first object of a class that is associated with the object at a path. -/
def findRelated (path className : String) : Action σ Handle :=
  s.findFirst (relatedQuery path className)

/-- The first result of a query as a record. -/
def findFirstRecord (R : Type) [Record R] (wql : String) : Action σ R := do
  let (found, _) ← (← s.query wql).nextRecord R s.access
  Action.require (noResults wql) found

/-- The object at a path as a record. -/
def getRecord (R : Type) [Record R] (path : String) : Action σ R := do
  s.access.getAll R (← s.getObject path)

/-- Every result of a query as a record. -/
def queryRecords (R : Type) [Record R] (wql : String) : Action σ (List R) := do
  (← s.query wql).records R s.access

/-- A blank instance of a class. -/
def spawn (className : String) : Action σ Handle := do
  s.access.spawn (← s.getObject className)

/-- A new instance of a class with the fields of a record. -/
def create {R : Type} [Record R] (className : String) (r : R) : Action σ Handle := do
  let h ← s.spawn className
  s.access.putAll h r
  return h

/-- The class definition of an object. -/
def classOf (h : Handle) : Action σ Handle := do
  s.getObject (← s.access.className h)

end Service

end CimBroker
