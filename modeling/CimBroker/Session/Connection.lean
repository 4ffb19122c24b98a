/-
# CimBroker.Session.Connection — what a broker offers to a session

A connection answers queries, lists the instances of a class, finds objects by path and calls
methods.  It is a record of actions over the states of whatever is behind it, so what is proved
about sessions holds for every broker, and for every way in which one fails.

`Connection.guarded` puts a check before every round trip.  A check that fails takes the place of
the round trip; one that counts or writes down what passes leaves everything else as it was.

`Connection` is that record, and `Connector` the way to one.  Nothing is assumed of it: it may
answer two equal questions differently, and change between any two.
-/
import CimBroker.Object.Access

namespace CimBroker

/-- The account for a connection to another machine. -/
structure Credentials where
  user : String
  password : String
  deriving DecidableEq, Repr

/-- What a broker offers to a session. -/
structure Connection (σ : Type) extends ObjectAccess σ where
  /-- Runs a query. -/
  query : String → Action σ Cursor
  /-- Lists the instances of a class. -/
  enumerate : String → Action σ Cursor
  /-- Finds a class definition or an instance by its path. -/
  fetch : String → Action σ (Option Handle)
  /-- Calls a method of the object at a path. -/
  invoke : String → String → Option Handle → Action σ (Option Handle)

/-- Opens a connection to a namespace, on a server if one is given. -/
abbrev Connector (σ : Type) :=
  Option String → String → Option Credentials → Action σ (Connection σ)

/-- The round trips of a connection. -/
inductive RoundTrip where
  | query (wql : String)
  | enumerate (className : String)
  | fetch (path : String)
  | invoke (path method : String)
  | next (cursor : Cursor)
  | get (h : Handle) (name : String)
  | put (h : Handle) (name : String) (value : Variant)
  deriving DecidableEq, Repr

/-- The connection with a check before every round trip. -/
def Connection.guarded {σ : Type} (check : RoundTrip → Action σ Unit) (c : Connection σ) :
    Connection σ :=
  { c with
    query := fun wql => do check (.query wql); c.query wql
    enumerate := fun className => do check (.enumerate className); c.enumerate className
    fetch := fun path => do check (.fetch path); c.fetch path
    invoke := fun path method inputs => do check (.invoke path method); c.invoke path method inputs
    next := fun cursor => do check (.next cursor); c.next cursor
    get := fun h name => do check (.get h name); c.get h name
    put := fun h name value => do check (.put h name value); c.put h name value }

end CimBroker
