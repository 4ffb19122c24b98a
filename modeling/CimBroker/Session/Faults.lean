/-
# CimBroker.Session.Faults — connections that fail as planned

A plan says which round trips of a connection fail, and how: each fault names a kind of round trip,
its number among those of its kind, and the error.  A round trip that fails counts like any other
and does not reach the broker.

Reads and writes of single properties never fail by plan and are not counted.

`FaultPlan.strike` says whether a round trip fails, and `Connection.failing` is the connection with
the plan.  It is one of many ways to fail; the theorems on sessions hold for all of them.
-/
import CimBroker.Record.FieldTable
import CimBroker.Session.Connection

namespace CimBroker

/-- The kinds of round trip that can be planned to fail. -/
inductive TripKind where
  | query
  | enumerate
  | fetch
  | invoke
  | next
  deriving DecidableEq, Repr

/-- The kind of a round trip, if it is one that can be planned to fail. -/
def RoundTrip.kind? : RoundTrip → Option TripKind
  | query _ => some .query
  | enumerate _ => some .enumerate
  | fetch _ => some .fetch
  | invoke _ _ => some .invoke
  | next _ => some .next
  | get _ _ => none
  | put _ _ _ => none

/-- A planned failure. -/
structure Fault where
  kind : TripKind
  /-- The number of the round trip among those of its kind, from one. -/
  number : Nat
  error : Error
  deriving DecidableEq, Repr

/-- The failures to come, and what has been made so far. -/
structure FaultPlan where
  faults : List Fault := []
  /-- The kinds of the round trips made, latest first. -/
  made : List TripKind := []
  deriving DecidableEq, Repr

namespace FaultPlan

/-- Counts a round trip, which fails if its number is that of a fault of its kind. -/
def strike (plan : FaultPlan) (kind : TripKind) : Except Error Unit × FaultPlan :=
  let made := kind :: plan.made
  let fault := plan.faults.find? fun f => f.kind == kind && f.number == made.count kind
  (fault.elim (.ok ()) fun f => .error f.error, { plan with made := made })

end FaultPlan

/-- The connection with the failures of a plan that is kept in the state. -/
def Connection.failing {σ : Type} (place : Lens σ FaultPlan) (c : Connection σ) : Connection σ :=
  c.guarded fun trip =>
    match trip.kind? with
    | none => return ()
    | some kind =>
      Action.ofRun fun s =>
        let struck := (place.view s).strike kind
        (struck.1, place.put struck.2 s)

end CimBroker
