/-
# CimBroker.Proofs.Recorded — connections that write down their round trips

To say how many round trips a routine makes, over whatever connection, the connection is put beside
a trail, and every round trip is written on the trail before it is made.  The connection cannot see
the trail and behaves as it did, so what is proved of recorded connections holds for every behaviour
of the other side: any answers, any failures, any changes of mind from one round trip to the next.

Looking at all properties, spawning, cloning and asking for a signature are no round trips.

`Service.recorded` is that session, and `methodCalls` counts the calls of methods on its trail.
What the round trips were answered is not on the trail; for that there are the journals of
`CimBroker.Proofs.Journal`.
-/
import CimBroker.Broker.Connection
import CimBroker.Proofs.SideBySide

namespace CimBroker

variable {σ α : Type}

namespace Connection

/-- The connection beside a state that it does not touch. -/
def onFirst (τ : Type) (c : Connection σ) : Connection (σ × τ) where
  toObjectAccess := c.toObjectAccess.onFirst τ
  query wql := (c.query wql).onFirst
  enumerate className := (c.enumerate className).onFirst
  fetch path := (c.fetch path).onFirst
  invoke path method inputs := (c.invoke path method inputs).onFirst

/-- Writes a round trip on the trail, latest first. -/
def writeDown (trip : RoundTrip) : Action (σ × List RoundTrip) Unit :=
  Action.change fun s => (s.1, trip :: s.2)

/-- The connection that writes down every round trip before making it. -/
def recorded (c : Connection σ) : Connection (σ × List RoundTrip) :=
  (c.onFirst (List RoundTrip)).guarded writeDown

end Connection

/-- The session over the recorded connection. -/
def Service.recorded (s : Service σ) : Service (σ × List RoundTrip) :=
  ⟨s.connection.recorded, s.config, s.pace⟩

/-- Whether a round trip is the call of a method. -/
def RoundTrip.isInvoke : RoundTrip → Bool
  | .invoke _ _ => true
  | _ => false

/-- The number of method calls on the trail of a recorded connection. -/
def methodCalls (s : σ × List RoundTrip) : Nat := s.2.countP RoundTrip.isInvoke

/-! ## Which operations call methods -/

open CimBroker.Action

namespace Connection

variable (c : Connection σ)

/-- What the connection itself does leaves the trail alone. -/
theorem keeps_beside (action : Action σ α) :
    (Action.onFirst action : Action (σ × List RoundTrip) α).Keeps methodCalls :=
  Keeps.onFirst (List.countP RoundTrip.isInvoke) action

/-- A round trip that is written down and is not the call of a method. -/
theorem keeps_written {trip : RoundTrip} (h : trip.isInvoke = false) (action : Action σ α) :
    (do writeDown trip; Action.onFirst action : Action (σ × List RoundTrip) α).Keeps
      methodCalls := by
  refine Keeps.bind (fun st => ?_) fun _ => keeps_beside action
  show (trip :: st.2).countP RoundTrip.isInvoke = st.2.countP RoundTrip.isInvoke
  rw [List.countP_cons_of_neg]
  simp [h]

/-- Calling a method is one method call, whatever comes of it. -/
theorem methodCalls_invoke (path method : String) (inputs : Option Handle)
    (s : σ × List RoundTrip) :
    methodCalls ((c.recorded.invoke path method inputs).run s).2 = methodCalls s + 1 :=
  List.countP_cons_of_pos rfl

end Connection

/-- Nothing but the call of a method is one, whatever properties are read. -/
theorem Service.recorded_alongside (s : Service σ) (calls : Nat) :
    s.recorded.Alongside (fun _ => True) (ReadsAs methodCalls calls) s.recorded where
  get _ _ _ := (Connection.keeps_written rfl _).parallel calls
  put _ _ _ := (Connection.keeps_written rfl _).parallel calls
  spawn _ := (Connection.keeps_beside _).parallel calls
  text _ := (Connection.keeps_beside _).parallel calls
  signature _ _ := (Connection.keeps_beside _).parallel calls
  next _ := (Connection.keeps_written rfl _).parallel calls
  query _ := (Connection.keeps_written rfl _).parallel calls
  enumerate _ := (Connection.keeps_written rfl _).parallel calls
  fetch _ := (Connection.keeps_written rfl _).parallel calls
  config := rfl
  pace := rfl
  path := trivial
  className := trivial

end CimBroker
