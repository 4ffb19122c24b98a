/-
# CimBroker.Session.Results — the results of a query, one after another

Results are read through a cursor until the broker reports the last one.  From then on they are
done, and asking for more reaches the broker no more.  A failure to read one result, or to decode
it, ends nothing: the next call goes on where the cursor stands.

`Results.next`, `Results.nextRecord` and `Results.nextItem` ask for the next result in three ways.
Reading all of them (`Results.recordsWithin`) is bounded by what the cursor states to be left of it,
and stops early where that was stated too low.
-/
import CimBroker.Record.Mapping
import CimBroker.Session.Connection

namespace CimBroker

/-- The results of a query, as far as they have not been read. -/
structure Results where
  /-- The cursor, until the end has been reported. -/
  cursor? : Option Cursor
  deriving DecidableEq, Repr

namespace Results

variable {σ : Type}

def ofCursor (c : Cursor) : Results := ⟨some c⟩

def isDone (r : Results) : Bool := r.cursor?.isNone

/-- The next object, or nothing at the end, and the results after it. -/
def next (access : ObjectAccess σ) (r : Results) : Action σ (Option Handle × Results) := do
  match r.cursor? with
  | none => return (none, r)
  | some cursor =>
    match ← access.next cursor with
    | some h => return (some h, r)
    | none => return (none, ⟨none⟩)

/-- The next object as a record, or nothing at the end, and the results after it. -/
def nextRecord (R : Type) [Record R] (access : ObjectAccess σ) (r : Results) :
    Action σ (Option R × Results) := do
  let (found, rest) ← r.next access
  match found with
  | some h => return (some (← access.getAll R h), rest)
  | none => return (none, rest)

/-- Reads on in place: the results become those after the read, and stay what they are if it
fails. -/
def advance {α : Type} (read : Results → Action σ (α × Results)) : Action (Results × σ) α :=
  Action.ofRun fun st =>
    match (read st.1).run st.2 with
    | (.ok (x, rest), s) => (.ok x, rest, s)
    | (.error e, s) => (.error e, st.1, s)

/-- The next item of an iteration: an object or a failure to read one, and nothing at the end. -/
def nextItem (access : ObjectAccess σ) : StateM (Results × σ) (Option (Except Error Handle)) := do
  match ← (advance fun r => r.next access).outcome with
  | .ok (some h) => return some (.ok h)
  | .ok none => return none
  | .error e => return some (.error e)

/-- A bound on the number of objects that are left. -/
def bound (access : ObjectAccess σ) (r : Results) (s : σ) : Nat :=
  match r.cursor? with
  | some cursor => access.remaining s cursor
  | none => 0

/-- Does something with each remaining object in turn, for at most `fuel` of them. -/
def forEachWithin (access : ObjectAccess σ) (visit : Handle → Action σ Unit) :
    (fuel : Nat) → Results → Action σ Results
  | 0, r => return r
  | fuel + 1, r => do
    let (found, rest) ← r.next access
    match found with
    | some h => do
      visit h
      forEachWithin access visit fuel rest
    | none => return rest

/-- All remaining objects as records, for at most `fuel` of them. -/
def recordsWithin (R : Type) [Record R] (access : ObjectAccess σ) :
    (fuel : Nat) → Results → Action σ (List R)
  | 0, _ => return []
  | fuel + 1, r => do
    let (found, rest) ← r.nextRecord R access
    match found with
    | some record => return record :: (← recordsWithin R access fuel rest)
    | none => return []

/-- All remaining objects as records, up to the first that cannot be read. -/
def records (R : Type) [Record R] (access : ObjectAccess σ) (r : Results) : Action σ (List R) := do
  r.recordsWithin R access (r.bound access (← Action.state) + 1)

end Results

end CimBroker
