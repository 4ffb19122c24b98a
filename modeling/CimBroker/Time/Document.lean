/-
# CimBroker.Time.Document — timestamps in JSON

In a JSON document a timestamp is a text in the format of the Internet, and `null` when it is unset.
A stamp whose zone does not fit the wire format is refused.

`Timestamp.toJson` and `Timestamp.ofJson?` are the two directions.  A stamp that came from the wire
with a wider zone is written all the same (`CimBroker.Proofs.ZoneOffsets`).
-/
import CimBroker.Json.Basic
import CimBroker.Time.WireText

namespace CimBroker.Time.Timestamp

/-- A timestamp as JSON. -/
def toJson : Timestamp → Json
  | none => .null
  | some s => .ofText s.internetText

/-- A timestamp from JSON. -/
def ofJson? : Json → Option Timestamp
  | .null => some none
  | j => do
    let stamp ← Stamp.ofInternetText? (← j.text?)
    (ofStamp stamp).toOption

/-- A timestamp from JSON, or the error that the document is not one. -/
def ofJson (j : Option Json) : Except Error Timestamp :=
  match j.bind ofJson? with
  | some t => .ok t
  | none => .error .json

end CimBroker.Time.Timestamp
