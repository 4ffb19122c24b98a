/-
# CimBroker.Record.Mapping — writing records onto objects and reading them back

Writing puts the fields of a record onto an object one by one in table order.  Fields that the
object's class does not declare and fields without a value worth writing are passed over, which
leaves the property as it is; the first refused put ends the writing.

Reading takes one look at the object, decodes the fields that it has, leaves the others blank, and
then asks for path and class if the table has a place for one of them.

`ObjectAccess.putAll` and `ObjectAccess.getAll` are the two, over any backend.  Neither takes back
what it has done when it fails half way.
-/
import CimBroker.Object.Access
import CimBroker.Record.FieldTable

namespace CimBroker.ObjectAccess

variable {σ R : Type} (access : ObjectAccess σ)

/-- Writes the fields of a record that the object declares. -/
def putFields (h : Handle) (declared : PropertyBag) (r : R) : List (Field R) → Action σ Unit
  | [] => return ()
  | f :: fields => do
    if declared.contains f.name then
      match f.encode? r with
      | some v => access.put h f.name v
      | none => pure ()
    putFields h declared r fields

/-- Writes a record onto an object. -/
def putAll [Record R] (h : Handle) (r : R) : Action σ Unit := do
  let declared ← access.properties h
  access.putFields h declared r (Record.table (R := R)).fields

/-- The record with the fields that a bag has. -/
def readFields (bag : PropertyBag) (r : R) : List (Field R) → Except Error R
  | [] => .ok r
  | f :: fields =>
    match bag.get? f.name with
    | none => readFields bag r fields
    | some v => (f.decode r v).bind fun r => readFields bag r fields

/-- Reads a record from an object. -/
def getAll (R : Type) [Record R] (h : Handle) : Action σ R := do
  let table := Record.table (R := R)
  let bag ← access.properties h
  let r ← Action.ofExcept (readFields bag Record.blank table.fields)
  if table.identities.isEmpty then return r
  else
    let path ← access.path? h
    let className ← access.className h
    return table.identify (path.getD "") className r

end CimBroker.ObjectAccess
