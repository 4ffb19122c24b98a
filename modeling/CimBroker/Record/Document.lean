/-
# CimBroker.Record.Document — records as JSON

A record is shown as a JSON object with a member for each field, named by the field's label and in
table order; identities are left out.  It is read back from such an object, or from an array of the
values in order.  A field that may be absent, as a timestamp may, need not be there.

Raw tagged values and objects have no JSON form of their own.

`FieldTable.toJson` and `FieldTable.ofJson?` do this for any table.  Members that no field has are
passed over, and that a record comes back from its own document is not claimed.
-/
import CimBroker.Record.FieldTable
import CimBroker.Time.Document

namespace CimBroker

/-- An integer as JSON holds it. -/
def integerOfJson? (signed : Bool) (width : Number.Width) : Json → Option (BitVec width.bits)
  | .number ('-' :: ds) =>
    match Number.ofDecimal? ds with
    | some n => if n = 0 then none else Number.word? signed width (-(n : Int))
    | none => none
  | .number ds => (Number.ofDecimal? ds).bind fun n => Number.word? signed width n
  | _ => none

namespace AtomType

/-- An atom as JSON. -/
def toJson : (a : AtomType) → a.Value → Json
  | .bool, b => .bool b
  | .integer signed _, x => .ofInt (Number.wordValue signed x)
  | .single, x => .ofDouble x.widen
  | .double, x => .ofDouble x
  | .text, s => .ofText s

/-- An atom from JSON. -/
def ofJson? : (a : AtomType) → Json → Option a.Value
  | .bool, .bool b => some b
  | .integer signed width, j => integerOfJson? signed width j
  | .single, .number literal => (Number.double? literal).map Number.Binary.narrow
  | .double, .number literal => Number.double? literal
  | .text, j => j.text?
  | _, _ => none

end AtomType

namespace DataType

/-- A value as JSON. -/
def toJson : (t : DataType) → t.Value → Json
  | atom a, x => a.toJson x
  | datetime, x => x.toJson
  | variant, _ => .null
  | handle, _ => .null
  | optional t, x => .ofOption t.toJson x
  | list t, xs => .array (xs.map t.toJson)

/-- A value from JSON. -/
def ofJson? : (t : DataType) → Json → Option t.Value
  | atom a, j => a.ofJson? j
  | datetime, j => Time.Timestamp.ofJson? j
  | variant, _ => none
  | handle, _ => none
  | optional t, j => Json.option? t.ofJson? j
  | list t, j => Json.list? t.ofJson? j

/-- What a field that is left out holds, for the types whose values may be absent. -/
def absent? : (t : DataType) → Option t.Value
  | datetime => some none
  | optional _ => some none
  | _ => none

end DataType

namespace Field

variable {R : Type}

/-- The name of a field in a document. -/
def memberName (f : Field R) : String := ".".intercalate f.label

/-- The record with a field read from a document. -/
def readJson? (f : Field R) (r : R) (j : Option Json) : Option R :=
  (j.elim f.type.absent? f.type.ofJson?).map fun x => f.place.put x r

end Field

namespace FieldTable

variable {R : Type}

/-- A record as JSON. -/
def toJson (t : FieldTable R) (r : R) : Json :=
  .ofMembers (t.fields.map fun f => (f.memberName, f.type.toJson (f.place.view r)))

/-- A record from JSON, on the basis of a blank one. -/
def ofJson? (t : FieldTable R) (blank : R) (j : Json) : Option R := do
  let values ← j.fields? (t.fields.map Field.memberName)
  (t.fields.zip values).foldlM (fun r entry => entry.1.readJson? r entry.2) blank

end FieldTable

end CimBroker
