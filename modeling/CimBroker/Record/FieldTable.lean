/-
# CimBroker.Record.FieldTable — how a record type maps onto properties

A record type is described by a table.  Each field pairs the name of a property with the type of its
values and with a lens into the record; a record that is part of another contributes its fields at
the place where it is embedded.  Besides fields there are identities, which receive the path or the
class of the object that a record is read from and are never written.

Fields and identities also have a label, the way to them by name from the outermost record.

`FieldTable` is the table, `FieldTable.embed` puts that of a part into it, and `Record` ties a table
to a type.  Nothing here keeps two fields from having one name or one place: tables in which they do
not are the `FieldTable.Regular` ones of `CimBroker.Proofs.RecordRoundTrip`.
-/
import CimBroker.Variant.Codec

namespace CimBroker

/-- A place in a record: how to look at it, and how to put a value there. -/
structure Lens (R α : Type) where
  view : R → α
  put : α → R → R

namespace Lens

variable {R E α : Type}

/-- The place of a part's place. -/
def comp (outer : Lens R E) (inner : Lens E α) : Lens R α :=
  ⟨fun r => inner.view (outer.view r), fun x r => outer.put (inner.put x (outer.view r)) r⟩

end Lens

/-- A field of a record and the property it maps onto. -/
structure Field (R : Type) where
  /-- The name of the property. -/
  name : String
  label : List String
  type : DataType
  place : Lens R type.Value

/-- What an identity of a record receives. -/
inductive IdentityKind where
  | path
  | className
  deriving DecidableEq, Repr

/-- A place in a record that receives an identity of the object. -/
structure Identity (R : Type) where
  kind : IdentityKind
  label : List String
  place : Lens R String

/-- The fields and identities of a record type. -/
structure FieldTable (R : Type) where
  fields : List (Field R)
  identities : List (Identity R)

/-- Record types with a table, and the record that reading starts from. -/
class Record (R : Type) where
  blank : R
  table : FieldTable R

namespace Field

variable {R E : Type}

/-- The tagged value of a field, unless it is left out on writing. -/
def encode? (f : Field R) (r : R) : Option Variant :=
  let x := f.place.view r
  if f.type.isSuppressed x then none else some (f.type.encode x)

/-- The record with a field read from a tagged value. -/
def decode (f : Field R) (r : R) (v : Variant) : Except Error R :=
  (f.type.decode v).map fun x => f.place.put x r

/-- The field of an embedded record as a field of the outer one. -/
def embed (label : String) (place : Lens R E) (f : Field E) : Field R :=
  ⟨f.name, label :: f.label, f.type, place.comp f.place⟩

end Field

/-- The identity of an embedded record as an identity of the outer one. -/
def Identity.embed {R E : Type} (label : String) (place : Lens R E) (i : Identity E) : Identity R :=
  ⟨i.kind, label :: i.label, place.comp i.place⟩

namespace FieldTable

variable {R E : Type}

def empty : FieldTable R := ⟨[], []⟩

/-- The table with a place for the object's path. -/
def path (t : FieldTable R) (label : String) (place : Lens R String) : FieldTable R :=
  { t with identities := t.identities ++ [⟨.path, [label], place⟩] }

/-- The table with a place for the name of the object's class. -/
def className (t : FieldTable R) (label : String) (place : Lens R String) : FieldTable R :=
  { t with identities := t.identities ++ [⟨.className, [label], place⟩] }

/-- The table with a field. -/
def property (t : FieldTable R) (name label : String) (type : DataType)
    (place : Lens R type.Value) : FieldTable R :=
  { t with fields := t.fields ++ [⟨name, [label], type, place⟩] }

/-- The table with the fields and identities of an embedded record. -/
def embed (t : FieldTable R) (label : String) (inner : FieldTable E) (place : Lens R E) :
    FieldTable R :=
  { fields := t.fields ++ inner.fields.map (Field.embed label place)
    identities := t.identities ++ inner.identities.map (Identity.embed label place) }

/-- The names of the properties, in table order. -/
def names (t : FieldTable R) : List String := t.fields.map Field.name

/-- The record with its identities set. -/
def identify (t : FieldTable R) (path className : String) (r : R) : R :=
  t.identities.foldl
    (fun r i => i.place.put (match i.kind with | .path => path | .className => className) r) r

end FieldTable

end CimBroker
