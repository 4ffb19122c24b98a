/-
# CimBroker.Variant.DataType — the types of a client's own values

A client works with values of a few native types: truth values, integers, floating-point numbers,
text, timestamps, objects, raw tagged values, and optional values and lists of these.  The types are
codes of an inductive type, and `DataType.Value` gives the Lean type that a code stands for;
encoding and decoding (`CimBroker.Variant.Codec`) are then functions on codes.

*Atoms* are the types whose values can also be packed into a tagged array.

An optional type may hold another one, and then there is more than one way to hold nothing; what
travels does not keep these apart.
-/
import CimBroker.Time.WireText
import CimBroker.Variant.CimType

namespace CimBroker

/-- The types that can be items of a tagged array. -/
inductive AtomType where
  | bool
  | integer (signed : Bool) (width : Number.Width)
  | single
  | double
  | text
  deriving DecidableEq, Repr

namespace AtomType

/-- The values of an atom type.  Integers are rows of bits, read as the type says. -/
@[reducible] def Value : AtomType → Type
  | bool => Bool
  | integer _ width => BitVec width.bits
  | single => Number.Single
  | double => Number.Double
  | text => String

/-- The value that stands for nothing. -/
def blank : (a : AtomType) → a.Value
  | bool => false
  | integer _ _ => 0
  | single => Number.Binary.zero
  | double => Number.Binary.zero
  | text => ""

/-- The tag under which values of the type travel. -/
def carrier : AtomType → VarType
  | bool => .bool
  | integer true .w8 => .integer true .w16
  | integer true .w16 => .integer true .w16
  | integer false .w8 => .integer false .w8
  | integer false .w16 => .integer true .w32
  | integer _ .w32 => .integer true .w32
  | integer _ .w64 => .text
  | single => .single
  | double => .double
  | text => .text

/-- The base type that a class declares for values of the type. -/
def declared : AtomType → CimBase
  | bool => .boolean
  | integer signed width => .integer signed width
  | single => .real32
  | double => .real64
  | text => .string

/-- A type and the base type declared for it have one carrier. -/
theorem carrier?_declared (a : AtomType) : a.declared.carrier? = some a.carrier := by
  cases a with
  | integer signed width => cases signed <;> cases width <;> rfl
  | _ => rfl

end AtomType

/-- The types of a client's values. -/
inductive DataType where
  | atom (a : AtomType)
  | datetime
  | variant
  | handle
  | optional (t : DataType)
  | list (t : DataType)
  deriving DecidableEq, Repr

namespace DataType

abbrev bool : DataType := atom .bool

abbrev uint16 : DataType := atom (.integer false .w16)

abbrev uint32 : DataType := atom (.integer false .w32)

abbrev uint64 : DataType := atom (.integer false .w64)

abbrev text : DataType := atom .text

/-- The values of a type. -/
@[reducible] def Value : DataType → Type
  | atom a => a.Value
  | datetime => Time.Timestamp
  | variant => Variant
  | handle => Handle
  | optional t => Option t.Value
  | list t => List t.Value

/-- The value that stands for nothing. -/
def blank : (t : DataType) → t.Value
  | atom a => a.blank
  | datetime => none
  | variant => .null
  | handle => ⟨0⟩
  | optional _ => none
  | list _ => []

/-- Whether values of the type are objects, so that a reference is to be resolved to the object it
names. -/
def isObjectHandle : DataType → Bool
  | handle => true
  | optional t => t.isObjectHandle
  | _ => false

end DataType

end CimBroker
