/-
# CimBroker.Variant.CimType — what a class declares

A property or parameter is declared with a base type, or with arrays of one.  Each base type is
carried under one tag; several share a tag, so that 8-bit signed numbers travel in 16 bits, unsigned
16-bit and 32-bit numbers in signed 32 bits, and 64-bit numbers as text.

`CimType.accepts` says which values a declaration admits: nothing, or exactly its carrier.

`CimType.name` and `CimType.toCode` write a declaration down, and
`CimType.ofName?` and `CimType.ofCode` read it.  Qualifiers, default values and sizes of arrays are
no part of it.
-/
import CimBroker.Variant.Basic

namespace CimBroker

/-- The base types that can be declared. -/
inductive CimBase where
  | empty
  | integer (signed : Bool) (width : Number.Width)
  | real32
  | real64
  | boolean
  | string
  | dateTime
  | reference
  | char16
  | object
  deriving DecidableEq, Repr

namespace CimBase

/-- The name of a base type. -/
def name : CimBase → String
  | empty => "Empty"
  | integer signed width => (if signed then "SInt" else "UInt") ++ toString width.bits
  | real32 => "Real32"
  | real64 => "Real64"
  | boolean => "Boolean"
  | string => "String"
  | dateTime => "DateTime"
  | reference => "Reference"
  | char16 => "Char16"
  | object => "Object"

/-- Every base type. -/
def all : List CimBase :=
  [empty] ++
  Number.Width.all.flatMap (fun width => [integer true width, integer false width]) ++
  [real32, real64, boolean, string, dateTime, reference, char16, object]

/-- The number of a base type on the wire. -/
def toCode : CimBase → Nat
  | empty => 0
  | integer true .w8 => 16
  | integer false .w8 => 17
  | integer true .w16 => 2
  | integer false .w16 => 18
  | integer true .w32 => 3
  | integer false .w32 => 19
  | integer true .w64 => 20
  | integer false .w64 => 21
  | real32 => 4
  | real64 => 5
  | boolean => 11
  | string => 8
  | dateTime => 101
  | reference => 102
  | char16 => 103
  | object => 13

/-- The base type of a number; numbers without a meaning stand for `empty`. -/
def ofCode (code : Nat) : CimBase :=
  (all.find? fun base => base.toCode == code).getD empty

/-- The tag under which values of the base type travel. -/
def carrier? : CimBase → Option VarType
  | empty => none
  | integer true .w8 => some (.integer true .w16)
  | integer true .w16 => some (.integer true .w16)
  | char16 => some (.integer true .w16)
  | integer false .w8 => some (.integer false .w8)
  | integer false .w16 => some (.integer true .w32)
  | integer _ .w32 => some (.integer true .w32)
  | integer _ .w64 => some .text
  | real32 => some .single
  | real64 => some .double
  | boolean => some .bool
  | string => some .text
  | dateTime => some .text
  | reference => some .text
  | object => some .object

end CimBase

/-- A declared type: a base type, or arrays of it. -/
structure CimType where
  base : CimBase
  isArray : Bool
  deriving DecidableEq, Repr

namespace CimType

abbrev scalarOf (base : CimBase) : CimType := ⟨base, false⟩

abbrev arrayOf (base : CimBase) : CimType := ⟨base, true⟩

def isReference (t : CimType) : Bool := t.base == .reference

def isObject (t : CimType) : Bool := t.base == .object

/-- The name of a declared type. -/
def name (t : CimType) : String :=
  t.base.name ++ if t.isArray then "[]" else ""

/-- The declared type of a name. -/
def ofName? (name : String) : Option CimType :=
  (CimBase.all.flatMap fun base => [scalarOf base, arrayOf base]).find? fun t => t.name == name

/-- The bit that marks arrays in the number of a declared type. -/
def arrayBit : BitVec 32 := 0x2000

/-- The number of a declared type. -/
def toCode (t : CimType) : BitVec 32 :=
  BitVec.ofNat 32 t.base.toCode ||| if t.isArray then arrayBit else 0

/-- The declared type of a number. -/
def ofCode (code : BitVec 32) : CimType :=
  ⟨.ofCode (code &&& ~~~ arrayBit).toNat, (code &&& arrayBit) != 0⟩

/-- Whether a declaration admits a value. -/
def accepts (t : CimType) : Variant → Bool
  | .null => true
  | .scalar s => !t.isArray && t.base.carrier? == some s.varType
  | .array a => t.isArray && t.base.carrier? == some a.element

end CimType

end CimBroker
