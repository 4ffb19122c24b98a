/-
# CimBroker.Variant.Basic — tagged values on the wire

What travels between a client and the broker is a tagged value: nothing, a scalar, or an array of
scalars under one element tag.  A class declares its properties with types of its own
(`CimBroker.Variant.CimType`); this module knows only what is carried.

Integers are kept as rows of bits with a width and a reading (`Number.Word`), floating-point values
as their words (`Number.Binary`), and an embedded object as the handle that names it.

*Two equalities.* Lean's `=` on variants compares them bit for bit.  `Variant.same` is the equality
that programs use: all boolean patterns but zero are alike, floating-point values are compared as
numbers, and objects by handle.

`VariantArray.ofVariants` checks the tags of the items that an array is made of; the type itself
lets an array be put together without the check, as the codec does.
-/
import CimBroker.Number.Decimal
import CimBroker.Error

namespace CimBroker

/-- The name of a live object: a class definition, an instance, or a set of parameters. -/
structure Handle where
  id : Nat
  deriving DecidableEq, Repr, Inhabited

/-- The tag of a scalar. -/
inductive VarType where
  | bool
  | integer (signed : Bool) (width : Number.Width)
  | single
  | double
  | text
  | object
  deriving DecidableEq, Repr

namespace VarType

/-- The number of a width of bytes, and the letter before it for a reading. -/
def integerName (signed : Bool) (width : Number.Width) : String :=
  (if signed then "I" else "UI") ++ toString (width.bits / 8)

/-- The short name of a tag, which heads values in diagnostic form. -/
def shortName : VarType → String
  | bool => "Bool"
  | integer signed width => integerName signed width
  | single => "R4"
  | double => "R8"
  | text => "String"
  | object => "Object"

/-- Every tag. -/
def all : List VarType :=
  [bool, single, double, text, object] ++
    Number.Width.all.flatMap fun width => [integer true width, integer false width]

/-- The tag of a short name. -/
def ofShortName? (name : String) : Option VarType := all.find? fun tag => tag.shortName == name

/-- The name of a tag in messages. -/
def name : VarType → String
  | bool => "VT_BOOL"
  | integer signed width => "VT_" ++ integerName signed width
  | single => "VT_R4"
  | double => "VT_R8"
  | text => "VT_BSTR"
  | object => "VT_UNKNOWN"

end VarType

/-- A tagged value other than nothing and arrays. -/
inductive Scalar where
  /-- Sixteen bits, of which any but zero mean true. -/
  | bool (pattern : BitVec 16)
  | integer (signed : Bool) (width : Number.Width) (word : BitVec width.bits)
  | single (x : Number.Single)
  | double (x : Number.Double)
  /-- Text; timestamps, object paths and 64-bit integers also travel in this form. -/
  | text (s : String)
  | object (h : Handle)
  deriving DecidableEq, Repr

namespace Scalar

/-- The tag of a scalar. -/
def varType : Scalar → VarType
  | bool _ => .bool
  | integer signed width _ => .integer signed width
  | single _ => .single
  | double _ => .double
  | text _ => .text
  | object _ => .object

/-- Whether a boolean pattern means true. -/
def holds (pattern : BitVec 16) : Bool := pattern != 0

/-- The pattern that a boolean is written with. -/
def pattern (b : Bool) : BitVec 16 := if b then -1 else 0

@[simp] theorem holds_pattern (b : Bool) : holds (pattern b) = b := by
  cases b <;> decide

/-- Whether programs take two scalars for equal. -/
def same : Scalar → Scalar → Bool
  | bool p, bool q => holds p == holds q
  | single x, single y => x.sameNumber y
  | double x, double y => x.sameNumber y
  | a, b => a == b

/-- A truth value in text. -/
def boolText (b : Bool) : String := if b then "true" else "false"

/-- The diagnostic form of a scalar. -/
def inspect : Scalar → String
  | bool p => Text.wrapped "Bool" (boolText (holds p))
  | integer signed width word =>
    Text.wrapped (VarType.integerName signed width)
      (String.ofList (Number.decimalInt (Number.wordValue signed word)))
  | single x => Text.wrapped "R4" (String.ofList x.plain)
  | double x => Text.wrapped "R8" (String.ofList x.plain)
  | text s => Text.wrapped "String" (Text.quoted s)
  | object _ => "Object(..)"

end Scalar

/-- Scalars under one element tag. -/
structure VariantArray where
  element : VarType
  items : List Scalar
  deriving DecidableEq, Repr

/-- A tagged value. -/
inductive Variant where
  | null
  | scalar (s : Scalar)
  | array (a : VariantArray)
  deriving DecidableEq, Repr

instance : Inhabited Variant := ⟨.null⟩

namespace VariantArray

/-- The array without items. -/
def empty (element : VarType) : VariantArray := ⟨element, []⟩

/-- Whether programs take two lists of items for equal, one by one. -/
def sameItems : List Scalar → List Scalar → Bool
  | [], [] => true
  | a :: as, b :: bs => a.same b && sameItems as bs
  | _, _ => false

/-- Whether programs take two arrays for equal. -/
def same (a b : VariantArray) : Bool :=
  a.element == b.element && sameItems a.items b.items

/-- The name of an array's tag in messages. -/
def typeName (a : VariantArray) : String := "VT_ARRAY|" ++ a.element.name

/-- The diagnostic form of an array. -/
def inspect (a : VariantArray) : String :=
  Text.labelled "VariantArray"
    [("element", a.element.shortName),
      ("items", "[" ++ ", ".intercalate (a.items.map Scalar.inspect) ++ "]")]

end VariantArray

namespace Variant

@[match_pattern] abbrev bool (pattern : BitVec 16) : Variant := .scalar (.bool pattern)

@[match_pattern] abbrev text (s : String) : Variant := .scalar (.text s)

@[match_pattern] abbrev object (h : Handle) : Variant := .scalar (.object h)

/-- The number `n` in a signed word of 32 bits, the carrier of most declared integers. -/
def int32 (n : Nat) : Variant := .scalar (.integer true .w32 (BitVec.ofNat 32 n))

/-- The tag of a scalar value. -/
def varType? : Variant → Option VarType
  | null => none
  | scalar s => some s.varType
  | array _ => none

def isNull : Variant → Bool
  | null => true
  | _ => false

/-- The text of a text value. -/
def text? : Variant → Option String
  | text s => some s
  | _ => none

theorem eq_text_of_text? {v : Variant} {s : String} (h : v.text? = some s) : v = text s := by
  unfold text? at h
  split at h
  · cases h
    rfl
  · cases h

/-- The name of a value's tag in messages. -/
def typeName : Variant → String
  | null => "VT_NULL"
  | scalar s => s.varType.name
  | array a => a.typeName

/-- Whether programs take two values for equal. -/
def same : Variant → Variant → Bool
  | null, null => true
  | scalar a, scalar b => a.same b
  | array a, array b => a.same b
  | _, _ => false

/-- The diagnostic form of a value. -/
def inspect : Variant → String
  | null => "Null"
  | scalar s => s.inspect
  | array a => Text.wrapped "Array" a.inspect

/-- Texts as an array, also when there are none. -/
def ofTexts (items : List String) : Variant :=
  array ⟨.text, items.map Scalar.text⟩

end Variant

/-- The scalar of a value with the given tag, or the value itself. -/
def Variant.scalarTagged (tag : VarType) : Variant → Except Variant Scalar
  | .scalar s => if s.varType = tag then .ok s else .error (.scalar s)
  | other => .error other

/-- An array of the given values, if all of them are scalars with its element tag. -/
def VariantArray.ofVariants (element : VarType) (items : List Variant) :
    Except Error VariantArray :=
  match items.mapM (Variant.scalarTagged element) with
  | .ok scalars => .ok ⟨element, scalars⟩
  | .error bad => .error (.typeConversion bad.typeName ("array element " ++ element.name))

end CimBroker
