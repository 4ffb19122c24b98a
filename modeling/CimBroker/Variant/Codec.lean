/-
# CimBroker.Variant.Codec — a client's values as tagged values, and back

*Encoding* puts a value into the carrier of its type: 8-bit signed numbers into 16 bits, unsigned
16-bit numbers into signed 32 bits, unsigned 32-bit numbers bit for bit into signed 32 bits, and
64-bit numbers into decimal text.  A list becomes an array under the carrier of its items; only the
empty list of texts has two forms, nothing when it stands alone and an empty array when it is
explicitly present inside an optional value.

*Decoding* is led by the type that is wanted.  Nothing decodes to the blank value of the type; an
integer type takes any tagged integer in its range, and text that spells one; and a signed word
decodes into the unsigned type of its own width bit for bit.

`DataType.encode` and `DataType.decode` are the two directions, and `DataType.isSuppressed` tells
the values that are not worth writing.  Which values come back is said in
`CimBroker.Proofs.Faithful` and `CimBroker.Proofs.RecordRoundTrip`; not all of them do.
-/
import CimBroker.Variant.DataType

namespace CimBroker

/-! ## Encoding -/

/-- An integer in its carrier. -/
def AtomType.encodeInteger : (signed : Bool) → (width : Number.Width) → BitVec width.bits → Scalar
  | true, .w8, x => .integer true .w16 (x.signExtend 16)
  | true, .w16, x => .integer true .w16 x
  | true, .w32, x => .integer true .w32 x
  | false, .w8, x => .integer false .w8 x
  | false, .w16, x => .integer true .w32 (x.zeroExtend 32)
  | false, .w32, x => .integer true .w32 x
  | signed, .w64, x => .text (String.ofList (Number.decimalInt (Number.wordValue signed x)))

/-- An atom in its carrier. -/
def AtomType.encode : (a : AtomType) → a.Value → Scalar
  | .bool, b => .bool (Scalar.pattern b)
  | .integer signed width, x => encodeInteger signed width x
  | .single, x => .single x
  | .double, x => .double x
  | .text, s => .text s

namespace DataType

/-- A value as a tagged value, standing alone or explicitly present.  Lists of anything but atoms
have no tagged form. -/
def encodeAs (isPresent : Bool) : (t : DataType) → t.Value → Variant
  | atom a, x => .scalar (a.encode x)
  | datetime, x => x.encode.elim .null .text
  | variant, x => x
  | handle, x => .object x
  | optional _, none => .null
  | optional t, some x => encodeAs true t x
  | list (atom a), xs =>
    if a = .text ∧ xs.isEmpty ∧ !isPresent then .null
    else .array ⟨a.carrier, xs.map a.encode⟩
  | list _, _ => .null

/-- A value as a tagged value. -/
def encode (t : DataType) (x : t.Value) : Variant := t.encodeAs false x

/-- A value as a tagged value, where it is explicitly present. -/
def encodePresent (t : DataType) (x : t.Value) : Variant := t.encodeAs true x

/-- Whether a value is left out when a record is written: empty text and absent values. -/
def isSuppressed : (t : DataType) → t.Value → Bool
  | atom .text, s => s == ""
  | optional _, none => true
  | optional t, some x => t.isSuppressed x
  | _, _ => false

end DataType

/-! ## Decoding -/

/-- The error of a text that does not spell a value of the wanted kind. -/
def unreadableText (s target : String) : Error :=
  .typeConversion ("VT_BSTR " ++ Text.quoted s) target

/-- The number of an integer, or of a text that spells one. -/
def Variant.integer (target : String) : Variant → Except Error Int
  | .scalar (.integer signed _ word) => .ok (Number.wordValue signed word)
  | .text s =>
    match Number.integer? s.toList with
    | some n => .ok n
    | none => .error (unreadableText s target)
  | other => .error (.typeConversion other.typeName target)

namespace AtomType

/-- The name of an integer type in messages. -/
def integerName (signed : Bool) (width : Number.Width) : String :=
  (if signed then "i" else "u") ++ toString width.bits

/-- A number as a word, or the error that it is out of range. -/
def fitInteger (signed : Bool) (width : Number.Width) (v : Variant) (n : Int) :
    Except Error (BitVec width.bits) :=
  match Number.word? signed width n with
  | some word => .ok word
  | none =>
    .error (.typeConversion (v.typeName ++ " " ++ String.ofList (Number.decimalInt n))
      (integerName signed width))

/-- The bits of a signed word of the given width. -/
def signedWord? (width : Number.Width) : Variant → Option (BitVec width.bits)
  | .scalar (.integer true w word) => if h : w = width then some (h ▸ word) else none
  | _ => none

/-- Decodes an integer.  An unsigned type takes a signed word of its width bit for bit. -/
def decodeInteger (signed : Bool) (width : Number.Width) (v : Variant) :
    Except Error (BitVec width.bits) :=
  if v.isNull then .ok 0
  else
    match if signed then none else signedWord? width v with
    | some word => .ok word
    | none => (v.integer (integerName signed width)).bind (fitInteger signed width v)

/-- Decodes a 64-bit floating-point number. -/
def decodeDouble : Variant → Except Error Number.Double
  | .null => .ok Number.Binary.zero
  | .scalar (.single x) => .ok x.widen
  | .scalar (.double x) => .ok x
  | .text s =>
    match Number.double? (Text.trim s.toList) with
    | some x => .ok x
    | none => .error (unreadableText s "f64")
  | other => (other.integer "f64").map Number.Binary.ofInt

/-- Decodes text.  Numbers and truth values decode to their text, objects and arrays have none. -/
def decodeText : Variant → Except Error String
  | .null => .ok ""
  | .text s => .ok s
  | .bool p => .ok (Scalar.boolText (Scalar.holds p))
  | .scalar (.single x) => .ok (String.ofList x.plain)
  | .scalar (.double x) => .ok (String.ofList x.plain)
  | .scalar (.integer signed _ word) =>
    .ok (String.ofList (Number.decimalInt (Number.wordValue signed word)))
  | other => .error (.typeConversion other.typeName "String")

/-- Decodes an atom. -/
def decode : (a : AtomType) → Variant → Except Error a.Value
  | .bool, .null => .ok false
  | .bool, .bool p => .ok (Scalar.holds p)
  | .bool, other => (other.integer "bool").map fun n => n != 0
  | .integer signed width, v => decodeInteger signed width v
  | .single, .scalar (.single x) => .ok x
  | .single, other => (decodeDouble other).map Number.Binary.narrow
  | .double, v => decodeDouble v
  | .text, v => decodeText v

end AtomType

namespace DataType

/-- Decodes a value of the wanted type.  One item that does not decode fails a whole list. -/
def decode : (t : DataType) → Variant → Except Error t.Value
  | atom a, v => a.decode v
  | datetime, .null => .ok none
  | datetime, .text s => Time.Timestamp.parse s
  | datetime, other => .error (.typeConversion other.typeName "CIM datetime")
  | variant, v => .ok v
  | handle, .object h => .ok h
  | handle, other => .error (.typeConversion other.typeName "embedded instance")
  | optional _, .null => .ok none
  | optional t, other => (t.decode other).map some
  | list _, .null => .ok []
  | list t, .array a => a.items.mapM fun s => t.decode (.scalar s)
  | list _, other => .error (.typeConversion other.typeName "array")

end DataType

end CimBroker
