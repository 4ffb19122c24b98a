/-
# CimBroker.Json.Basic — JSON documents

A document is a tree.  Numbers keep the characters they are written with, since the same number as
an integer, as a large integer and as a fraction is accepted in different places; members of objects
keep their written order and may repeat a name.

A text whose escapes name half of a surrogate pair has no characters.  It may stand where nobody
looks at it, so such a text is part of the tree, as `none`.

*Structures* are read from objects by the names of their fields, or from arrays by position.  The
functions at the end take the values of the fields apart.

`Json.fields?` takes the fields of a structure, and `Json.text?`, `Json.natBelow?`,
`Json.list?` and `Json.option?` their values.  What a field is for is left to the modules of the
records.
-/
import CimBroker.Number.Binary
import CimBroker.Number.Decimal

namespace CimBroker

/-- A JSON document. -/
inductive Json where
  | null
  | bool (b : Bool)
  | number (literal : List Char)
  | text (s : Option String)
  | array (items : List Json)
  | object (members : List (Option String × Json))
  deriving Repr, Inhabited

namespace Json

/-- The document of a text. -/
def ofText (s : String) : Json := text (some s)

def ofInt (n : Int) : Json := number (Number.decimalInt n)

def ofNat (n : Nat) : Json := number (Number.decimal n)

/-- The document of a floating-point number; infinities and words that are not a number have
none. -/
def ofDouble (x : Number.Double) : Json :=
  if x.isFinite then number x.scientific else null

/-- An object with the given members. -/
def ofMembers (members : List (String × Json)) : Json :=
  object (members.map fun entry => (some entry.1, entry.2))

/-- The document of a value that may be missing. -/
def ofOption {α : Type} (f : α → Json) : Option α → Json
  | none => null
  | some x => f x

/-! ## Structures -/

/-- The values of the named fields: an object's members, each name at most once and further names
ignored, or an array's items in the order of the names.  A field without a value is `none`. -/
def fields? (names : List String) : Json → Option (List (Option Json))
  | object members => do
    let named ← members.mapM fun member => member.1.map fun name => (name, member.2)
    names.mapM fun name =>
      match named.filter fun member => member.1 == name with
      | [] => some none
      | [member] => some (some member.2)
      | _ => none
  | array items =>
    if items.length ≤ names.length then
      some (items.map some ++ List.replicate (names.length - items.length) none)
    else none
  | _ => none

/-- A text. -/
def text? : Json → Option String
  | text s => s
  | _ => none

/-- A natural number in plain digits, below a bound. -/
def natBelow? (bound : Nat) : Json → Option Nat
  | number literal =>
    match Number.ofDecimal? literal with
    | some n => if n < bound then some n else none
    | none => none
  | _ => none

/-- A list of documents read one by one. -/
def list? {α : Type} (item? : Json → Option α) : Json → Option (List α)
  | array items => items.mapM item?
  | _ => none

/-- A value or `null`. -/
def option? {α : Type} (value? : Json → Option α) : Json → Option (Option α)
  | null => some none
  | j => (value? j).map some

end Json

end CimBroker
