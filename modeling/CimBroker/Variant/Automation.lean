/-
# CimBroker.Variant.Automation — arrays as the automation runtime lays them out

The automation runtime builds arrays of most element types, but none of signed bytes and none of
32-bit floating-point numbers.  Signed bytes are widened to 16 bits and the numbers to 64 bits; the
receiver narrows them to the declared type.  Arrays of objects have no layout.

`AutomationArray.ofArray` picks the layout by the element tag.  How the runtime keeps its arrays in
memory is left out, and so is the way back.
-/
import CimBroker.Variant.Basic

namespace CimBroker

/-- An array in the layout of the runtime. -/
inductive AutomationArray where
  | texts (items : List String)
  | bools (items : List Bool)
  | bytes (items : List (BitVec 8))
  | integers (signed : Bool) (width : Number.Width) (items : List (BitVec width.bits))
  | doubles (items : List Number.Double)
  deriving DecidableEq, Repr

namespace AutomationArray

/-- The items that `pick` takes out of an array, all of which it has to take. -/
def collect {α : Type} (pick : Scalar → Option α) (a : VariantArray) : Except Error (List α) :=
  a.items.mapM fun s =>
    (pick s).elim (.error (.typeConversion s.varType.name "array element")) .ok

/-- The bits of an integer with the given reading and width. -/
def word? (signed : Bool) (width : Number.Width) : Scalar → Option (BitVec width.bits)
  | .integer s w word =>
    if h : w = width then (if s = signed then some (h ▸ word) else none) else none
  | _ => none

/-- The layout of an array. -/
def ofArray (a : VariantArray) : Except Error AutomationArray :=
  match a.element with
  | .text => texts <$> collect (fun | .text s => some s | _ => none) a
  | .bool => bools <$> collect (fun | .bool p => some (Scalar.holds p) | _ => none) a
  | .integer false .w8 => bytes <$> collect (word? false .w8) a
  | .integer true .w8 =>
    integers true .w16 <$> collect (fun s => (word? true .w8 s).map (BitVec.signExtend 16)) a
  | .integer signed width => integers signed width <$> collect (word? signed width) a
  | .single => doubles <$> collect (fun | .single x => some x.widen | _ => none) a
  | .double => doubles <$> collect (fun | .double x => some x | _ => none) a
  | .object => throw (.typeConversion a.typeName "automation array")

/-- The number of items. -/
def size : AutomationArray → Nat
  | texts items => items.length
  | bools items => items.length
  | bytes items => items.length
  | integers _ _ items => items.length
  | doubles items => items.length

end AutomationArray

end CimBroker
