/-
# CimBroker.Object.Display — objects as JSON

For display an object becomes a JSON object of its properties, those of the system left out, sorted
by name; of two properties with one name the later counts.  An embedded object is looked at when it
is met and shown in its place; one that cannot be looked at shows as `null`.

The backend bounds how deep objects are nested, and the recursion over nested objects counts that
bound down.

`Variant.toJsonWith` shows a value, given how its scalars are shown, and `ObjectAccess.scalarJson`
ties the knot.  There is no way back: what is shown cannot be read as an object.
-/
import CimBroker.Json.Writer
import CimBroker.Object.Access
import CimBroker.Table

namespace CimBroker

/-- A scalar other than an object as JSON. -/
def Scalar.toJson : Scalar → Json
  | .bool p => .bool (holds p)
  | .integer signed _ word => .ofInt (Number.wordValue signed word)
  | .single x => .ofDouble x.widen
  | .double x => .ofDouble x
  | .text s => .ofText s
  | .object _ => .null

variable {σ : Type}

/-- A value as JSON, given its scalars. -/
def Variant.toJsonWith (scalarJson : Scalar → Action σ Json) : Variant → Action σ Json
  | .null => return .null
  | .scalar s => scalarJson s
  | .array a => return .array (← a.items.mapM scalarJson)

/-- A bag as JSON, given its scalars. -/
def PropertyBag.toJsonWith (scalarJson : Scalar → Action σ Json) (bag : PropertyBag) :
    Action σ Json := do
  let shown := bag.properties.filter fun p => !isSystemName p.name
  let members ← shown.mapM fun p => return (p.name, ← p.value.toJsonWith scalarJson)
  return .ofMembers (Table.ofList members).entries

namespace ObjectAccess

/-- A scalar as JSON, with embedded objects down to a depth. -/
def scalarJson (access : ObjectAccess σ) : (depth : Nat) → Scalar → Action σ Json
  | depth + 1, .object h => do
    match ← (access.properties h).attempt with
    | .ok bag => bag.toJsonWith (access.scalarJson depth)
    | .error _ => return .null
  | _, s => return s.toJson

/-- A bag as JSON. -/
def bagJson (access : ObjectAccess σ) (bag : PropertyBag) : Action σ Json := do
  bag.toJsonWith (access.scalarJson (access.depth (← Action.state)))

end ObjectAccess

end CimBroker
