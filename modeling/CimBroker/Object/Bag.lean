/-
# CimBroker.Object.Bag — the properties of an object at one moment

A bag lists the properties of an object in order, each with its declared type and its value.  The
names that start with two underscores belong to the system: `__CLASS` holds the name of the object's
class and `__PATH` the path under which it is stored, if it is.

A bag (`PropertyBag`) is what was seen, and has no tie to the object any more.  Looking a name up
(`PropertyBag.find?`) yields the first entry; that names do not repeat is not part of the type.
-/
import CimBroker.Variant.CimType

namespace CimBroker

/-- The system property that holds an object's path. -/
def pathProperty : String := "__PATH"

/-- The system property that holds the name of an object's class. -/
def classProperty : String := "__CLASS"

/-- Whether a name belongs to the system. -/
def isSystemName (name : String) : Bool := "__".toList.isPrefixOf name.toList

/-- One property of an object. -/
structure Property where
  name : String
  value : Variant
  declared : CimType
  deriving DecidableEq, Repr

/-- The properties of an object, in order. -/
structure PropertyBag where
  properties : List Property
  deriving DecidableEq, Repr

namespace PropertyBag

def empty : PropertyBag := ⟨[]⟩

/-- The first property with the given name. -/
def find? (bag : PropertyBag) (name : String) : Option Property :=
  bag.properties.find? fun p => p.name == name

/-- The value of the first property with the given name. -/
def get? (bag : PropertyBag) (name : String) : Option Variant :=
  (bag.find? name).map Property.value

/-- Whether there is a property with the given name. -/
def contains (bag : PropertyBag) (name : String) : Bool := (bag.find? name).isSome

def names (bag : PropertyBag) : List String := bag.properties.map Property.name

def size (bag : PropertyBag) : Nat := bag.properties.length

def isEmpty (bag : PropertyBag) : Bool := bag.properties.isEmpty

end PropertyBag

end CimBroker
