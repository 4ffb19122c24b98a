/-
# CimBroker.Machine.Exchange — pairs of texts for the guest

A host hands its guests pairs of a key and a value.  A pair travels as the exchange text of an item
with a `Name` and `Data`; the pairs that are there are read from such texts, of which a later one
replaces an earlier one of the same name, and one without a name adds nothing.

Putting a pair means adding it, and changing it where adding says that the argument was at fault.

`ExchangeItem.ofText` reads one text, `pairsOfItems` a row of them, and `VirtualMachine.itemText`
writes one.  Adding, changing and removing are one call with different methods
(`VirtualMachine.exchange`), and `VirtualMachine.putPair` is made of two of them.  What the guest
does with its pairs is left out.
-/
import CimBroker.Machine.Lookup
import CimBroker.Markup.Document
import CimBroker.Session.Invocation
import CimBroker.Session.Job
import CimBroker.Table

namespace CimBroker

/-- What an exchange item holds. -/
structure ExchangeItem where
  name : Option String := none
  data : String := ""
  deriving DecidableEq, Repr

namespace ExchangeItem

/-- The text of the first value inside a property. -/
def valueText (property : Markup.Node) : String :=
  match property.children.find? (Markup.Node.isNamed "VALUE") with
  | some value => String.ofList (value.text?.getD [])
  | none => ""

/-- The item with what a property says; only names and data matter. -/
def read (item : ExchangeItem) (property : Markup.Node) : ExchangeItem :=
  match property.attribute? "NAME" with
  | some given =>
    if given = "Name".toList then { item with name := some (valueText property) }
    else if given = "Data".toList then { item with data := valueText property }
    else item
  | none => item

/-- The item that a text holds. -/
def ofText (text : String) : Except Error ExchangeItem :=
  match Markup.Node.ofText? text with
  | some root =>
    .ok ((root.all.filter (Markup.Node.isNamed "PROPERTY")).foldl read { name := none })
  | none => .error .markup

end ExchangeItem

/-- The pairs with those of further item texts. -/
def addPairs : Table String → List String → Except Error (Table String)
  | pairs, [] => .ok pairs
  | pairs, text :: texts =>
    match ExchangeItem.ofText text with
    | .error e => .error e
    | .ok item =>
      match item.name with
      | some name => addPairs (pairs.set name item.data) texts
      | none => addPairs pairs texts

/-- The pairs that item texts hold. -/
def pairsOfItems (texts : List String) : Except Error (Table String) := addPairs .empty texts

namespace VirtualMachine

variable {σ : Type} (s : Service σ) (vm : VirtualMachine)

/-- The exchange text of a pair. -/
def itemText (key value : String) : Action σ String := do
  let item ← s.spawn "Msvm_KvpExchangeDataItem"
  s.access.putAs item "Name" .text key
  s.access.putAs item "Data" .text value
  s.access.putAs item "Source" .uint16 0
  s.access.text item

/-- Calls a method on the item of a pair and waits for what it started. -/
def exchange (method key value hint : String) : Action σ Unit := do
  let target ← s.getSingleton managementServiceClass
  let item ← itemText s key value
  let (returnValue, job) ← s.call target method
    [("TargetSystem", .of .text vm.path), ("DataItems", .texts [item])] .returnValueFirst
  Action.mapError (Error.explained hint)
    ((JobWaiter.ofService s).waitResult s method returnValue job)

/-- Adds a pair whose key is not there yet. -/
def addPair (key value : String) : Action σ Unit :=
  exchange s vm "AddKvpItems" key value "key already exists?"

/-- Changes the value of a key that is there. -/
def modifyPair (key value : String) : Action σ Unit :=
  exchange s vm "ModifyKvpItems" key value "key invalid?"

/-- Adds a pair, or changes it where adding blames an argument. -/
def putPair (key value : String) : Action σ Unit := do
  match ← (addPair s vm key value).attempt with
  | .ok () => return ()
  | .error e => if e.isIllegalArgument then modifyPair s vm key value else throw e

/-- Removes a pair. -/
def removePair (key : String) : Action σ Unit :=
  exchange s vm "RemoveKvpItems" key "" "key invalid?"

/-- The pairs that the guest has been handed. -/
def pairs : Action σ (Table String) := do
  let component ← s.findRelated vm.path "Msvm_KvpExchangeComponent"
  let componentPath ← s.access.requirePath component
  let settings ← s.findRelated componentPath "Msvm_KvpExchangeComponentSettingData"
  let items ← s.access.getAs settings "HostExchangeItems" (.list .text)
  Action.ofExcept (pairsOfItems items)

end VirtualMachine

end CimBroker
