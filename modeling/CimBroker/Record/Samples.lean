/-
# CimBroker.Record.Samples — three record types

`Element` is what every managed element has, `Disk` embeds it and adds fields of its own, and
`Specimen` has a field of every kind that a table can map.

They serve as the records of tests and of the fixed cases in proofs; the theorems on records are
about every table.
-/
import CimBroker.Record.FieldTable

namespace CimBroker

/-- What every managed element has. -/
structure Element where
  path : String := ""
  instanceId : String := ""
  elementName : String := ""
  deriving DecidableEq, Repr

instance : Record Element where
  blank := { path := "" }
  table := FieldTable.empty
    |>.path "path" ⟨fun r => r.path, fun x r => { r with path := x }⟩
    |>.property "InstanceID" "instance_id" .text
      ⟨fun r => r.instanceId, fun x r => { r with instanceId := x }⟩
    |>.property "ElementName" "element_name" .text
      ⟨fun r => r.elementName, fun x r => { r with elementName := x }⟩

/-- A disk, which is a managed element. -/
structure Disk where
  element : Element := Record.blank
  className : String := ""
  size : BitVec 64 := 0
  dedicated : List (BitVec 16) := []
  created : Time.Timestamp := none
  owner : Option String := none
  /-- A field that is kept on the client's side when the class does not declare it. -/
  onlyLocal : BitVec 32 := 0
  deriving DecidableEq, Repr

instance : Record Disk where
  blank := { className := "" }
  table := FieldTable.empty
    |>.embed "element" (Record.table (R := Element))
      ⟨fun r => r.element, fun x r => { r with element := x }⟩
    |>.className "class" ⟨fun r => r.className, fun x r => { r with className := x }⟩
    |>.property "Size" "size" .uint64 ⟨fun r => r.size, fun x r => { r with size := x }⟩
    |>.property "Dedicated" "dedicated" (.list .uint16)
      ⟨fun r => r.dedicated, fun x r => { r with dedicated := x }⟩
    |>.property "Created" "created" .datetime
      ⟨fun r => r.created, fun x r => { r with created := x }⟩
    |>.property "Owner" "owner" (.optional .text)
      ⟨fun r => r.owner, fun x r => { r with owner := x }⟩
    |>.property "OnlyLocal" "only_local" .uint32
      ⟨fun r => r.onlyLocal, fun x r => { r with onlyLocal := x }⟩

/-- A field of every kind. -/
structure Specimen where
  path : String := ""
  className : String := ""
  b : Bool := false
  i8 : BitVec 8 := 0
  i16 : BitVec 16 := 0
  i32 : BitVec 32 := 0
  i64 : BitVec 64 := 0
  u8 : BitVec 8 := 0
  u16 : BitVec 16 := 0
  u32 : BitVec 32 := 0
  u64 : BitVec 64 := 0
  f32 : Number.Single := Number.Binary.zero
  f64 : Number.Double := Number.Binary.zero
  text : String := ""
  whenMade : Time.Timestamp := none
  strings : List String := []
  maybeStrings : Option (List String) := none
  maybeU32 : Option (BitVec 32) := none
  bytes : List (BitVec 8) := []
  wide : List (BitVec 64) := []
  flags : List Bool := []
  deriving DecidableEq, Repr

instance : Record Specimen where
  blank := { path := "" }
  table := FieldTable.empty
    |>.path "path" ⟨fun r => r.path, fun x r => { r with path := x }⟩
    |>.className "class" ⟨fun r => r.className, fun x r => { r with className := x }⟩
    |>.property "B" "b" .bool ⟨fun r => r.b, fun x r => { r with b := x }⟩
    |>.property "I8" "i8" (.atom (.integer true .w8)) ⟨fun r => r.i8, fun x r => { r with i8 := x }⟩
    |>.property "I16" "i16" (.atom (.integer true .w16))
      ⟨fun r => r.i16, fun x r => { r with i16 := x }⟩
    |>.property "I32" "i32" (.atom (.integer true .w32))
      ⟨fun r => r.i32, fun x r => { r with i32 := x }⟩
    |>.property "I64" "i64" (.atom (.integer true .w64))
      ⟨fun r => r.i64, fun x r => { r with i64 := x }⟩
    |>.property "U8" "u8" (.atom (.integer false .w8))
      ⟨fun r => r.u8, fun x r => { r with u8 := x }⟩
    |>.property "U16" "u16" .uint16 ⟨fun r => r.u16, fun x r => { r with u16 := x }⟩
    |>.property "U32" "u32" .uint32 ⟨fun r => r.u32, fun x r => { r with u32 := x }⟩
    |>.property "U64" "u64" .uint64 ⟨fun r => r.u64, fun x r => { r with u64 := x }⟩
    |>.property "F32" "f32" (.atom .single) ⟨fun r => r.f32, fun x r => { r with f32 := x }⟩
    |>.property "F64" "f64" (.atom .double) ⟨fun r => r.f64, fun x r => { r with f64 := x }⟩
    |>.property "Text" "text" .text ⟨fun r => r.text, fun x r => { r with text := x }⟩
    |>.property "When" "when" .datetime ⟨fun r => r.whenMade, fun x r => { r with whenMade := x }⟩
    |>.property "Strings" "strings" (.list .text)
      ⟨fun r => r.strings, fun x r => { r with strings := x }⟩
    |>.property "MaybeStrings" "maybe_strings" (.optional (.list .text))
      ⟨fun r => r.maybeStrings, fun x r => { r with maybeStrings := x }⟩
    |>.property "MaybeU32" "maybe_u32" (.optional .uint32)
      ⟨fun r => r.maybeU32, fun x r => { r with maybeU32 := x }⟩
    |>.property "Bytes" "bytes" (.list (.atom (.integer false .w8)))
      ⟨fun r => r.bytes, fun x r => { r with bytes := x }⟩
    |>.property "Wide" "wide" (.list .uint64) ⟨fun r => r.wide, fun x r => { r with wide := x }⟩
    |>.property "Flags" "flags" (.list .bool) ⟨fun r => r.flags, fun x r => { r with flags := x }⟩

end CimBroker
