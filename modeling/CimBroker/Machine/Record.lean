/-
# CimBroker.Machine.Record — virtual machines

A virtual machine as a management host describes it, with the properties that clients use.  A host
describes itself with the same class, and the caption tells the two apart.

The state of a machine is a number of its own; numbers without a meaning count as unknown.

`VirtualMachine` is the record with its table, and `EnabledState.ofCode` reads its state.  A host
says more about a machine than the record has fields for, and the rest is passed over.
-/
import CimBroker.Json.Reader
import CimBroker.Record.Document

namespace CimBroker

/-- A virtual machine. -/
structure VirtualMachine where
  path : String := ""
  instanceId : String := ""
  caption : String := ""
  description : String := ""
  /-- The name that people give the machine. -/
  elementName : String := ""
  /-- The identifier that names the machine. -/
  name : String := ""
  installDate : Time.Timestamp := none
  operationalStatus : List (BitVec 16) := []
  statusDescriptions : List String := []
  healthState : BitVec 16 := 0
  enabledState : BitVec 16 := 0
  requestedState : BitVec 16 := 0
  timeOfLastStateChange : Time.Timestamp := none
  onTimeInMilliseconds : BitVec 64 := 0
  processId : BitVec 32 := 0
  numberOfNumaNodes : BitVec 16 := 0
  deriving DecidableEq, Repr

instance : Record VirtualMachine where
  blank := { path := "" }
  table := FieldTable.empty
    |>.path "path" ⟨fun r => r.path, fun x r => { r with path := x }⟩
    |>.property "InstanceID" "instance_id" .text
      ⟨fun r => r.instanceId, fun x r => { r with instanceId := x }⟩
    |>.property "Caption" "caption" .text ⟨fun r => r.caption, fun x r => { r with caption := x }⟩
    |>.property "Description" "description" .text
      ⟨fun r => r.description, fun x r => { r with description := x }⟩
    |>.property "ElementName" "element_name" .text
      ⟨fun r => r.elementName, fun x r => { r with elementName := x }⟩
    |>.property "Name" "name" .text ⟨fun r => r.name, fun x r => { r with name := x }⟩
    |>.property "InstallDate" "install_date" .datetime
      ⟨fun r => r.installDate, fun x r => { r with installDate := x }⟩
    |>.property "OperationalStatus" "operational_status" (.list .uint16)
      ⟨fun r => r.operationalStatus, fun x r => { r with operationalStatus := x }⟩
    |>.property "StatusDescriptions" "status_descriptions" (.list .text)
      ⟨fun r => r.statusDescriptions, fun x r => { r with statusDescriptions := x }⟩
    |>.property "HealthState" "health_state" .uint16
      ⟨fun r => r.healthState, fun x r => { r with healthState := x }⟩
    |>.property "EnabledState" "enabled_state" .uint16
      ⟨fun r => r.enabledState, fun x r => { r with enabledState := x }⟩
    |>.property "RequestedState" "requested_state" .uint16
      ⟨fun r => r.requestedState, fun x r => { r with requestedState := x }⟩
    |>.property "TimeOfLastStateChange" "time_of_last_state_change" .datetime
      ⟨fun r => r.timeOfLastStateChange, fun x r => { r with timeOfLastStateChange := x }⟩
    |>.property "OnTimeInMilliseconds" "on_time_in_milliseconds" .uint64
      ⟨fun r => r.onTimeInMilliseconds, fun x r => { r with onTimeInMilliseconds := x }⟩
    |>.property "ProcessID" "process_id" .uint32
      ⟨fun r => r.processId, fun x r => { r with processId := x }⟩
    |>.property "NumberOfNumaNodes" "number_of_numa_nodes" .uint16
      ⟨fun r => r.numberOfNumaNodes, fun x r => { r with numberOfNumaNodes := x }⟩

/-- What a machine is doing. -/
inductive EnabledState where
  | unknown
  | other
  | enabled
  | disabled
  | shuttingDown
  | notApplicable
  | enabledButOffline
  | inTest
  | deferred
  | quiesce
  | starting
  deriving DecidableEq, Repr

namespace EnabledState

/-- The state of a number. -/
def ofCode : Nat → EnabledState
  | 1 => other
  | 2 => enabled
  | 3 => disabled
  | 4 => shuttingDown
  | 5 => notApplicable
  | 6 => enabledButOffline
  | 7 => inTest
  | 8 => deferred
  | 9 => quiesce
  | 10 => starting
  | _ => unknown

/-- The word that people use for a state. -/
def text : EnabledState → String
  | enabled => "Running"
  | disabled => "Off"
  | shuttingDown => "Stopping"
  | enabledButOffline => "Saved"
  | quiesce => "Paused"
  | starting => "Starting"
  | other => "Other"
  | notApplicable => "Unknown"
  | inTest => "Unknown"
  | deferred => "Unknown"
  | unknown => "Unknown"

/-- The diagnostic form of a state. -/
def inspect : EnabledState → String
  | unknown => "Unknown"
  | other => "Other"
  | enabled => "Enabled"
  | disabled => "Disabled"
  | shuttingDown => "ShuttingDown"
  | notApplicable => "NotApplicable"
  | enabledButOffline => "EnabledButOffline"
  | inTest => "InTest"
  | deferred => "Deferred"
  | quiesce => "Quiesce"
  | starting => "Starting"

end EnabledState

namespace VirtualMachine

/-- What the machine is doing. -/
def state (vm : VirtualMachine) : EnabledState := .ofCode vm.enabledState.toNat

/-- A machine as JSON. -/
def toJson (vm : VirtualMachine) : Json := (Record.table (R := VirtualMachine)).toJson vm

/-- A machine from JSON text. -/
def ofJsonText (text : String) : Except Error VirtualMachine :=
  match (Json.ofText? text).bind ((Record.table (R := VirtualMachine)).ofJson? Record.blank) with
  | some vm => .ok vm
  | none => .error .json

end VirtualMachine

end CimBroker
