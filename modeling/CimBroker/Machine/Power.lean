/-
# CimBroker.Machine.Power — starting, stopping and removing machines

Each operation first looks at the state that the record shows and refuses without a round trip where
the state does not allow it.  Then it calls one method and waits for what the method started.  A
machine's disk is deleted only after the machine itself is known to be gone.

`VirtualMachine.start`, `VirtualMachine.stop` and `VirtualMachine.remove` are the operations, and
`VirtualMachine.perform` is the call that they share.  There are no others: of the states that a
record can show (`EnabledState`), most are never asked for.
-/
import CimBroker.Machine.Lookup
import CimBroker.Session.Invocation
import CimBroker.Session.Job

namespace CimBroker

/-- What a return value of the removing method says. -/
def destroyFailure (code : Nat) : String :=
  match code with
  | 1 => "not supported"
  | 2 => "failed"
  | 3 => "timeout"
  | 4 => "invalid parameter"
  | 5 => "invalid state"
  | _ => "unknown"

namespace VirtualMachine

variable {σ : Type} (s : Service σ) (vm : VirtualMachine)

/-- Calls a method on an object, reading the job first, and waits for what it started. -/
def perform (target : Handle) (method : String) (inputs : List (String × Argument)) :
    Action σ Unit := do
  let (returnValue, job) ← s.call target method inputs .jobFirst
  (JobWaiter.ofService s).waitResult s method returnValue job

/-- Why a machine cannot be started. -/
def startRefusal? : Option String :=
  match vm.state with
  | .disabled => none
  | .enabled => some "machine already running"
  | .starting => some "machine already running"
  | _ => some "machine not in a state to start"

/-- Powers a machine on. -/
def start : Action σ Unit := do
  match vm.startRefusal? with
  | some text => throw (.machineState text)
  | none => do
    let target ← s.getObject vm.path
    perform s target "RequestStateChange"
      [("RequestedState", .of .uint16 2), ("TimeoutPeriod", .of .datetime none)]

/-- Asks the guest of a running machine to shut down. -/
def stop : Action σ Unit := do
  if vm.state ≠ .enabled then throw (.machineState "machine not running")
  else
    let target ← s.findRelated vm.path "Msvm_ShutdownComponent"
    perform s target "InitiateShutdown"
      [("Reason", .of .text "User requested"), ("Force", .of .bool false)]

/-- The failure of the removing method as a failure to remove this machine. -/
def asDestroyFailure : Error → Error
  | .methodFailed _ code => .destroyFailed vm.elementName (destroyFailure code)
  | e => e

/-- Removes a machine that is off, and then deletes its disk, if one is given. -/
def remove (files : Files σ) (disk : Option String) : Action σ Unit := do
  if vm.state ≠ .disabled then throw (.machineState "machine in invalid state for action")
  else
    let target ← s.getSingleton managementServiceClass
    let (returnValue, job) ← s.call target "DestroySystem"
      [("AffectedSystem", .of .text vm.path)] .jobFirst
    Action.mapError vm.asDestroyFailure
      ((JobWaiter.ofService s).waitResult s "DestroySystem" returnValue job)
    match disk with
    | some path => files.delete path
    | none => return ()

end VirtualMachine

end CimBroker
