/-
# CimBroker.Machine.Lookup — finding virtual machines

Machines are found by query: all of them by the caption that tells machines from their host, and one
by its name as well.  The name goes into the query escaped, so that it can hold any character.

`VirtualMachine.all` and `VirtualMachine.named` run the queries
`VirtualMachine.allQuery` and `VirtualMachine.namedQuery`.  Where several machines have one name,
the first that comes is taken.
-/
import CimBroker.Machine.Record
import CimBroker.Session.Service
import CimBroker.Wql.Literal

namespace CimBroker

/-- The class of machines and hosts. -/
def computerSystemClass : String := "Msvm_ComputerSystem"

/-- The class of the management service, of which there is one instance. -/
def managementServiceClass : String := "Msvm_VirtualSystemManagementService"

namespace VirtualMachine

/-- The caption of machines. -/
def machineCaption : String := "Virtual Machine"

/-- The query for all machines. -/
def allQuery : String :=
  "SELECT * FROM " ++ computerSystemClass ++ " WHERE Caption = '" ++ machineCaption ++ "'"

/-- The query for the machines of a name. -/
def namedQuery (name : String) : String :=
  allQuery ++ " AND ElementName = '" ++ Wql.escape name ++ "'"

variable {σ : Type} (s : Service σ)

/-- Every machine. -/
def all : Action σ (List VirtualMachine) := s.queryRecords VirtualMachine allQuery

/-- The first machine of a name. -/
def named (name : String) : Action σ VirtualMachine :=
  Action.mapError
    (fun e =>
      if e.isNotFound then .notFound ("could not find virtual machine " ++ Text.quoted name) else e)
    (s.findFirstRecord VirtualMachine (namedQuery name))

/-- Whether there is a machine of a name. -/
def hasNamed (name : String) : Action σ Bool := do
  match ← (named s name).attempt with
  | .ok _ => return true
  | .error e => if e.isNotFound then return false else throw e

end VirtualMachine

end CimBroker
