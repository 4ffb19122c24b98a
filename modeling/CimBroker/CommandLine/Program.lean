/-
# CimBroker.CommandLine.Program — carrying out a command

The program loads the configuration, overrides what the command line gives, connects, and carries
the command out.  What it prints is collected beside the state of the backend, so whatever was
printed before a failure stays printed.

`run` does this over any connector, and `execute` says how the program ends (`Ending`).  Where the
output goes, and where the reason of a failure goes, is left to `CimBroker.Main`.
-/
import CimBroker.CommandLine.Arguments
import CimBroker.Machine.Exchange
import CimBroker.Machine.Power
import CimBroker.Object.Display

namespace CimBroker.CommandLine

/-- What the program prints. -/
structure Output where
  text : String := ""
  /-- The number of objects that a query printed, once it is complete. -/
  count : Option Nat := none
  deriving DecidableEq, Repr

variable {σ : Type}

/-- Prints a line. -/
def printLine (line : String) : Action (σ × Output) Unit :=
  Action.change fun s => (s.1, { s.2 with text := s.2.text ++ line ++ "\n" })

/-- Tells the number of objects. -/
def tellCount (n : Nat) : Action (σ × Output) Unit :=
  Action.change fun s => (s.1, { s.2 with count := some n })

/-- A text followed by spaces up to a width. -/
def column (width : Nat) (text : String) : String :=
  text ++ String.ofList (List.replicate (width - text.length) ' ')

/-- A row of the table of machines. -/
def row (name state id : String) : String :=
  column 30 name ++ " " ++ column 10 state ++ " " ++ column 38 id

/-- The configuration that a command line asks for: that of the file, or the standard one, with the
given server and namespace in place of its own. -/
def loadConfig (files : Files σ) (settings : Settings) : Action σ SessionConfig := do
  let base ← match settings.config with
    | some path => SessionConfig.ofFile files path
    | none => pure SessionConfig.standard
  let config := { base with
    server := settings.server <|> base.server
    namespaceName := settings.namespaceName.getD base.namespaceName }
  Action.ofExcept config.validate
  return config

variable (s : Service σ)

/-- Prints the table of machines. -/
def listMachines : Action (σ × Output) Unit := do
  let machines ← (VirtualMachine.all s).onFirst
  if machines.isEmpty then printLine "No virtual machines found."
  else
    printLine (row "NAME" "STATE" "ID")
    printLine (String.ofList (List.replicate 80 '-'))
    machines.forM fun vm => printLine (row vm.elementName vm.state.text vm.name)

/-- Prints the properties of an object. -/
def showObject (h : Handle) : Action (σ × Output) Unit := do
  let shown ← Action.onFirst do
    let bag ← s.access.properties h
    s.access.bagJson bag
  printLine shown.spread

/-- Prints each remaining result, and yields how many there were; `fuel` bounds their number. -/
def showResults : (fuel : Nat) → (shown : Nat) → Results → Action (σ × Output) Nat
  | 0, shown, _ => return shown
  | fuel + 1, shown, results => do
    let (found, rest) ← (results.next s.access).onFirst
    match found with
    | some h => do
      showObject s h
      showResults fuel (shown + 1) rest
    | none => return shown

/-- Prints the results of a query and their number. -/
def runQuery (wql : String) : Action (σ × Output) Unit := do
  let results ← (s.query wql).onFirst
  let bound := results.bound s.access (← Action.state).1
  tellCount (← showResults s (bound + 1) 0 results)

/-- Carries out an action on the pairs of a guest. -/
def runExchange (vm : VirtualMachine) : ExchangeAction → Action (σ × Output) Unit
  | .list => do
    let pairs ← (vm.pairs s).onFirst
    pairs.entries.forM fun pair => printLine (pair.1 ++ "=" ++ pair.2)
  | .add key value => do
    (vm.addPair s key value).onFirst
    printLine "OK"
  | .modify key value => do
    (vm.modifyPair s key value).onFirst
    printLine "OK"
  | .put key value => do
    (vm.putPair s key value).onFirst
    printLine "OK"
  | .remove key => do
    (vm.removePair s key).onFirst
    printLine "OK"

/-- Carries out a command. -/
def runCommand (files : Files σ) : Command → Action (σ × Output) Unit
  | .listMachines => listMachines s
  | .showMachine name => do
    let vm ← (VirtualMachine.named s name).onFirst
    printLine vm.toJson.spread
  | .start name => Action.onFirst do
    let vm ← VirtualMachine.named s name
    vm.start s
  | .stop name => Action.onFirst do
    let vm ← VirtualMachine.named s name
    vm.stop s
  | .remove name disk => Action.onFirst do
    let vm ← VirtualMachine.named s name
    vm.remove s files disk
  | .query wql => runQuery s wql
  | .get path => do
    let h ← (s.getObject path).onFirst
    showObject s h
  | .exchange machine action => do
    let vm ← (VirtualMachine.named s machine).onFirst
    runExchange s vm action

/-- Carries out a request. -/
def run (connector : Connector σ) (files : Files σ) (pace : Pace) (request : Request) :
    Action (σ × Output) Unit := do
  let config ← (loadConfig files request.settings).onFirst
  let service ← (Service.connect connector config pace).onFirst
  runCommand service files request.command

/-- How the program ends. -/
structure Ending where
  status : Nat
  output : Output
  failure : Option Error
  deriving DecidableEq, Repr

/-- Runs a command line, and yields how the program ends and the state that it leaves. -/
def execute (connector : Connector σ) (files : Files σ) (pace : Pace) (arguments : List String)
    (before : σ) : Ending × σ :=
  match Request.ofArguments arguments with
  | .error .usage => (⟨2, {}, none⟩, before)
  | .error .help => (⟨0, {}, none⟩, before)
  | .ok request =>
    match (run connector files pace request).run (before, {}) with
    | (.ok (), after) => (⟨0, after.2, none⟩, after.1)
    | (.error e, after) => (⟨1, after.2, some e⟩, after.1)

/-- The connector of a machine without a management service. -/
def unavailable : Connector σ :=
  fun _ _ _ => throw (.connection "WMI is only available on Windows")

end CimBroker.CommandLine
