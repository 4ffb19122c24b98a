/-
# CimBroker.CommandLine.Arguments — what a command line asks for

A command line has levels: the program itself, a command, and for the pairs of a guest an action.
Each level takes its own options, a fixed number of operands, and then perhaps the name of the next
level.  The settings of the session are options of every level, and the innermost one that gives a
setting decides it.

An option takes one value, attached to it or as the next argument, which then may not start with a
hyphen.  On one level an option is given at most once.  After two hyphens everything is an operand.

A level with levels below also has one named `help`, whose arguments are the path from there to the
level that help is asked for.

`readLevel` reads one level, and `Request.ofArguments` all of them, down to the command (`Command`)
and the settings (`Settings`).  A line that is refused, or asks for help, yields the reason only
(`Refusal`): what is then shown to the user is left out.
-/

namespace CimBroker.CommandLine

/-- Why a command line is not carried out. -/
inductive Refusal where
  /-- It is not well-formed. -/
  | usage
  /-- It asks for help. -/
  | help
  deriving DecidableEq, Repr

/-- An option that takes a value. -/
structure OptionSpec where
  long : String
  short : Option Char := none
  /-- Whether the value names a file, and so cannot be empty. -/
  isFile : Bool := false
  deriving DecidableEq, Repr

/-- What a level takes. -/
structure LevelSpec where
  options : List OptionSpec
  operands : Nat
  /-- The names of the levels below. -/
  below : List String
  deriving Repr

/-- Whether a name is that of a level below.  Where there are any, `help` is one of them. -/
def LevelSpec.leadsTo (spec : LevelSpec) (name : String) : Bool :=
  spec.below.contains name || (!spec.below.isEmpty && name == "help")

/-- What a level was given. -/
structure LevelMatch where
  values : List (String × String) := []
  /-- The operands, latest first. -/
  operands : List String := []
  /-- The name of the level below, and the arguments for it. -/
  next : Option (String × List String) := none
  deriving DecidableEq, Repr

/-- The options of every level. -/
def settingOptions : List OptionSpec :=
  [{ long := "config", short := some 'c', isFile := true }, { long := "server" },
    { long := "namespace" }]

namespace LevelMatch

/-- The value of an option. -/
def value? (m : LevelMatch) (long : String) : Option String :=
  (m.values.find? fun entry => entry.1 == long).map Prod.snd

/-- Gives an option its value. -/
def giveOption (m : LevelMatch) (o : OptionSpec) (value : String) : Except Refusal LevelMatch :=
  if (m.value? o.long).isSome || (o.isFile && value == "") then .error .usage
  else .ok { m with values := m.values ++ [(o.long, value)] }

/-- Gives an operand. -/
def giveOperand (m : LevelMatch) (spec : LevelSpec) (value : String) : Except Refusal LevelMatch :=
  if m.operands.length < spec.operands then .ok { m with operands := value :: m.operands }
  else .error .usage

/-- What is left of the level when its arguments end. -/
def close (m : LevelMatch) (spec : LevelSpec) : Except Refusal LevelMatch :=
  if m.operands.length = spec.operands then .ok m else .error .usage

end LevelMatch

/-- What an argument looks like where an option, an operand or a level is expected. -/
inductive Shape where
  | endOfOptions
  | long (name : String) (value : Option String)
  | short (letter : Char) (rest : List Char)
  | plain
  deriving DecidableEq, Repr

/-- The shape of an argument. -/
def Shape.of (argument : String) : Shape :=
  match argument.toList with
  | ['-', '-'] => .endOfOptions
  | '-' :: '-' :: cs =>
    let name := cs.takeWhile (· != '=')
    let value := if name.length < cs.length then some (String.ofList (cs.drop (name.length + 1)))
      else none
    .long (String.ofList name) value
  | '-' :: c :: cs => .short c cs
  | _ => .plain

/-- The value attached to an option of one letter, an equals sign before it aside. -/
def attached (rest : List Char) : String :=
  String.ofList (match rest with | '=' :: value => value | value => value)

/-- The operands that follow the end of the options. -/
def operandsOnly (spec : LevelSpec) : LevelMatch → List String → Except Refusal LevelMatch
  | m, [] => m.close spec
  | m, argument :: rest => do operandsOnly spec (← m.giveOperand spec argument) rest

/-- Reads a level; `pending` is the option that still needs its value. -/
def readLevel (spec : LevelSpec) :
    (pending : Option OptionSpec) → LevelMatch → List String → Except Refusal LevelMatch
  | some _, _, [] => .error .usage
  | none, m, [] => m.close spec
  | some o, m, argument :: rest => do
    if Shape.of argument = .plain then readLevel spec none (← m.giveOption o argument) rest
    else .error .usage
  | none, m, argument :: rest => do
    if spec.leadsTo argument then
      ({ m with next := some (argument, rest) } : LevelMatch).close spec
    else
      match Shape.of argument with
      | .endOfOptions => operandsOnly spec m rest
      | .long name value =>
        match spec.options.find? fun o => o.long == name with
        | some o =>
          match value with
          | some value => readLevel spec none (← m.giveOption o value) rest
          | none => readLevel spec (some o) m rest
        | none => .error (if name = "help" ∧ value.isNone then .help else .usage)
      | .short letter attachedValue =>
        match spec.options.find? fun o => o.short == some letter with
        | some o =>
          if attachedValue.isEmpty then readLevel spec (some o) m rest
          else readLevel spec none (← m.giveOption o (attached attachedValue)) rest
        | none => .error (if letter = 'h' then .help else .usage)
      | .plain => readLevel spec none (← m.giveOperand spec argument) rest

/-- The settings of a session that a command line gives. -/
structure Settings where
  /-- The path of the configuration file. -/
  config : Option String := none
  server : Option String := none
  namespaceName : Option String := none
  deriving DecidableEq, Repr

/-- The settings of a level, with those of the levels around it where it has none. -/
def Settings.refine (outer : Settings) (m : LevelMatch) : Settings :=
  { config := m.value? "config" <|> outer.config
    server := m.value? "server" <|> outer.server
    namespaceName := m.value? "namespace" <|> outer.namespaceName }

/-- What is done with the pairs of a guest. -/
inductive ExchangeAction where
  | list
  | add (key value : String)
  | modify (key value : String)
  | put (key value : String)
  | remove (key : String)
  deriving DecidableEq, Repr

/-- What a command line asks for. -/
inductive Command where
  | listMachines
  | showMachine (name : String)
  | start (name : String)
  | stop (name : String)
  | remove (name : String) (disk : Option String)
  | query (wql : String)
  | get (path : String)
  | exchange (machine : String) (action : ExchangeAction)
  deriving DecidableEq, Repr

/-- A command and the settings of the session it runs in. -/
structure Request where
  settings : Settings
  command : Command
  deriving DecidableEq, Repr

/-- A level without options of its own. -/
def plainLevel (operands : Nat) (below : List String) : LevelSpec :=
  ⟨settingOptions, operands, below⟩

/-- The level of the program. -/
def programLevel : LevelSpec :=
  plainLevel 0 ["vms", "vm", "start", "stop", "remove", "query", "get", "kvp"]

/-- The level of a command. -/
def commandLevel : String → LevelSpec
  | "vms" => plainLevel 0 []
  | "remove" => ⟨settingOptions ++ [{ long := "disk", isFile := true }], 1, []⟩
  | "kvp" =>
    ⟨settingOptions ++ [{ long := "vm" }], 0, ["list", "add", "modify", "put", "remove"]⟩
  | _ => plainLevel 1 []

/-- The level of an action on the pairs of a guest. -/
def actionLevel : String → LevelSpec
  | "list" => plainLevel 0 []
  | "remove" => plainLevel 1 []
  | _ => plainLevel 2 []

/-- The level that a path of names leads to from the program.  Nothing is below `help`. -/
def levelAt : List String → LevelSpec
  | [] => programLevel
  | [command] => commandLevel command
  | ["kvp", action] => actionLevel action
  | _ => plainLevel 0 []

/-- The refusal of a request for help about the level that the names lead to from a level. -/
def helpFrom (path : List String) : List String → Refusal
  | [] => .help
  | name :: names =>
    if (levelAt path).leadsTo name then helpFrom (path ++ [name]) names else .usage

/-- The action of a name with its operands, latest first. -/
def action? : String → List String → Option ExchangeAction
  | "list", [] => some .list
  | "add", [value, key] => some (.add key value)
  | "modify", [value, key] => some (.modify key value)
  | "put", [value, key] => some (.put key value)
  | "remove", [key] => some (.remove key)
  | _, _ => none

/-- The command of a name with what its level was given, unless it has a level below. -/
def command? (name : String) (m : LevelMatch) : Option Command :=
  match name, m.operands with
  | "vms", [] => some .listMachines
  | "vm", [machine] => some (.showMachine machine)
  | "start", [machine] => some (.start machine)
  | "stop", [machine] => some (.stop machine)
  | "remove", [machine] => some (.remove machine (m.value? "disk"))
  | "query", [wql] => some (.query wql)
  | "get", [path] => some (.get path)
  | _, _ => none

/-- A value that has to be there. -/
def required {α : Type} : Option α → Except Refusal α
  | some x => .ok x
  | none => .error .usage

/-- Reads a command line. -/
def Request.ofArguments (arguments : List String) : Except Refusal Request := do
  let program ← readLevel programLevel none {} arguments
  let settings := Settings.refine {} program
  match program.next with
  | none => return ⟨settings, .listMachines⟩
  | some ("help", names) => throw (helpFrom [] names)
  | some (name, rest) => do
    let command ← readLevel (commandLevel name) none {} rest
    let settings := settings.refine command
    if name = "kvp" then
      let (actionName, rest) ← required command.next
      if actionName = "help" then throw (helpFrom ["kvp"] rest)
      let action ← readLevel (actionLevel actionName) none {} rest
      let machine ← required (command.value? "vm")
      let exchange ← required (action? actionName action.operands)
      return ⟨settings.refine action, .exchange machine exchange⟩
    else return ⟨settings, ← required (command? name command)⟩

end CimBroker.CommandLine
