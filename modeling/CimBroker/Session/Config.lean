/-
# CimBroker.Session.Config — how a session is set up

A configuration names the namespace, the server if it is another machine, the account for it, the
pause between two looks at a running job, and how long a job is waited for.  Fields that a
configuration file leaves out keep their defaults.

`SessionConfig.validate` says what a configuration has to satisfy, and which fault is reported when
it has several.

`SessionConfig.ofFile` reads, decodes and judges a configuration.  How a command line changes one is
left to `CimBroker.CommandLine.Program`.
-/
import CimBroker.Action
import CimBroker.Json.Reader
import CimBroker.Json.Writer
import CimBroker.Session.Connection

namespace CimBroker

/-- What a session may do with files. -/
structure Files (σ : Type) where
  /-- The text of a file. -/
  read : String → Action σ String
  /-- Deletes a file. -/
  delete : String → Action σ Unit

/-- The namespace of the machine management classes. -/
def machineNamespace : String := "root\\virtualization\\v2"

/-- The setup of a session. -/
structure SessionConfig where
  namespaceName : String := machineNamespace
  /-- The machine to connect to; none is this machine. -/
  server : Option String := none
  credentials : Option Credentials := none
  /-- The pause between two looks at a job, in milliseconds. -/
  pollMillis : Nat := 100
  /-- How long a job is waited for, in seconds; none is without limit. -/
  timeoutSeconds : Option Nat := none
  deriving DecidableEq, Repr

namespace SessionConfig

/-- The configuration without any settings. -/
def standard : SessionConfig := { server := none }

def pollInterval (c : SessionConfig) : Time.Duration := .ofMillis c.pollMillis

def timeout (c : SessionConfig) : Option Time.Duration := c.timeoutSeconds.map .ofSeconds

/-- The first fault of a configuration. -/
def fault? (c : SessionConfig) : Option String :=
  if c.namespaceName = "" then some "namespace cannot be empty"
  else if c.server = some "" then
    some "server cannot be empty; omit it for the local machine"
  else if (c.credentials.map Credentials.user) = some "" then
    some "credentials require a user name"
  else if c.credentials.isSome ∧ c.server.isNone then
    some "credentials cannot be used for local connections"
  else if c.timeoutSeconds = some 0 then some "job_timeout_secs must be at least 1"
  else none

/-- Succeeds on configurations without a fault. -/
def validate (c : SessionConfig) : Except Error Unit :=
  match c.fault? with
  | some text => throw (.config text)
  | none => return ()

/-! ## As JSON -/

/-- An account as JSON. -/
def credentialsJson (c : Credentials) : Json :=
  .ofMembers [("user", .ofText c.user), ("password", .ofText c.password)]

/-- A configuration as JSON. -/
def toJson (c : SessionConfig) : Json :=
  .ofMembers
    [("namespace", .ofText c.namespaceName), ("server", .ofOption .ofText c.server),
      ("credentials", .ofOption credentialsJson c.credentials),
      ("poll_interval_ms", .ofNat c.pollMillis),
      ("job_timeout_secs", .ofOption .ofNat c.timeoutSeconds)]

/-- An account from JSON; both of its fields have to be there. -/
def credentialsOfJson? (j : Json) : Option Credentials := do
  match ← j.fields? ["user", "password"] with
  | [some user, some password] => return ⟨← user.text?, ← password.text?⟩
  | _ => none

/-- The value of a field, or its default where the field is left out. -/
def fieldOr {α : Type} (read? : Json → Option α) (fallback : α) : Option Json → Option α
  | none => some fallback
  | some j => read? j

/-- A configuration from JSON. -/
def ofJson? (j : Json) : Option SessionConfig := do
  let fields ← j.fields?
    ["namespace", "server", "credentials", "poll_interval_ms", "job_timeout_secs"]
  match fields with
  | [name, server, credentials, poll, timeout] =>
    let base := standard
    return {
      namespaceName := ← fieldOr Json.text? base.namespaceName name
      server := ← fieldOr (Json.option? Json.text?) base.server server
      credentials := ← fieldOr (Json.option? credentialsOfJson?) base.credentials credentials
      pollMillis := ← fieldOr (Json.natBelow? (2 ^ 64)) base.pollMillis poll
      timeoutSeconds := ←
        fieldOr (Json.option? (Json.natBelow? (2 ^ 64))) base.timeoutSeconds timeout }
  | _ => none

/-- A valid configuration from text. -/
def ofText (text : String) : Except Error SessionConfig :=
  match (Json.ofText? text).bind ofJson? with
  | some c => do
    c.validate
    return c
  | none => throw .json

/-- A valid configuration from a file. -/
def ofFile {σ : Type} (files : Files σ) (path : String) : Action σ SessionConfig := do
  Action.ofExcept (ofText (← files.read path))

end SessionConfig

end CimBroker
