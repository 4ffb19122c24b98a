/-
# CimBroker.Error — what can go wrong, and how it is told

An error is a cause: what was missing, refused, malformed or reported by the other side.  Its
wording is computed from the cause by `Error.message`, its diagnostic form by `Error.inspect`, and
programs branch on the predicates below instead of on text.

A failed job carries a number.  Numbers from 32768 to 32779 have a meaning of their own
(`DomainFault`), and `Error.explained` replaces a job failure with such a number by that meaning;
every other error stays as it is.

What the file system had to say about a failure, or a reader of JSON or markup, is left out: these
errors say of what kind they are, and no more.
-/
import CimBroker.Text.Quoted
import CimBroker.Time.Duration

namespace CimBroker

/-- The recognised meanings of a failed job's number. -/
inductive DomainFault where
  | operationFailed
  | accessDenied
  | notSupported
  | statusUnknown
  | timeout
  /-- Nothing says which parameter was at fault; the hint is the caller's guess. -/
  | illegalArgument (hint : String)
  | systemInUse
  | invalidState
  | incorrectDataType
  | systemNotAvailable
  | outOfMemory
  | notFound
  deriving DecidableEq, Repr

namespace DomainFault

/-- The meaning of a job's number, if it has one. -/
def ofCode? (code : Nat) (hint : String) : Option DomainFault :=
  match code with
  | 32768 => some operationFailed
  | 32769 => some accessDenied
  | 32770 => some notSupported
  | 32771 => some statusUnknown
  | 32772 => some timeout
  | 32773 => some (illegalArgument hint)
  | 32774 => some systemInUse
  | 32775 => some invalidState
  | 32776 => some incorrectDataType
  | 32777 => some systemNotAvailable
  | 32778 => some outOfMemory
  | 32779 => some notFound
  | _ => none

/-- The wording of a fault. -/
def message : DomainFault → String
  | operationFailed => "Operation failed"
  | accessDenied => "Access denied"
  | notSupported => "Not supported"
  | statusUnknown => "Status is unknown"
  | timeout => "Timeout occurred"
  | illegalArgument hint => "Illegal argument (" ++ hint ++ ")"
  | systemInUse => "System is in use"
  | invalidState => "Invalid state for this operation"
  | incorrectDataType => "Incorrect data type"
  | systemNotAvailable => "System is not available"
  | outOfMemory => "Out of memory"
  | notFound => "Not found"

/-- The diagnostic form of a fault. -/
def inspect : DomainFault → String
  | operationFailed => "OperationFailed"
  | accessDenied => "AccessDenied"
  | notSupported => "NotSupported"
  | statusUnknown => "StatusUnknown"
  | timeout => "Timeout"
  | illegalArgument hint => Text.labelled "IllegalArgument" [("hint", Text.quoted hint)]
  | systemInUse => "SystemInUse"
  | invalidState => "InvalidState"
  | incorrectDataType => "IncorrectDataType"
  | systemNotAvailable => "SystemNotAvailable"
  | outOfMemory => "OutOfMemory"
  | notFound => "NotFound"

end DomainFault

/-- The causes of failure. -/
inductive Error where
  | connection (text : String)
  | notFound (text : String)
  | malformedDatetime (value reason : String)
  | typeConversion (wire target : String)
  | job (code : Nat) (description : String)
  | domain (fault : DomainFault) (code : Nat)
  | methodFailed (method : String) (code : Nat)
  | remote (text : String)
  /-- The machine's state does not allow the requested action. -/
  | machineState (text : String)
  | destroyFailed (name reason : String)
  /-- An exchange item is not well-formed markup. -/
  | markup
  | unsupportedQuery (text : String)
  | timeout (limit : Time.Duration)
  | config (text : String)
  /-- The file system refused. -/
  | file
  /-- A text is not JSON, or not JSON of the expected shape. -/
  | json
  /-- A job was still running when the caller's patience, counted in reads of its state, ended. -/
  | unfinished (reads : Nat)
  deriving DecidableEq, Repr

namespace Error

/-- The name of the kind of an error. -/
def kind : Error → String
  | connection _ => "Connection"
  | notFound _ => "NotFound"
  | malformedDatetime _ _ => "MalformedDatetime"
  | typeConversion _ _ => "TypeConversion"
  | job _ _ => "Job"
  | domain _ _ => "Domain"
  | methodFailed _ _ => "MethodFailed"
  | remote _ => "Remote"
  | machineState _ => "MachineState"
  | destroyFailed _ _ => "DestroyFailed"
  | markup => "Xml"
  | unsupportedQuery _ => "UnsupportedQuery"
  | timeout _ => "Timeout"
  | config _ => "Config"
  | file => "Io"
  | json => "Json"
  | unfinished _ => "Unfinished"

/-- The wording of an error. -/
def message : Error → String
  | connection text => "Connection failed: " ++ text
  | notFound text => "Not found: " ++ text
  | malformedDatetime value reason =>
    "Malformed CIM datetime " ++ Text.quoted value ++ ": " ++ reason
  | typeConversion wire target =>
    "Type conversion failed: cannot convert " ++ wire ++ " to " ++ target
  | job code description =>
    let failed := "Job failed with error code: " ++ toString code
    if description.isEmpty then failed else failed ++ ". Description: " ++ description
  | domain fault code => fault.message ++ " (" ++ toString code ++ ")"
  | methodFailed method code => "Method " ++ method ++ " failed with return value " ++ toString code
  | remote text => "WMI provider error: " ++ text
  | machineState text => text
  | destroyFailed name reason => "Failed to destroy system " ++ name ++ ": " ++ reason
  | markup => "Malformed exchange item"
  | unsupportedQuery text => "Unsupported query: " ++ text
  | timeout limit => "Timed out after " ++ limit.text ++ " waiting for job"
  | config text => "Configuration error: " ++ text
  | file => "IO error"
  | json => "JSON error"
  | unfinished reads => "Job still running after " ++ toString reads ++ " reads"

/-- The diagnostic form of an error. -/
def inspect : Error → String
  | connection text => Text.wrapped "Connection" (Text.quoted text)
  | notFound text => Text.wrapped "NotFound" (Text.quoted text)
  | malformedDatetime value reason =>
    Text.labelled "MalformedDatetime" [("value", Text.quoted value), ("reason", Text.quoted reason)]
  | typeConversion wire target =>
    Text.labelled "TypeConversion" [("wire", Text.quoted wire), ("target", Text.quoted target)]
  | job code description =>
    Text.labelled "Job" [("code", toString code), ("description", Text.quoted description)]
  | domain fault code =>
    Text.labelled "Domain" [("kind", fault.inspect), ("code", toString code)]
  | methodFailed method code =>
    Text.labelled "MethodFailed" [("method", Text.quoted method), ("code", toString code)]
  | remote text => Text.wrapped "Remote" (Text.quoted text)
  | machineState text => Text.wrapped "MachineState" (Text.quoted text)
  | destroyFailed name reason =>
    Text.labelled "DestroyFailed" [("name", Text.quoted name), ("reason", Text.quoted reason)]
  | unsupportedQuery text => Text.wrapped "UnsupportedQuery" (Text.quoted text)
  | timeout limit => Text.wrapped "Timeout" limit.text
  | config text => Text.wrapped "Config" (Text.quoted text)
  | unfinished reads => Text.wrapped "Unfinished" (toString reads)
  | e => e.kind

/-- Whether the other side had nothing to return. -/
def isNotFound : Error → Bool
  | notFound _ => true
  | _ => false

/-- Whether a job failed over an argument. -/
def isIllegalArgument : Error → Bool
  | domain (.illegalArgument _) _ => true
  | _ => false

/-- Whether the machine's state forbade the action. -/
def isMachineState : Error → Bool
  | machineState _ => true
  | _ => false

/-- The number of a failed job, whether or not its meaning was recognised. -/
def jobCode? : Error → Option Nat
  | job code _ => some code
  | domain _ code => some code
  | _ => none

/-- A job failure with a recognised number becomes its meaning; any other error is kept. -/
def explained (hint : String) : Error → Error
  | job code description =>
    match DomainFault.ofCode? code hint with
    | some fault => domain fault code
    | none => job code description
  | e => e

end Error

end CimBroker
