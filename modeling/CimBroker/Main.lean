/-
# CimBroker.Main — the program

The outer layer: it reads the configuration file that the command line names, runs the command line,
prints what it says and deletes what it asks to delete.  No management service is reachable from
here, so connecting always fails.

There are no theorems about this module.  All that it does beyond reading, printing and deleting
files is done by `CimBroker.CommandLine.execute`.
-/
import CimBroker.CommandLine.Program

namespace CimBroker.CommandLine

/-- The files of a run: those that could be read beforehand, and those to be deleted. -/
structure RunFiles where
  texts : List (String × String)
  deleted : List String := []

/-- Reading and deleting over the files of a run. -/
def runFiles : Files RunFiles where
  read path := do
    let files ← Action.state
    Action.require .file ((files.texts.find? fun entry => entry.1 == path).map Prod.snd)
  delete path := Action.change fun files => { files with deleted := path :: files.deleted }

/-- The pace of a program that does not wait. -/
def noPace : Pace := ⟨1, fun pause pauses => ⟨pause.nanos * pauses⟩⟩

/-- The path of the configuration file that a command line names. -/
def configPath? (arguments : List String) : Option String :=
  match Request.ofArguments arguments with
  | .ok request => request.settings.config
  | .error _ => none

end CimBroker.CommandLine

open CimBroker.CommandLine in
def main (arguments : List String) : IO UInt32 := do
  let texts ← match configPath? arguments with
    | some path =>
      try
        let text ← IO.FS.readFile path
        pure [(path, text)]
      catch _ => pure []
    | none => pure []
  let (ending, files) := execute unavailable runFiles noPace arguments { texts := texts }
  files.deleted.forM fun path => IO.FS.removeFile path
  IO.print ending.output.text
  match ending.output.count with
  | some n => IO.eprintln (toString n ++ " object(s)")
  | none => pure ()
  match ending.failure with
  | some e => IO.eprintln ("Error: " ++ e.inspect)
  | none => pure ()
  return UInt32.ofNat ending.status
