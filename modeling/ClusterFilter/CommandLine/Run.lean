import ClusterFilter.CommandLine.Arguments
import ClusterFilter.CommandLine.Execution

/-!
# ClusterFilter — runs of the program

A run takes the environment and the arguments to an outcome: an exit status and what is written to
standard output and to standard error.
-/

namespace ClusterFilter.CommandLine

/-- What a run leaves behind besides files. -/
structure Outcome where
  status : UInt32
  out : String
  err : String
  deriving DecidableEq, Repr

/-- The exit status for each cause of failure; 70 is for causes that lie in the program itself. -/
def exitStatus : Error → UInt32
  | .unknownResource _ => 2
  | .malformed _ => 3
  | .unknownField _ => 4
  | .invalidLiteral .. => 5
  | .tooManyClauses _ => 6
  | .settings _ => 1
  | .file => 1
  | .unsupportedField .. => 70
  | .unsupportedOperator .. => 70
  | .notNegatable _ => 70

/-- The name and the version of the program. -/
def versionLine : String :=
  "armonik 0.1.0\n"

/-- How the program is used. -/
def usage : String :=
  "Usage: armonik [-d] [-c PATH] COMMAND\n\n" ++
  "Commands:\n" ++
  "  filter RESOURCE EXPRESSION [-f FORMAT]  print a compiled filter\n" ++
  "  grammar RESOURCE                        print the grammar of a resource\n" ++
  "  fields RESOURCE [-f FORMAT]             list the fields of a resource\n" ++
  "  config show | list                      print the settings\n" ++
  "  config get KEY                          print a setting\n" ++
  "  config set KEY VALUE                    change a setting\n"

/-- The exit status where a check of the build stops the program. -/
def stopStatus : UInt32 :=
  101

/-- The exit status of a run that fails. -/
def failureStatus (e : Error) : UInt32 :=
  if e.isStop then stopStatus else exitStatus e

/-- What a run that fails writes to standard error at its end. -/
def failureMessage [Build] (e : Error) : String :=
  if e.isStop then Build.stopReport Duration.overflowMessage else "Error: " ++ e.message ++ "\n"

/-- The report of a run, where it is asked for. -/
def shownNotes (debug : Bool) (notes : List Note) : String :=
  String.ofList (if debug then notes.flatMap Note.record else [])

/-- The outcome of a command, from its result and from what it wrote. -/
def outcomeOf [Build] (debug : Bool) (result : Except Error Unit) (t : Transcript) : Outcome :=
  match result with
  | .ok () => ⟨0, String.ofList t.printed, shownNotes debug t.notes⟩
  | .error e =>
    ⟨failureStatus e, String.ofList t.printed, shownNotes debug t.notes ++ failureMessage e⟩

variable {m : Type → Type} [Monad m] [FileAccess m] [Build]

/-- Runs a command. -/
def invoke (e : Environment) (i : Invocation) : m Outcome := do
  let (result, written) ← (execute e i.settingsFile i.command).run.run ⟨[], []⟩
  return outcomeOf i.debug result written

/-- Runs the program. -/
def run (e : Environment) (arguments : List String) : m Outcome :=
  match readArguments arguments with
  | some (.invoke i) => invoke e i
  | some .help => pure ⟨0, usage, ""⟩
  | some .version => pure ⟨0, versionLine, ""⟩
  | none => pure ⟨2, "", usage⟩

end ClusterFilter.CommandLine
