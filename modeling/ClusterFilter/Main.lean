import ClusterFilter.CommandLine.Run
import ClusterFilter.Files.Path

/-!
# ClusterFilter — the program

The command line over the files and the environment of the machine.
-/

namespace ClusterFilter

/-- The result of an action, or the words of its error. -/
def attempt {α : Type} (action : IO α) : IO (Except String α) := do
  match ← action.toBaseIO with
  | .ok a => return .ok a
  | .error e => return .error (toString e)

instance : FileAccess IO where
  isPresent path := do return (← attempt (IO.FS.realPath path)).isOk
  readText path := attempt (IO.FS.readFile path)
  writeText path text := attempt do
    let directory := Path.directory path
    if directory ≠ "" then IO.FS.createDirAll directory
    IO.FS.writeFile path text

/-- The variables of the machine's environment. -/
def readEnvironment : IO Environment := do
  return ⟨← IO.getEnv "ARMONIK_CLI_CONFIG", ← IO.getEnv "XDG_CONFIG_HOME", ← IO.getEnv "HOME"⟩

end ClusterFilter

open ClusterFilter in
/-- Runs the program with the arguments of the command line. -/
def main (arguments : List String) : IO UInt32 := do
  let outcome ← CommandLine.run (← readEnvironment) arguments
  (← IO.getStdout).putStr outcome.out
  (← IO.getStderr).putStr outcome.err
  return outcome.status
