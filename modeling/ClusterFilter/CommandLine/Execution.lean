import ClusterFilter.CommandLine.Command
import ClusterFilter.CommandLine.Printing
import ClusterFilter.Compile
import ClusterFilter.Grammar.Text
import ClusterFilter.Settings.Location
import ClusterFilter.Settings.Storage

/-!
# ClusterFilter — what commands do

A command is an action. It prints as soon as it knows what to print, and the steps that can fail
are in the order in which their errors are met.
-/

namespace ClusterFilter.CommandLine

variable {m : Type → Type} [Monad m]

/-- The resource that a selector names, with its grammar. -/
def openResource (selector : String) : Action m (Resource × Grammar) := do
  let r ← known (Resource.ofSelector selector)
  let g ← known r.grammar
  report "akf::compile" ("Built ".toList ++ r.name.toList ++ " filter grammar with ".toList ++
    Text.digits g.productions.length ++ " productions".toList)
  return (r, g)

/-- Prints the grammar of a resource. -/
def showGrammar (resource : String) : Action m Unit := do
  let (_, g) ← openResource resource
  print g.text.toList

/-- Lists the fields of a resource. -/
def listFields (resource format : String) : Action m Unit := do
  let (_, g) ← openResource resource
  printFields g format

variable [FileAccess m]

/-- Whether something stands at the path. -/
def isThere (path : String) : Action m Bool :=
  silently (ExceptT.lift (FileAccess.isPresent path))

variable [Build]

/-- The settings of the environment, or of the file asked for. -/
def loadSettings (e : Environment) (settingsFile : Option String) : Action m Settings := do
  let path ← known (e.locate settingsFile)
  report "armonik::commands" ("Loading config from ".toList ++ path.toList)
  silently (Settings.load path)

/-- The format asked for, or that of the settings. -/
def chooseFormat (e : Environment) (settingsFile : Option String) :
    Option String → Action m OutputFormat
  | some text => known (OutputFormat.read text)
  | none => do
    let settings ← loadSettings e settingsFile
    return settings.output

/-- Prints a compiled filter. -/
def filter (e : Environment) (settingsFile : Option String) (resource expression : String)
    (format : Option String) : Action m Unit := do
  let (r, _) ← openResource resource
  let p ← known (r.compile expression)
  report "armonik::commands" ("Compiled ".toList ++ Text.digits p.size ++
    " conditions for ".toList ++ r.name.toList)
  let output ← chooseFormat e settingsFile format
  printPredicate p output

/-- A setting in a list of settings. -/
def entryRow (entry : String × String) : List Char :=
  ' ' :: ' ' :: row [(10, entry.1.toList)] entry.2.toList

/-- Shows where the settings are kept and what they are. -/
def showSettings (e : Environment) (settingsFile : Option String) : Action m Unit := do
  let settings ← loadSettings e settingsFile
  let isPresent ← isThere settings.path
  let state := if isPresent then "" else " (not created yet)"
  print ("Config file: ".toList ++ settings.path.toList ++ state.toList ++ ['\n'])
  printEach entryRow settings.entries

/-- A setting as an assignment. -/
def entryLine (entry : String × String) : List Char :=
  entry.1.toList ++ '=' :: entry.2.toList ++ ['\n']

/-- Lists the settings. -/
def listSettings (e : Environment) (settingsFile : Option String) : Action m Unit := do
  let settings ← loadSettings e settingsFile
  printEach entryLine settings.entries

/-- Prints a setting. -/
def getSetting (e : Environment) (settingsFile : Option String) (key : String) :
    Action m Unit := do
  let settings ← loadSettings e settingsFile
  let value ← known (settings.get key)
  print (value.toList ++ ['\n'])

/-- Changes a setting and prints what it is then. -/
def setSetting (e : Environment) (settingsFile : Option String) (key text : String) :
    Action m Unit := do
  let settings ← loadSettings e settingsFile
  let settings ← known (settings.set key text)
  silently settings.save
  report "armonik::commands" ("Saved config to ".toList ++ settings.path.toList)
  let value ← known (settings.get key)
  print (key.toList ++ " = ".toList ++ value.toList ++ ['\n'])

/-- What a command does. -/
def execute (e : Environment) (settingsFile : Option String) : Command → Action m Unit
  | .filter resource expression format => filter e settingsFile resource expression format
  | .grammar resource => showGrammar resource
  | .fields resource format => listFields resource (format.getD "table")
  | .showSettings => showSettings e settingsFile
  | .listSettings => listSettings e settingsFile
  | .getSetting key => getSetting e settingsFile key
  | .setSetting key text => setSetting e settingsFile key text

end ClusterFilter.CommandLine
