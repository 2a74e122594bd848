/-!
# ClusterFilter — commands

What the command line can ask for.
-/

namespace ClusterFilter

/-- Commands with their operands. -/
inductive Command where
  /-- Prints a compiled filter. -/
  | filter (resource expression : String) (format : Option String)
  /-- Prints the grammar of a resource. -/
  | grammar (resource : String)
  /-- Lists the fields of a resource. -/
  | fields (resource : String) (format : Option String)
  /-- Shows where the settings are kept and what they are. -/
  | showSettings
  /-- Lists the settings. -/
  | listSettings
  /-- Prints a setting. -/
  | getSetting (key : String)
  /-- Changes a setting. -/
  | setSetting (key value : String)
  deriving DecidableEq, Repr

/-- A command with the options that all commands have. -/
structure Invocation where
  /-- Whether to report what is done on the way. -/
  debug : Bool
  /-- The settings file asked for. -/
  settingsFile : Option String
  command : Command
  deriving DecidableEq, Repr

/-- What a command line asks for. -/
inductive Request where
  | invoke (invocation : Invocation)
  | help
  | version
  deriving DecidableEq, Repr

end ClusterFilter
