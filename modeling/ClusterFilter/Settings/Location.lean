import ClusterFilter.Settings.Basic

/-!
# ClusterFilter — where settings are kept

The settings file is the first of these that is known: the file asked for; the file that the
environment names; a fixed file below the directory for configurations, which is the one that the
environment names if it is an absolute path, and else a directory in the home directory.
-/

namespace ClusterFilter

/-- The variables of the environment that say where settings are kept. -/
structure Environment where
  /-- The settings file. -/
  settingsFile : Option String
  /-- The directory for configurations. -/
  configDirectory : Option String
  /-- The home directory. -/
  home : Option String
  deriving DecidableEq, Repr

/-- The path of an entry of a directory. -/
def entryPath (directory name : String) : String :=
  if directory.toList.getLast? = some '/' then directory ++ name else directory ++ "/" ++ name

namespace Environment

/-- The directory for configurations. -/
def configurations? (e : Environment) : Option String :=
  match e.configDirectory.filter fun d => d.toList.head? = some '/' with
  | some directory => some directory
  | none => (e.home.filter (· ≠ "")).map fun home => entryPath home ".config"

/-- The path of the settings file. -/
def locate (e : Environment) (requested : Option String) : Except Error String :=
  match requested <|> e.settingsFile.filter (· ≠ "") with
  | some path => .ok path
  | none =>
    match e.configurations? with
    | some directory => .ok (entryPath (entryPath directory "armonik_cli") "config.toml")
    | none => .error (.settings .noHome)

end Environment

end ClusterFilter
