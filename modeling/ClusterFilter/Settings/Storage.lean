import ClusterFilter.Build
import ClusterFilter.Files.Access
import ClusterFilter.Settings.Text

/-!
# ClusterFilter — loading and saving settings

Settings are loaded from the file at a path and saved to the file they belong to.
-/

namespace ClusterFilter.Settings

variable {m : Type → Type} [Monad m] [FileAccess m]

/-- The settings in the text of the file at the path. -/
def ofText [Build] (path text : String) : Except Error Settings :=
  match ofDocument? path text with
  | some settings => .ok settings
  | none => .error (.settings (.unreadable ⟨path, Build.tomlFault text⟩))

/-- The settings in the file at the path; the defaults if nothing stands there. -/
def load [Build] (path : String) : ExceptT Error m Settings := do
  if ← (FileAccess.isPresent path : m Bool) then
    match ← (FileAccess.readText path : m (Except String String)) with
    | .ok text => ExceptT.mk (pure (ofText path text))
    | .error reason => throw (@Error.file reason)
  else return defaults path

/-- Saves the settings to their file. -/
def save (s : Settings) : ExceptT Error m Unit := do
  match ← (FileAccess.writeText s.path s.document : m (Except String Unit)) with
  | .ok () => return
  | .error reason => throw (@Error.file reason)

end ClusterFilter.Settings
