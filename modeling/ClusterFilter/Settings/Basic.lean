import ClusterFilter.Settings.Format

/-!
# ClusterFilter — settings

The settings are the endpoint of the control plane, which may be unset, and the output format that
is used where none is asked for. They belong to a file and are changed by key.
-/

namespace ClusterFilter

/-- The settings and the path of the file to which they belong. -/
structure Settings where
  path : String
  endpoint : Option String
  output : OutputFormat
  deriving DecidableEq, Repr

/-- Keys of the settings. -/
inductive SettingKey where
  | endpoint
  | output
  deriving DecidableEq, Repr

namespace SettingKey

/-- All keys, in the order in which they are listed. -/
def all : List SettingKey :=
  [endpoint, output]

/-- The name of the key. -/
def name : SettingKey → String
  | endpoint => "endpoint"
  | output => "output"

/-- The key with the name, or the error that there is none. -/
def read (name : String) : Except Error SettingKey :=
  match all.find? fun k => k.name == name with
  | some k => .ok k
  | none => .error (.settings (.unknownKey name))

theorem read_name (k : SettingKey) : read k.name = .ok k := by
  cases k <;> rfl

end SettingKey

namespace Settings

/-- The settings of a file that does not exist. -/
def defaults (path : String) : Settings :=
  ⟨path, none, .json⟩

/-- The value of a setting as a text; that of an unset endpoint is empty. -/
def value (s : Settings) : SettingKey → String
  | .endpoint => s.endpoint.getD ""
  | .output => s.output.name

/-- Gives a setting the value that a text stands for. White space around an endpoint is left out,
and an endpoint without anything else is unset. -/
def assign (s : Settings) (key : SettingKey) (text : String) : Except Error Settings :=
  match key with
  | .endpoint =>
    let endpoint := Text.trimmed text
    .ok { s with endpoint := if endpoint == "" then none else some endpoint }
  | .output => do
    let output ← OutputFormat.read text
    .ok { s with output }

/-- The value of the setting with the given name. -/
def get (s : Settings) (name : String) : Except Error String := do
  let key ← SettingKey.read name
  .ok (s.value key)

/-- Changes the setting with the given name. -/
def set (s : Settings) (name text : String) : Except Error Settings := do
  let key ← SettingKey.read name
  s.assign key text

/-- All settings with their names. -/
def entries (s : Settings) : List (String × String) :=
  SettingKey.all.map fun key => (key.name, s.value key)

end Settings

end ClusterFilter
