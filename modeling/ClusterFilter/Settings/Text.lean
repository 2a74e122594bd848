import ClusterFilter.Settings.Basic
import ClusterFilter.Toml.Reader

/-!
# ClusterFilter — settings as a text

Settings are kept as a TOML document with the members `endpoint`, if it is set, and `output`. Other
members of a document are passed over, and missing ones have their default.
-/

namespace ClusterFilter.Settings

/-- A member of a document with a text as its value. -/
def memberLine (name : String) (value : String) : List Char :=
  name.toList ++ " = ".toList ++ Toml.writeString value.toList ++ ['\n']

/-- The settings as a document. -/
def document (s : Settings) : String :=
  let endpoint := match s.endpoint with
    | some endpoint => memberLine "endpoint" endpoint
    | none => []
  String.ofList (endpoint ++ memberLine "output" s.output.name)

/-- The endpoint that a document sets; none if its value is no text. -/
def readEndpoint? (members : Toml.Members) : Option (Option String) :=
  match members.lookup "endpoint" with
  | none => some none
  | some (.scalar (.text s)) => some (some s)
  | some _ => none

/-- Whether the node is an empty array or table. -/
def isEmptyNode : Toml.Node → Bool
  | .array [] => true
  | .table _ [] => true
  | _ => false

/-- The format that a document sets; none if its value names no format. A format may also be
written as the name of an only member with nothing in it. -/
def readOutput? (members : Toml.Members) : Option OutputFormat :=
  match members.lookup "output" with
  | none => some (defaults "").output
  | some (.scalar (.text name)) => OutputFormat.ofName? name
  | some (.table _ [(name, node)]) => if isEmptyNode node then OutputFormat.ofName? name else none
  | some _ => none

/-- The settings that a document holds. -/
def ofDocument? (path text : String) : Option Settings := do
  let members ← Toml.readDocument? text.toList
  let endpoint ← readEndpoint? members
  let output ← readOutput? members
  some ⟨path, endpoint, output⟩

end ClusterFilter.Settings
