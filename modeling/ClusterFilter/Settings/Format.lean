import ClusterFilter.Error

/-!
# ClusterFilter — output formats

The four formats in which a compiled filter is printed, and their names.
-/

namespace ClusterFilter

/-- How a compiled filter is printed. -/
inductive OutputFormat where
  | json
  | table
  | text
  | yaml
  deriving DecidableEq, Repr

namespace OutputFormat

/-- All formats. -/
def all : List OutputFormat :=
  [json, table, text, yaml]

/-- The name of the format. -/
def name : OutputFormat → String
  | json => "json"
  | table => "table"
  | text => "text"
  | yaml => "yaml"

/-- The format with exactly this name. -/
def ofName? (name : String) : Option OutputFormat :=
  all.find? fun f => f.name == name

theorem ofName?_name (f : OutputFormat) : ofName? f.name = some f := by
  cases f <;> decide

/-- The format that a text asks for: its name in any letter case, or `yml`. -/
def read (text : String) : Except Error OutputFormat :=
  let name := Text.lowered text
  match if name == "yml" then some yaml else ofName? name with
  | some f => .ok f
  | none => .error (.settings (.unknownFormat text))

end OutputFormat

end ClusterFilter
