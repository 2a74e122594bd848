import ClusterFilter.Condition
import ClusterFilter.Expression.Misfit

/-!
# ClusterFilter — errors

All the causes for which an operation of the library fails, and their wording in one place.
-/

namespace ClusterFilter

/-- Reasons why the text of a literal is no value of its kind. -/
inductive LiteralFault where
  | notBoolean
  | notANumber
  | numberOutOfRange
  | notADate
  | notADuration (fault : Duration.Fault)
  /-- No status of the vocabulary, which is given. -/
  | unknownStatus (vocabulary : List Status)
  deriving DecidableEq, Repr

/-- The wording of a literal's fault. -/
def LiteralFault.chars : LiteralFault → List Char
  | notBoolean => "expected true or false".toList
  | notANumber => "expected a signed integer".toList
  | numberOutOfRange => "out of range for a 64-bit integer".toList
  | notADate => "expected an ISO-8601 datetime such as 2024-12-28T14:00:00Z".toList
  | notADuration fault => fault.chars
  | unknownStatus vocabulary =>
    "expected one of: ".toList ++ Text.joinWith ", ".toList (vocabulary.map Status.chars)

/-- A file at a path that holds no settings, with what the reader of its text says of it. -/
structure Unreadable where
  path : String
  reason : String
  deriving DecidableEq, Repr

/-- Faults of the settings and of their file. -/
inductive SettingsFault where
  | unknownKey (key : String)
  | unknownFormat (text : String)
  | unknownListFormat (text : String)
  | unreadable (file : Unreadable)
  /-- No place for a settings file is known. -/
  | noHome
  deriving DecidableEq, Repr

/-- The wording of a fault of the settings. -/
def SettingsFault.chars : SettingsFault → List Char
  | unknownKey key =>
    "Unknown config key '".toList ++ key.toList ++
      "' (expected one of: endpoint, output)".toList
  | unknownFormat text =>
    "Unknown output format '".toList ++ text.toList ++
      "' (expected json, yaml, table or text)".toList
  | unknownListFormat text =>
    "Unknown output format '".toList ++ text.toList ++
      "' (expected table, json or yaml)".toList
  | unreadable file =>
    "Failed to parse ".toList ++ file.path.toList ++ ": ".toList ++ file.reason.toList
  | noHome => "Could not determine home directory".toList

/-- Causes of failure. -/
inductive Error where
  /-- No resource has this selector. -/
  | unknownResource (selector : String)
  /-- No grammar can be made for this field. -/
  | unsupportedField (resource field : String) (kind : FieldKind)
  /-- The text is no expression. -/
  | malformed (misfit : Misfit)
  /-- The resource has no filterable field of this name. -/
  | unknownField (name : String)
  /-- The literal is no value of the field's kind. -/
  | invalidLiteral (kind : ValueKind) (raw : String) (fault : LiteralFault)
  /-- The operator of this condition has no complement. -/
  | notNegatable (condition : Condition)
  /-- The disjunctive form would have more clauses than are allowed. -/
  | tooManyClauses (limit : Nat)
  /-- The kind of the field does not admit the operator. -/
  | unsupportedOperator (field : FieldRef) (op : Operator)
  | settings (fault : SettingsFault)
  /-- A file could not be read or written, for the reason that the system gives. -/
  | file {reason : String}
  deriving DecidableEq

namespace Error

/-- The wording of an error. -/
def chars : Error → List Char
  | unknownResource selector =>
    "'".toList ++ selector.toList ++ "' is not a valid filter type".toList
  | unsupportedField resource field kind =>
    "field '".toList ++ field.toList ++ "' of ".toList ++ resource.toList ++ " has kind ".toList ++
      kind.label.toList ++ ", which has no grammar production".toList
  | malformed misfit => "Filter syntax error: ".toList ++ misfit.chars
  | unknownField name => "Filter has no field '".toList ++ name.toList ++ "'".toList
  | invalidLiteral kind raw fault =>
    "Invalid ".toList ++ kind.label.toList ++ " literal '".toList ++ raw.toList ++ "': ".toList ++
      fault.chars
  | notNegatable condition => "Predicate cannot be negated: ".toList ++ condition.chars
  | tooManyClauses limit =>
    "Filter expands to more than ".toList ++ Text.digits limit ++
      " OR-clauses; factor out common conditions".toList
  | unsupportedOperator field op =>
    "Operator '".toList ++ op.symbol.toList ++ "' is not supported by field '".toList ++
      field.chars ++ "'".toList
  | settings fault => "Configuration error: ".toList ++ fault.chars
  | @file reason => "IO error: ".toList ++ reason.toList

/-- Whether this is no error that the program meets, but where a check of its build stops it. -/
def isStop : Error → Bool
  | invalidLiteral _ _ (.notADuration .overflow) => true
  | _ => false

/-- The text of an error. -/
def message (e : Error) : String :=
  String.ofList e.chars

end Error

end ClusterFilter
