/-!
# ClusterFilter — kinds of fields

A field of a resource either holds values that a filter can compare, and then its `ValueKind`
decides on comparators and literals, or it is present on the resource without being filterable.
-/

namespace ClusterFilter

/-- Kinds of values that a filter compares. -/
inductive ValueKind where
  | string
  | boolean
  | number
  | date
  | duration
  | status
  deriving DecidableEq, Repr

/-- Kinds of fields: of filterable values, or one of the three that no filter reaches. -/
inductive FieldKind where
  /-- A field with values of a filterable kind. -/
  | value (kind : ValueKind)
  /-- A list of values. -/
  | array
  /-- Present on the resource but not filterable. -/
  | notApplicable
  /-- Present on the resource with a kind that the service does not expose. -/
  | unknown
  deriving DecidableEq, Repr

instance : Coe ValueKind FieldKind := ⟨.value⟩

namespace ValueKind

/-- The kind in capitals, as messages show it. -/
def label : ValueKind → String
  | string => "STRING"
  | boolean => "BOOLEAN"
  | number => "NUMBER"
  | date => "DATE"
  | duration => "DURATION"
  | status => "STATUS"

/-- The kind as the wire form writes it. -/
def tag : ValueKind → String
  | string => "string"
  | boolean => "boolean"
  | number => "number"
  | date => "date"
  | duration => "duration"
  | status => "status"

/-- The terminal of grammar texts that stands for literals of the kind. -/
def terminal : ValueKind → String
  | string => "STRING"
  | boolean => "BOOL"
  | number => "SIGNED_INT"
  | date => "DATETIME"
  | duration => "DURATION"
  | status => "STATUS"

/-- What an error message calls a literal of the kind. -/
def describe : ValueKind → String
  | string => "string"
  | boolean => "true or false"
  | number => "signed integer"
  | date => "ISO-8601 datetime"
  | duration => "ISO-8601 duration"
  | status => "status name"

end ValueKind

namespace FieldKind

/-- The kind of the field's values, if a filter can compare them. -/
def filterable? : FieldKind → Option ValueKind
  | value kind => some kind
  | _ => none

/-- Whether the field can appear in a filter. -/
def isFilterable (kind : FieldKind) : Bool :=
  kind.filterable?.isSome

/-- The kind in capitals, as messages show it. -/
def label : FieldKind → String
  | value kind => kind.label
  | array => "ARRAY"
  | notApplicable => "NOT_APPLICABLE"
  | unknown => "UNKNOWN"

/-- The kind as the wire form writes it. -/
def tag : FieldKind → String
  | value kind => kind.tag
  | array => "array"
  | notApplicable => "not_applicable"
  | unknown => "unknown"

/-- All nine kinds. -/
def all : List FieldKind :=
  [.value .string, .value .boolean, .value .number, .value .date, .value .duration,
    .value .status, .array, .notApplicable, .unknown]

/-- The kind with the given label. -/
def ofLabel? (label : String) : Option FieldKind :=
  all.find? fun kind => kind.label == label

end FieldKind

end ClusterFilter
