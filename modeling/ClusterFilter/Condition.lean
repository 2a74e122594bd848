import ClusterFilter.Schema.Comparators
import ClusterFilter.Schema.Basic
import ClusterFilter.Text.Quoted
import ClusterFilter.Time.Instant
import ClusterFilter.Time.Duration

/-!
# ClusterFilter — values and conditions

A condition compares one field of a resource with a typed value. Its text is an expression again:
strings and map keys are quoted where they cannot stand bare.
-/

namespace ClusterFilter

-- ---------------------------------------------------------------------------
-- Values
-- ---------------------------------------------------------------------------

/-- The type of the values of a kind. -/
abbrev ValueKind.Carrier : ValueKind → Type
  | .string => String
  | .boolean => Bool
  | .number => Int64
  | .date => Instant
  | .duration => Duration
  | .status => Status

/-- A value of any kind. -/
inductive Value where
  | string (s : String)
  | boolean (b : Bool)
  | number (n : Int64)
  | date (t : Instant)
  | duration (d : Duration)
  | status (s : Status)
  deriving DecidableEq

namespace Value

/-- A value of a known kind as a value. -/
def ofCarrier : (kind : ValueKind) → kind.Carrier → Value
  | .string, s => .string s
  | .boolean, b => .boolean b
  | .number, n => .number n
  | .date, t => .date t
  | .duration, d => .duration d
  | .status, s => .status s

/-- The kind of the value. -/
def kind : Value → ValueKind
  | string _ => .string
  | boolean _ => .boolean
  | number _ => .number
  | date _ => .date
  | duration _ => .duration
  | status _ => .status

/-- The value as one of the given kind, if it is one. -/
def toCarrier? : (kind : ValueKind) → Value → Option kind.Carrier
  | .string, .string s => some s
  | .boolean, .boolean b => some b
  | .number, .number n => some n
  | .date, .date t => some t
  | .duration, .duration d => some d
  | .status, .status s => some s
  | _, _ => none

/-- The value as an expression writes it. -/
def chars : Value → List Char
  | string s => Text.bareOrQuoted s.toList
  | boolean b => (if b then "true" else "false").toList
  | number n => Text.signedDigits n.toInt
  | date t => t.chars
  | duration d => d.chars
  | status s => s.chars

/-- The text of a value. -/
def text (v : Value) : String :=
  String.ofList v.chars

end Value

-- ---------------------------------------------------------------------------
-- Field references
-- ---------------------------------------------------------------------------

/-- The field that a condition is about; `key` addresses an entry of a map field. -/
structure FieldRef where
  name : String
  key : Option String
  deriving DecidableEq, Repr

namespace FieldRef

/-- The reference as an expression writes it: a key follows a point, or stands quoted between
brackets. -/
def chars (f : FieldRef) : List Char :=
  match f.key with
  | none => f.name.toList
  | some key =>
    if Text.isBareKey key.toList then f.name.toList ++ '.' :: key.toList
    else f.name.toList ++ '[' :: Text.quote key.toList ++ [']']

/-- The text of a field reference. -/
def text (f : FieldRef) : String :=
  String.ofList f.chars

end FieldRef

-- ---------------------------------------------------------------------------
-- Conditions
-- ---------------------------------------------------------------------------

/-- A comparison of a field with a value. -/
structure Condition where
  field : FieldRef
  kind : FieldKind
  op : Operator
  value : Value
  deriving DecidableEq

namespace Condition

/-- The condition that holds exactly where this one does not, if its operator has a complement. -/
def complement? (c : Condition) : Option Condition :=
  c.op.complement?.map fun op => { c with op := op }

/-- The condition as an expression writes it. -/
def chars (c : Condition) : List Char :=
  c.field.chars ++ ' ' :: c.op.symbol.toList ++ ' ' :: c.value.chars

/-- The text of a condition. -/
def text (c : Condition) : String :=
  String.ofList c.chars

end Condition

end ClusterFilter
