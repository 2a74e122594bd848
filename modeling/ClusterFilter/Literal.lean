import ClusterFilter.Error
import ClusterFilter.Schema.Resource

/-!
# ClusterFilter — values of literals

The text of a literal is read as a value of its field's kind.
-/

namespace ClusterFilter.LiteralText

/-- Reads `true` or `false` in any letter case. -/
def readBoolean (cs : List Char) : Except LiteralFault Bool :=
  if Text.sameIgnoringCase cs "true".toList then .ok true
  else if Text.sameIgnoringCase cs "false".toList then .ok false
  else .error .notBoolean

/-- Reads an integer whose exact value fits 64 bits. -/
def readNumber (cs : List Char) : Except LiteralFault Int64 :=
  match Text.readInteger? cs with
  | none => .error .notANumber
  | some n =>
    if Int64.minValue.toInt ≤ n ∧ n ≤ Int64.maxValue.toInt then .ok (Int64.ofInt n)
    else .error .numberOutOfRange

/-- Reads an instant. -/
def readDate (cs : List Char) : Except LiteralFault Instant :=
  match Instant.read? cs with
  | some t => .ok t
  | none => .error .notADate

/-- Reads a duration. -/
def readDuration [Build] (cs : List Char) : Except LiteralFault Duration :=
  (Duration.read cs).mapError .notADuration

/-- Reads the name of a status of the schema. -/
def readStatus (schema : Schema) (name : String) : Except LiteralFault Status :=
  match schema.status? name with
  | some s => .ok s
  | none => .error (.unknownStatus (schema.statuses.getD []))

/-- Reads a value of the given kind. -/
def read [Build] (schema : Schema) : (kind : ValueKind) → String → Except LiteralFault kind.Carrier
  | .string, text => .ok text
  | .boolean, text => readBoolean text.toList
  | .number, text => readNumber text.toList
  | .date, text => readDate text.toList
  | .duration, text => readDuration text.toList
  | .status, text => readStatus schema text

end ClusterFilter.LiteralText
