import ClusterFilter.Document.Json
import ClusterFilter.Predicate.Disjunctive

/-!
# ClusterFilter — the wire form

The message that carries a filter to the service: a disjunction of conjunctions of conditions.
Dates travel as RFC 3339 texts, durations as seconds and nanoseconds of the same sign, statuses as
a name and a code.
-/

namespace ClusterFilter

/-- A value in the wire form. -/
def Value.document : Value → Document
  | .string s => .text s
  | .boolean b => .flag b
  | .number n => .integer n.toInt
  | .date t => .text (String.ofList t.chars)
  | .duration d =>
    .record [("seconds", .integer d.wholeSeconds), ("nanos", .integer d.subsecondNanos)]
  | .status s => .record [("name", .text s.name), ("code", .integer s.code.toInt)]

/-- A field reference in the wire form; a field without a key has no member for it. -/
def FieldRef.document (f : FieldRef) : Document :=
  .record (("name", .text f.name) :: f.key.toList.map fun key => ("key", .text key))

/-- A condition in the wire form. -/
def Condition.document (c : Condition) : Document :=
  .record
    [("field", c.field.document), ("kind", .text c.kind.tag), ("operator", .text c.op.wireName),
      ("value", c.value.document)]

/-- A list of clauses in the wire form. -/
def wireDocument (clauses : List Clause) : Document :=
  .record
    [("or", .list (clauses.map fun clause =>
      .record [("and", .list (clause.map Condition.document))]))]

namespace Predicate

/-- The wire form of a predicate. -/
def wire (p : Predicate) : Except Error Document := do
  let clauses ← p.disjunctiveForm
  .ok (wireDocument clauses)

/-- The message with the wire form of a predicate. -/
def wireMessage (p : Predicate) : Except Error String := do
  let document ← p.wire
  .ok (String.ofList document.compact)

end Predicate

end ClusterFilter
