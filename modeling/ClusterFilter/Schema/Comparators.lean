import ClusterFilter.Operator
import ClusterFilter.Schema.Kind

/-!
# ClusterFilter — comparators by kind

Each kind of value is compared by one of three families of operators.
-/

namespace ClusterFilter

/-- Families of comparators. -/
inductive Comparators where
  /-- Equality and the text operators. -/
  | text
  /-- Equality only. -/
  | equality
  /-- Equality and order. -/
  | ordered
  deriving DecidableEq, Repr

namespace Comparators

/-- The operators of the family, in the order in which messages list them. -/
def operators : Comparators → List Operator
  | text => [.equal, .notEqual, .contains, .notContains, .startsWith, .endsWith]
  | equality => [.equal, .notEqual]
  | ordered => [.equal, .notEqual, .less, .lessOrEqual, .greater, .greaterOrEqual]

/-- Whether the operator is one of the family. -/
def allows (comparators : Comparators) (op : Operator) : Bool :=
  comparators.operators.contains op

/-- The name of the grammar rule that lists the operators of the family. -/
def rule : Comparators → String
  | text => "string_comp"
  | equality => "eq_comp"
  | ordered => "generic_comp"

end Comparators

namespace ValueKind

/-- The comparators that a grammar has for values of the kind. -/
def comparators : ValueKind → Comparators
  | string => .text
  | boolean => .equality
  | number => .ordered
  | date => .ordered
  | duration => .ordered
  | status => .equality

end ValueKind

end ClusterFilter
