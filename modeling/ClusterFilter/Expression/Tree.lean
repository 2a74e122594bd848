import ClusterFilter.Schema.Comparators

/-!
# ClusterFilter — expression trees

What an expression says, as it was written: terms joined by `or`, of factors joined by `and`, of
comparisons and expressions in parentheses. Each comparison knows the bytes that it took.
-/

namespace ClusterFilter

/-- A range of bytes of an expression; `stop` is the first byte after it. -/
structure Span where
  start : Nat
  stop : Nat
  deriving DecidableEq, Repr

/-- The right-hand side of a comparison. Quotes and escapes are gone from its text. -/
structure Literal where
  kind : ValueKind
  text : String
  quoted : Bool
  span : Span
  deriving DecidableEq, Repr

/-- A comparison of a field with a literal, from the field name to the end of the literal. -/
structure Comparison where
  field : String
  key : Option String
  op : Operator
  literal : Literal
  span : Span
  deriving DecidableEq, Repr

mutual

/-- One or more terms joined by `or`. -/
inductive Expr where
  | one (term : Term)
  | more (term : Term) (rest : Expr)

/-- One or more factors joined by `and`. -/
inductive Term where
  | one (factor : Factor)
  | more (factor : Factor) (rest : Term)

/-- A comparison, or an expression in parentheses. -/
inductive Factor where
  | comparison (c : Comparison)
  | group (e : Expr)

end

/-- The terms of an expression. -/
def Expr.terms : Expr → List Term
  | .one t => [t]
  | .more t rest => t :: rest.terms

/-- The factors of a term. -/
def Term.factors : Term → List Factor
  | .one f => [f]
  | .more f rest => f :: rest.factors

mutual

/-- The comparisons of an expression from left to right. -/
def Expr.comparisons : Expr → List Comparison
  | .one t => t.comparisons
  | .more t rest => t.comparisons ++ rest.comparisons

/-- The comparisons of a term from left to right. -/
def Term.comparisons : Term → List Comparison
  | .one f => f.comparisons
  | .more f rest => f.comparisons ++ rest.comparisons

/-- The comparisons of a factor from left to right. -/
def Factor.comparisons : Factor → List Comparison
  | .comparison c => [c]
  | .group e => e.comparisons

end

end ClusterFilter
