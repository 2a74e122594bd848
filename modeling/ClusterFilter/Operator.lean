import ClusterFilter.Text.Basic

/-!
# ClusterFilter — comparison operators

The ten operators that the service understands, each with the symbol that expressions use, the
name that the wire form uses and, but for two, the operator that selects exactly the complement.

`complement?_involutive`: the complement of a complement is the operator itself.
-/

namespace ClusterFilter

/-- Comparison operators understood by the service. -/
inductive Operator where
  | equal
  | notEqual
  | less
  | lessOrEqual
  | greater
  | greaterOrEqual
  | contains
  | notContains
  | startsWith
  | endsWith
  deriving DecidableEq, Repr

namespace Operator

/-- How an expression writes the operator. -/
def symbol : Operator → String
  | equal => "="
  | notEqual => "!="
  | less => "<"
  | lessOrEqual => "<="
  | greater => ">"
  | greaterOrEqual => ">="
  | contains => "contains"
  | notContains => "notcontains"
  | startsWith => "startswith"
  | endsWith => "endswith"

/-- How the wire form writes the operator. -/
def wireName : Operator → String
  | equal => "equal"
  | notEqual => "not_equal"
  | less => "less_than"
  | lessOrEqual => "less_than_or_equal"
  | greater => "greater_than"
  | greaterOrEqual => "greater_than_or_equal"
  | contains => "contains"
  | notContains => "not_contains"
  | startsWith => "starts_with"
  | endsWith => "ends_with"

/-- The name of the operator as a terminal of grammar texts. -/
def terminal : Operator → String
  | equal => "EQ"
  | notEqual => "NEQ"
  | less => "LT"
  | lessOrEqual => "LTE"
  | greater => "GT"
  | greaterOrEqual => "GTE"
  | contains => "CONTAINS"
  | notContains => "NOTCONTAINS"
  | startsWith => "STARTSWITH"
  | endsWith => "ENDSWITH"

/-- The operator that is written as a word, if the word names one in any letter case. -/
def ofWord? (word : List Char) : Option Operator :=
  [contains, notContains, startsWith, endsWith].find? fun op =>
    Text.lower word == op.symbol.toList

/-- The operators written as signs, a longer sign before its own beginning. -/
def signs : List Operator :=
  [lessOrEqual, greaterOrEqual, notEqual, equal, less, greater]

/-- The operator with the given symbol; words may be in any letter case. -/
def ofSymbol? (symbol : String) : Option Operator :=
  (signs.find? fun op => op.symbol == symbol) <|> ofWord? symbol.toList

/-- The operator that selects exactly what this one leaves out, if the service has one. -/
def complement? : Operator → Option Operator
  | equal => some notEqual
  | notEqual => some equal
  | less => some greaterOrEqual
  | lessOrEqual => some greater
  | greater => some lessOrEqual
  | greaterOrEqual => some less
  | contains => some notContains
  | notContains => some contains
  | startsWith => none
  | endsWith => none

theorem complement?_involutive {a b : Operator} (h : a.complement? = some b) :
    b.complement? = some a := by
  cases a <;> simp [complement?] at h <;> subst h <;> rfl

end Operator

end ClusterFilter
