import ClusterFilter.Error
import ClusterFilter.Predicate.Basic

/-!
# ClusterFilter — the disjunctive form

The service takes a filter as a list of clauses of which one has to hold, each a list of
conditions that all have to hold. A predicate is brought into this form by distribution. The number
of clauses is computed first, in 64-bit arithmetic, and a predicate with more than `maxClauses`
clauses is refused before anything is built.
-/

namespace ClusterFilter

/-- Conditions that all have to hold. -/
abbrev Clause := List Condition

namespace Predicate

/-- The largest number of clauses of a filter. -/
def maxClauses : Nat := 1024

-- ---------------------------------------------------------------------------
-- Counting
-- ---------------------------------------------------------------------------

/-- Counts are words of 64 bits; a larger count is none. -/
def countWord? (n : Nat) : Option Nat :=
  if n < 1 <<< 64 then some n else none

mutual

/-- The number of clauses of the disjunctive form, unless a count on the way to it overflows. -/
def clauseCount? : Predicate → Option Nat
  | leaf _ => some 1
  | allOf children => productCount? 1 children
  | anyOf children => sumCount? 0 children

/-- The running product of the counts of the members. -/
def productCount? (sofar : Nat) : List Predicate → Option Nat
  | [] => some sofar
  | p :: ps => do
    let n ← p.clauseCount?
    let product ← countWord? (sofar * n)
    productCount? product ps

/-- The running sum of the counts of the members. -/
def sumCount? (sofar : Nat) : List Predicate → Option Nat
  | [] => some sofar
  | p :: ps => do
    let n ← p.clauseCount?
    let total ← countWord? (sofar + n)
    sumCount? total ps

end

-- ---------------------------------------------------------------------------
-- Distribution
-- ---------------------------------------------------------------------------

/-- Each clause of the first list followed by each clause of the second. -/
def distribute (clauses others : List Clause) : List Clause :=
  clauses.flatMap fun clause => others.map fun other => clause ++ other

mutual

/-- All clauses of the predicate. -/
def expand : Predicate → List Clause
  | leaf c => [[c]]
  | allOf children => expandProduct [[]] children
  | anyOf children => expandSum children

/-- The clauses built so far distributed over the clauses of the members, from left to right. -/
def expandProduct (sofar : List Clause) : List Predicate → List Clause
  | [] => sofar
  | p :: ps => expandProduct (distribute sofar p.expand) ps

/-- The clauses of the members one after another. -/
def expandSum : List Predicate → List Clause
  | [] => []
  | p :: ps => p.expand ++ expandSum ps

end

/-- The clauses of the predicate, if there are no more than a filter may have. -/
def disjunctiveForm (p : Predicate) : Except Error (List Clause) :=
  match p.clauseCount? with
  | some n => if n ≤ maxClauses then .ok p.expand else .error (.tooManyClauses maxClauses)
  | none => .error (.tooManyClauses maxClauses)

end Predicate

end ClusterFilter
