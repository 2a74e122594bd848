import ClusterFilter.Error
import ClusterFilter.Predicate.Basic

/-!
# ClusterFilter — negation

A predicate is negated by De Morgan's laws, down to its conditions. A condition whose operator has
no complement cannot be negated; the leftmost one is the error.

The negated members are combined two by two. Where there is no member, the result is the
disjunction without children, whichever connective it came from.
-/

namespace ClusterFilter.Predicate

/-- The members combined from left to right, and the empty disjunction if there are none. -/
def combineAll (combine : Predicate → Predicate → Predicate) : List Predicate → Predicate
  | [] => anyOf []
  | p :: ps => ps.foldl combine p

mutual

/-- The predicate with every condition turned into its complement and the connectives
exchanged. -/
def negate : Predicate → Except Error Predicate
  | leaf c =>
    match c.complement? with
    | some c' => .ok (leaf c')
    | none => .error (.notNegatable c)
  | allOf children => do
    let negated ← negateAll children
    .ok (combineAll or negated)
  | anyOf children => do
    let negated ← negateAll children
    .ok (combineAll and negated)

/-- Each member negated, up to the first that cannot be. -/
def negateAll : List Predicate → Except Error (List Predicate)
  | [] => .ok []
  | p :: ps => do
    let q ← p.negate
    let qs ← negateAll ps
    .ok (q :: qs)

end

end ClusterFilter.Predicate
