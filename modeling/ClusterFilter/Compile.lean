import ClusterFilter.Accessor
import ClusterFilter.Expression.Parser
import ClusterFilter.Literal
import ClusterFilter.Predicate.Negation

/-!
# ClusterFilter — compiling expressions

An expression over a resource is parsed with the resource's grammar and lowered to a predicate:
comparisons become conditions with typed values, terms conjunctions, and expressions disjunctions.
-/

namespace ClusterFilter

variable [Build]

-- ---------------------------------------------------------------------------
-- Lowering
-- ---------------------------------------------------------------------------

/-- The condition that a comparison states. `notcontains` is the negation of `contains`. -/
def Comparison.lower (r : Resource) (c : Comparison) : Except Error Predicate :=
  match Accessor.ofResource? r c.field c.key with
  | none => .error (.unknownField c.field)
  | some a => do
    let value ← (LiteralText.read r.schema a.kind c.literal.text).mapError
      (Error.invalidLiteral a.kind c.literal.text)
    if a.kind = .string ∧ c.op = .notContains then do
      let p ← a.compare .contains value
      p.negate
    else a.compare c.op value

mutual

/-- The disjunction of the terms, from left to right. -/
def Expr.lower (r : Resource) : Expr → Except Error Predicate
  | .one t => t.lower r
  | .more t rest => do
    let p ← t.lower r
    let q ← rest.lower r
    .ok (p.or q)

/-- The conjunction of the factors, from left to right. -/
def Term.lower (r : Resource) : Term → Except Error Predicate
  | .one f => f.lower r
  | .more f rest => do
    let p ← f.lower r
    let q ← rest.lower r
    .ok (p.and q)

/-- The predicate of a comparison or of the expression in parentheses. -/
def Factor.lower (r : Resource) : Factor → Except Error Predicate
  | .comparison c => c.lower r
  | .group e => e.lower r

end

-- ---------------------------------------------------------------------------
-- Compiling
-- ---------------------------------------------------------------------------

namespace Resource

/-- The resource that a selector names, or the error that there is none. -/
def ofSelector (selector : String) : Except Error Resource :=
  match ofSelector? selector with
  | some r => .ok r
  | none => .error (.unknownResource selector)

/-- The tree of an expression over the resource. -/
def parse (r : Resource) (text : String) : Except Error Expr := do
  let g ← r.grammar
  g.parse text

/-- The predicate that an expression over the resource states. -/
def compile (r : Resource) (text : String) : Except Error Predicate := do
  let e ← r.parse text
  e.lower r

end Resource

end ClusterFilter
