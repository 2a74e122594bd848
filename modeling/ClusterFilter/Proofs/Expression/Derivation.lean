import ClusterFilter.Expression.Parser
import ClusterFilter.Proofs.Expression.Token

/-!
# ClusterFilter — the grammar of expressions

What it means that a text reads as an expression, said without a reader: a tree is derived from a
text if its parts stand in the text one after another, with any white space before, between and
after them. Every relation threads the text that is left.

The relations say nothing about where the parts stand. Two trees that differ in their spans only
are derived from the same texts, and `withoutSpans` takes the spans away where trees are compared.

Main definitions:

* `DerivesExpr`, `DerivesTerm`, `DerivesFactor` — the boolean skeleton.
* `Grammar.Derives` — a whole text reads as a tree, with no more than 64 parentheses open at once.
-/

namespace ClusterFilter

-- ---------------------------------------------------------------------------
-- Trees without places
-- ---------------------------------------------------------------------------

/-- The literal at no place. -/
def Literal.withoutSpan (l : Literal) : Literal :=
  { l with span := ⟨0, 0⟩ }

/-- The comparison at no place. -/
def Comparison.withoutSpans (c : Comparison) : Comparison :=
  { c with literal := c.literal.withoutSpan, span := ⟨0, 0⟩ }

mutual

/-- The expression with its comparisons at no place. -/
def Expr.withoutSpans : Expr → Expr
  | .one t => .one t.withoutSpans
  | .more t rest => .more t.withoutSpans rest.withoutSpans

/-- The term with its comparisons at no place. -/
def Term.withoutSpans : Term → Term
  | .one f => .one f.withoutSpans
  | .more f rest => .more f.withoutSpans rest.withoutSpans

/-- The factor with its comparisons at no place. -/
def Factor.withoutSpans : Factor → Factor
  | .comparison c => .comparison c.withoutSpans
  | .group e => .group e.withoutSpans

end

mutual

/-- The most parentheses that are open at once in the expression. -/
def Expr.nesting : Expr → Nat
  | .one t => t.nesting
  | .more t rest => max t.nesting rest.nesting

/-- The most parentheses that are open at once in the term. -/
def Term.nesting : Term → Nat
  | .one f => f.nesting
  | .more f rest => max f.nesting rest.nesting

/-- The most parentheses that are open at once in the factor. -/
def Factor.nesting : Factor → Nat
  | .comparison _ => 0
  | .group e => e.nesting + 1

end

namespace Grammar

open Token

-- ---------------------------------------------------------------------------
-- Comparisons
-- ---------------------------------------------------------------------------

/-- The shape of a bare literal: a boolean is `true` or `false` in any letter case, a number is an
optional sign and one or more digits, and literals of the other kinds may be any bare text. -/
def IsShape : ValueKind → List Char → Prop
  | .boolean, cs =>
    Text.sameIgnoringCase cs "true".toList = true ∨ Text.sameIgnoringCase cs "false".toList = true
  | .number, cs => ∃ sign digits, cs = sign ++ digits ∧ (sign = [] ∨ sign = ['+'] ∨ sign = ['-']) ∧
      digits ≠ [] ∧ ∀ x ∈ digits, x.isDigit = true
  | _, _ => True

/-- The text begins with a literal of the kind. Only a string may be quoted. -/
inductive LiteralToken (kind : ValueKind) (l : Literal) (cs rest : List Char) : Prop where
  | bare : l.kind = kind → l.quoted = false → Run Text.isBareChar l.text.toList cs rest →
      IsShape kind l.text.toList → LiteralToken kind l cs rest
  | quoted : kind = .string → l.kind = kind → l.quoted = true → Quoted l.text.toList cs rest →
      LiteralToken kind l cs rest

/-- The text begins with a map key: a bare one after a point, or a quoted one in brackets. -/
inductive Key (key : String) (cs rest : List Char) : Prop where
  | dotted {a b : List Char} : Blanks cs ('.' :: a) → Blanks a b →
      Run Text.isKeyChar key.toList b rest → Key key cs rest
  | bracketed {a b c : List Char} : Blanks cs ('[' :: a) → Blanks a b → Quoted key.toList b c →
      Blanks c (']' :: rest) → Key key cs rest

/-- The part between field name and comparator: a key for a keyed field, nothing for another. -/
inductive KeyPart (p : Production) : (key : Option String) → (cs rest : List Char) → Prop where
  | absent {cs : List Char} : p.keyed = false → KeyPart p none cs cs
  | present {key : String} {cs rest : List Char} : p.keyed = true → Key key cs rest →
      KeyPart p (some key) cs rest

/-- The text begins with the comparison, which an alternative of the grammar provides for. -/
def DerivesComparison (g : Grammar) (c : Comparison) (cs rest : List Char) : Prop :=
  ∃ p ∈ g.productions, p.field = c.field ∧ p.comparators.allows c.op = true ∧
    ∃ afterName afterKey op afterOp literal,
      Identifier c.field.toList cs afterName ∧ KeyPart p c.key afterName afterKey ∧
      Blanks afterKey op ∧ Comparator c.op op afterOp ∧
      Blanks afterOp literal ∧ LiteralToken p.token c.literal literal rest

-- ---------------------------------------------------------------------------
-- Expressions
-- ---------------------------------------------------------------------------

mutual

/-- The text begins with the expression: terms with `or` between them. -/
inductive DerivesExpr (g : Grammar) : Expr → (cs rest : List Char) → Prop where
  | one {t : Term} {cs rest : List Char} : DerivesTerm g t cs rest → DerivesExpr g (.one t) cs rest
  | more {t : Term} {e : Expr} {cs a b c rest : List Char} : DerivesTerm g t cs a → Blanks a b →
      Keyword "or" b c → DerivesExpr g e c rest → DerivesExpr g (.more t e) cs rest

/-- The text begins with the term: factors with `and` between them. -/
inductive DerivesTerm (g : Grammar) : Term → (cs rest : List Char) → Prop where
  | one {f : Factor} {cs rest : List Char} : DerivesFactor g f cs rest →
      DerivesTerm g (.one f) cs rest
  | more {f : Factor} {t : Term} {cs a b c rest : List Char} : DerivesFactor g f cs a →
      Blanks a b → Keyword "and" b c → DerivesTerm g t c rest → DerivesTerm g (.more f t) cs rest

/-- The text begins with the factor: a comparison, or an expression in parentheses. -/
inductive DerivesFactor (g : Grammar) : Factor → (cs rest : List Char) → Prop where
  | comparison {c : Comparison} {cs a rest : List Char} : Blanks cs a →
      DerivesComparison g c a rest → DerivesFactor g (.comparison c) cs rest
  | group {e : Expr} {cs a b rest : List Char} : Blanks cs ('(' :: a) → DerivesExpr g e a b →
      Blanks b (')' :: rest) → DerivesFactor g (.group e) cs rest

end

/-- The whole text reads as the expression, whose parentheses nest no deeper than is allowed. -/
def Derives (g : Grammar) (text : String) (e : Expr) : Prop :=
  (∃ rest, DerivesExpr g e text.toList rest ∧ Blanks rest []) ∧ e.nesting ≤ maxNesting

end Grammar

end ClusterFilter
