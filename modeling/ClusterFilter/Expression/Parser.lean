import ClusterFilter.Expression.Cursor
import ClusterFilter.Expression.Tree
import ClusterFilter.Grammar.Basic

/-!
# ClusterFilter — reading expressions

A grammar reads an expression from left to right, with one token of foresight and no recovery: the
result is the whole tree, or the first place where the text cannot go on as an expression, or the
first field name that the grammar does not have.

Parentheses nest to a fixed depth. The depth that is left drives the recursion through groups; the
loops over factors and terms end because every round takes a keyword off the text.
-/

namespace ClusterFilter

-- ---------------------------------------------------------------------------
-- Failures
-- ---------------------------------------------------------------------------

/-- Why reading stopped. -/
inductive Failure where
  /-- The token at the cursor (none at the end of the text) is not among the expected ones. -/
  | misfit (place : Cursor) (found : Option (List Char)) (expected : List Expectation)
  /-- The grammar has no field of this name. -/
  | unknownField (name : List Char)
  deriving DecidableEq, Repr

namespace Failure

/-- Whatever stands at the cursor is not among the expected tokens. -/
def unexpected (c : Cursor) (expected : List Expectation) : Failure :=
  .misfit c (if c.rest.isEmpty then none else some c.lexeme) expected

/-- The text ends before the expected token. -/
def unfinished (c : Cursor) (expected : List Expectation) : Failure :=
  .misfit (c.skip c.rest.length) none expected

/-- The failure as an error in the given text. -/
def toError (input : List Char) : Failure → Error
  | misfit place found expected =>
    .malformed ⟨input.take (input.length - place.rest.length), place.rest, found, expected⟩
  | unknownField name => .unknownField (String.ofList name)

end Failure

/-- A reader of one part of an expression: the part and the place after it, or why there is
none. -/
abbrev Reader (α : Type) := Cursor → Except Failure (α × Cursor)

namespace Grammar

-- ---------------------------------------------------------------------------
-- Comparisons
-- ---------------------------------------------------------------------------

/-- The key of a map field: a bare key after a point, or a quoted text between brackets. -/
def readKey : Reader String := fun c =>
  let c := c.skipBlanks
  match c.char? '.' with
  | some c =>
    let c := c.skipBlanks
    match c.key? with
    | some (key, c) => .ok (String.ofList key, c)
    | none => .error (.unexpected c [.mapKey])
  | none =>
    match c.char? '[' with
    | none => .error (.unexpected c [.dot, .openBracket])
    | some c =>
      let c := c.skipBlanks
      match c.quote? with
      | none => .error (.unexpected c [.quotedString])
      | some quote =>
        match c.quoted? quote with
        | none => .error (.unfinished c [.closingQuote quote])
        | some (key, c) =>
          let c := c.skipBlanks
          match c.char? ']' with
          | some c => .ok (String.ofList key, c)
          | none => .error (.unexpected c [.closeBracket])

/-- The key, if the field needs one. -/
def readKeyOf (p : Production) : Reader (Option String) := fun c =>
  if p.keyed then do
    let (key, c) ← readKey c
    .ok (some key, c)
  else .ok (none, c)

/-- A comparator of the family. -/
def readOperator (comparators : Comparators) : Reader Operator := fun c =>
  let c := c.skipBlanks
  let expected := comparators.operators.map Expectation.comparator
  match c.comparator? with
  | none => .error (.unexpected c expected)
  | some (op, after) =>
    if comparators.allows op then .ok (op, after)
    else .error (.misfit c (some op.symbol.toList) expected)

/-- Whether a bare text has the shape of a literal of the kind. Dates, durations and statuses are
read only when the expression is compiled. -/
def isShaped : ValueKind → List Char → Bool
  | .boolean, cs =>
    Text.sameIgnoringCase cs "true".toList || Text.sameIgnoringCase cs "false".toList
  | .number, cs => (Text.readInteger? cs).isSome
  | _, _ => true

/-- A bare literal. -/
def readBareLiteral (kind : ValueKind) : Reader Literal := fun c =>
  match c.bare? with
  | none => .error (.unexpected c [.literal kind])
  | some (text, after) =>
    if isShaped kind text then
      .ok (⟨kind, String.ofList text, false, ⟨c.offset, after.offset⟩⟩, after)
    else .error (.misfit c (some text) [.literal kind])

/-- A literal of the kind. Only strings may be quoted. -/
def readLiteral (kind : ValueKind) : Reader Literal := fun c =>
  let c := c.skipBlanks
  match c.quote? with
  | some quote =>
    if kind = .string then
      match c.quoted? quote with
      | none => .error (.unfinished c [.closingQuote quote])
      | some (text, after) =>
        .ok (⟨kind, String.ofList text, true, ⟨c.offset, after.offset⟩⟩, after)
    else readBareLiteral kind c
  | none => readBareLiteral kind c

/-- A comparison; the cursor stands at its first character. -/
def readComparison (g : Grammar) : Reader Comparison := fun c =>
  match c.identifier? with
  | none => .error (.unexpected c [.openParen, .fieldName])
  | some (name, afterName) =>
    match g.resolve? (String.ofList name) with
    | none => .error (.unknownField name)
    | some p => do
      let (key, c') ← readKeyOf p afterName
      let (op, c') ← readOperator p.comparators c'
      let (literal, c') ← readLiteral p.token c'
      .ok (⟨String.ofList name, key, op, literal, ⟨c.offset, literal.span.stop⟩⟩, c')

-- ---------------------------------------------------------------------------
-- Factors, terms and expressions
-- ---------------------------------------------------------------------------

/-- Factors joined by `and`, at most `more` of them after the first. -/
def readFactors (factor : Reader Factor) : (more : Nat) → Reader Term
  | 0, c => do
    let (f, c) ← factor c
    .ok (.one f, c)
  | more + 1, c => do
    let (f, c) ← factor c
    match c.skipBlanks.keyword? "and" with
    | some c => do
      let (t, c) ← readFactors factor more c
      .ok (.more f t, c)
    | none => .ok (.one f, c)

/-- A term. Each factor after the first takes a keyword, so that the length of the text bounds
their number. -/
def readTerm (factor : Reader Factor) : Reader Term := fun c =>
  readFactors factor c.rest.length c

/-- Terms joined by `or`, at most `more` of them after the first. -/
def readTerms (factor : Reader Factor) : (more : Nat) → Reader Expr
  | 0, c => do
    let (t, c) ← readTerm factor c
    .ok (.one t, c)
  | more + 1, c => do
    let (t, c) ← readTerm factor c
    match c.skipBlanks.keyword? "or" with
    | some c => do
      let (e, c) ← readTerms factor more c
      .ok (.more t e, c)
    | none => .ok (.one t, c)

/-- An expression. -/
def readExpr (factor : Reader Factor) : Reader Expr := fun c =>
  readTerms factor c.rest.length c

/-- A factor, with at most `depth` parentheses open inside of it at once. -/
def readFactor (g : Grammar) : (depth : Nat) → Reader Factor
  | 0, c =>
    let c := c.skipBlanks
    match c.char? '(' with
    | some _ => .error (.misfit c (some ['(']) [.fieldName])
    | none => do
      let (comparison, c) ← g.readComparison c
      .ok (.comparison comparison, c)
  | depth + 1, c =>
    let c := c.skipBlanks
    match c.char? '(' with
    | some c => do
      let (e, c) ← readExpr (g.readFactor depth) c
      let c := c.skipBlanks
      match c.char? ')' with
      | some c => .ok (.group e, c)
      | none => .error (.unexpected c [.andWord, .orWord, .closeParen])
    | none => do
      let (comparison, c) ← g.readComparison c
      .ok (.comparison comparison, c)

-- ---------------------------------------------------------------------------
-- Whole texts
-- ---------------------------------------------------------------------------

/-- The deepest nesting of parentheses. -/
def maxNesting : Nat := 64

/-- Reads an expression that is the whole text, but for white space at its ends. -/
def readAll (g : Grammar) (input : List Char) : Except Failure Expr := do
  let (e, c) ← readExpr (g.readFactor maxNesting) (Cursor.start input)
  let c := c.skipBlanks
  if c.rest.isEmpty then .ok e
  else .error (.unexpected c [.andWord, .orWord, .endOfInput])

/-- Parses a text as an expression of the grammar. -/
def parse (g : Grammar) (text : String) : Except Error Expr :=
  match g.readAll text.toList with
  | .ok e => .ok e
  | .error failure => .error (failure.toError text.toList)

end Grammar

end ClusterFilter
