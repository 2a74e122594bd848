import ClusterFilter.Expression.Expectation
import ClusterFilter.Text.Decimal

/-!
# ClusterFilter — errors in the form of an expression

A rejected expression is split at the place of the error. From the two halves come the offset in
bytes, the column in characters and the excerpt that shows the place.
-/

namespace ClusterFilter

/-- A text that is no expression: what stands before and after the place of the error, the token
found there (none at the end of the text), and what would have been accepted. -/
structure Misfit where
  before : List Char
  after : List Char
  found : Option (List Char)
  expected : List Expectation
  deriving DecidableEq, Repr

namespace Misfit

/-- Characters shown on each side of the place of an error. -/
def contextWidth : Nat := 40

/-- Bytes before the place of the error. -/
def offset (e : Misfit) : Nat :=
  Text.utf8Length e.before

/-- The column of the place of the error; the first column is 1. -/
def column (e : Misfit) : Nat :=
  e.before.length + 1

/-- An excerpt of the text around the error, and below it a caret under the place. The part after
the place ends with its line. -/
def context (e : Misfit) : List Char :=
  let skipped := e.before.length - contextWidth
  let head := e.before.drop skipped
  let tail := (e.after.takeWhile (· != '\n')).take contextWidth
  head ++ tail ++ '\n' :: List.replicate head.length ' ' ++ ['^']

/-- The wording of the error. -/
def chars (e : Misfit) : List Char :=
  let place := " at column ".toList ++ Text.digits e.column
  let head := match e.found with
    | some found => "unexpected '".toList ++ found ++ '\x27' :: place
    | none => "unexpected end of input".toList ++ place
  let expectations :=
    if e.expected.isEmpty then []
    else ", expected one of: ".toList ++
      Text.joinWith ", ".toList (e.expected.map fun x => x.text.toList)
  head ++ expectations ++ '\n' :: e.context

end Misfit

end ClusterFilter
