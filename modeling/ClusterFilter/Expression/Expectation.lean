import ClusterFilter.Schema.Comparators

/-!
# ClusterFilter — expectations

What a reader of expressions would have accepted at the place of an error.
-/

namespace ClusterFilter

/-- A token, or a class of tokens, that an expression could go on with. -/
inductive Expectation where
  /-- The keyword `and`. -/
  | andWord
  /-- The keyword `or`. -/
  | orWord
  /-- The expression may end. -/
  | endOfInput
  | openParen
  | closeParen
  | fieldName
  | dot
  | openBracket
  | closeBracket
  | mapKey
  | quotedString
  /-- The quote that ends a quoted text. -/
  | closingQuote (quote : Char)
  | comparator (op : Operator)
  /-- A literal of the kind. -/
  | literal (kind : ValueKind)
  deriving DecidableEq, Repr

/-- How a message names the expectation. A sign stands between apostrophes, and an apostrophe
between quotation marks. -/
def Expectation.text : Expectation → String
  | andWord => "and"
  | orWord => "or"
  | endOfInput => "end of input"
  | openParen => "'('"
  | closeParen => "')'"
  | fieldName => "field name"
  | dot => "'.'"
  | openBracket => "'['"
  | closeBracket => "']'"
  | mapKey => "map key"
  | quotedString => "quoted string"
  | closingQuote quote => if quote = '\x27' then "\"'\"" else "'\"'"
  | comparator op => op.symbol
  | literal kind => kind.describe

end ClusterFilter
