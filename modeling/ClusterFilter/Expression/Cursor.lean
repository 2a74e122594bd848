import ClusterFilter.Operator
import ClusterFilter.Text.Quoted

/-!
# ClusterFilter — cursors

A cursor is a place in an expression. Its methods take one token off the text in front of it and
move past it; which token that is depends on what the reader asks for, so that the same characters
can be a field name in one place and a literal in another.
-/

namespace ClusterFilter

/-- A place in an expression: the number of bytes before it and the text that follows it. -/
structure Cursor where
  offset : Nat
  rest : List Char
  deriving DecidableEq, Repr

namespace Cursor

/-- The start of a text. -/
def start (cs : List Char) : Cursor :=
  ⟨0, cs⟩

/-- The place after the first `n` characters of the text that follows. -/
def skip (n : Nat) (c : Cursor) : Cursor :=
  ⟨c.offset + Text.utf8Length (c.rest.take n), c.rest.drop n⟩

/-- The longest run of characters with the property, and the place after it. -/
def takeWhile (p : Char → Bool) (c : Cursor) : List Char × Cursor :=
  let run := c.rest.takeWhile p
  (run, c.skip run.length)

/-- The place after any white space. -/
def skipBlanks (c : Cursor) : Cursor :=
  (c.takeWhile Text.isBlank).2

/-- The place after the given character, if it comes next. -/
def char? (x : Char) (c : Cursor) : Option Cursor :=
  if c.rest.head? = some x then some (c.skip 1) else none

/-- The place after the keyword, if it comes next in any letter case and as a whole word. -/
def keyword? (word : String) (c : Cursor) : Option Cursor :=
  let n := word.toList.length
  if Text.sameIgnoringCase (c.rest.take n) word.toList && Text.endsWord (c.rest.drop n) then
    some (c.skip n)
  else none

/-- A name: a letter or an underscore, and then any word characters. -/
def identifier? (c : Cursor) : Option (List Char × Cursor) :=
  match c.rest with
  | x :: _ => if x.isAlpha || x == '_' then some (c.takeWhile Text.isWordChar) else none
  | [] => none

/-- A comparator: a sign, the longest one that fits, or a whole word. -/
def comparator? (c : Cursor) : Option (Operator × Cursor) :=
  match Operator.signs.find? fun op => op.symbol.toList.isPrefixOf c.rest with
  | some op => some (op, c.skip op.symbol.toList.length)
  | none =>
    let (word, after) := c.takeWhile Char.isAlpha
    match Operator.ofWord? word with
    | some op => if Text.endsWord after.rest then some (op, after) else none
    | none => none

/-- A bare text; none if there is no character of one. -/
def bare? (c : Cursor) : Option (List Char × Cursor) :=
  match c.takeWhile Text.isBareChar with
  | ([], _) => none
  | (text, after) => some (text, after)

/-- A bare map key; none if there is no character of one. -/
def key? (c : Cursor) : Option (List Char × Cursor) :=
  match c.takeWhile Text.isKeyChar with
  | ([], _) => none
  | (key, after) => some (key, after)

/-- The quote that comes next, if one does. -/
def quote? (c : Cursor) : Option Char :=
  match c.rest with
  | x :: _ => if x == '\x27' || x == '\x22' then some x else none
  | [] => none

/-- The text up to the closing `quote`, with its escapes resolved, and the place after that quote.
The cursor stands at the opening quote; none if the text is not closed. -/
def quoted? (quote : Char) (c : Cursor) : Option (List Char × Cursor) :=
  (Text.splitQuoted quote (c.rest.drop 1)).map fun (body, _) =>
    (Text.unescape body, c.skip (body.length + 2))

/-- The longest excerpt that stands for a token in an error message. -/
def maxLexeme : Nat := 32

/-- The token at the cursor as an error message shows it: a delimiter, or the beginning of a bare
text. -/
def lexeme (c : Cursor) : List Char :=
  match c.rest with
  | [] => []
  | x :: _ =>
    if Text.isDelimiter x then [x] else (c.rest.takeWhile Text.isBareChar).take maxLexeme

end Cursor

end ClusterFilter
