import ClusterFilter.Document.Basic
import ClusterFilter.Text.Decimal

/-!
# ClusterFilter — documents as JSON

Two layouts: the compact one has no white space, the indented one has a line for each item and
member, two blanks deeper than what holds it. Both escape the quotation mark, the backslash and the
control characters below U+0020, and write everything else as it is.
-/

namespace ClusterFilter.Document

-- ---------------------------------------------------------------------------
-- Strings
-- ---------------------------------------------------------------------------

/-- A digit of base 16 in lower case. -/
def hexDigit (n : Nat) : Char :=
  Nat.digitChar (n % 16)

/-- A character inside a JSON string. -/
def jsonChar (c : Char) : List Char :=
  if c = '\x22' then ['\\', '\x22']
  else if c = '\\' then ['\\', '\\']
  else if c = '\x08' then ['\\', 'b']
  else if c = '\x0c' then ['\\', 'f']
  else if c = '\n' then ['\\', 'n']
  else if c = '\r' then ['\\', 'r']
  else if c = '\t' then ['\\', 't']
  else if c.toNat < 0x20 then
    ['\\', 'u', '0', '0', hexDigit (c.toNat / 16), hexDigit c.toNat]
  else [c]

/-- A text as a JSON string. -/
def jsonString (cs : List Char) : List Char :=
  '\x22' :: cs.flatMap jsonChar ++ ['\x22']

/-- A truth value as JSON writes it. -/
def flagChars (b : Bool) : List Char :=
  (if b then "true" else "false").toList

-- ---------------------------------------------------------------------------
-- Compact
-- ---------------------------------------------------------------------------

mutual

/-- The document as JSON without white space. -/
def compact : Document → List Char
  | text s => jsonString s.toList
  | integer n => Text.signedDigits n
  | flag b => flagChars b
  | list items => '[' :: compactItems items ++ [']']
  | record members => '\x7b' :: compactMembers members ++ ['\x7d']

/-- Items with commas between them. -/
def compactItems : List Document → List Char
  | [] => []
  | [d] => d.compact
  | d :: ds => d.compact ++ ',' :: compactItems ds

/-- Members with commas between them. -/
def compactMembers : List (String × Document) → List Char
  | [] => []
  | [(name, d)] => jsonString name.toList ++ ':' :: d.compact
  | (name, d) :: ms => jsonString name.toList ++ ':' :: d.compact ++ ',' :: compactMembers ms

end

-- ---------------------------------------------------------------------------
-- Indented
-- ---------------------------------------------------------------------------

/-- A new line with the given number of blanks. -/
def newLine (indent : Nat) : List Char :=
  '\n' :: List.replicate indent ' '

mutual

/-- The document as JSON on several lines; `indent` is the indentation of the line it starts
on. -/
def indented (indent : Nat) : Document → List Char
  | text s => jsonString s.toList
  | integer n => Text.signedDigits n
  | flag b => flagChars b
  | list [] => ['[', ']']
  | list items => '[' :: indentedItems (indent + 2) items ++ newLine indent ++ [']']
  | record [] => ['\x7b', '\x7d']
  | record members => '\x7b' :: indentedMembers (indent + 2) members ++ newLine indent ++ ['\x7d']

/-- Items, each on a line of its own. -/
def indentedItems (indent : Nat) : List Document → List Char
  | [] => []
  | [d] => newLine indent ++ d.indented indent
  | d :: ds => newLine indent ++ d.indented indent ++ ',' :: indentedItems indent ds

/-- Members, each on a line of its own. -/
def indentedMembers (indent : Nat) : List (String × Document) → List Char
  | [] => []
  | [(name, d)] => newLine indent ++ jsonString name.toList ++ ": ".toList ++ d.indented indent
  | (name, d) :: ms =>
    newLine indent ++ jsonString name.toList ++ ": ".toList ++ d.indented indent ++
      ',' :: indentedMembers indent ms

end

end ClusterFilter.Document
