import ClusterFilter.Text.Basic

/-!
# ClusterFilter — bare and quoted texts

A text inside an expression stands bare or between quotes. A bare text runs up to the next
delimiter; a bare map key also stops at the signs of comparators and brackets. Between quotes a
backslash makes the next character stand for itself.
-/

namespace ClusterFilter.Text

-- ---------------------------------------------------------------------------
-- Bare texts
-- ---------------------------------------------------------------------------

/-- Characters that end a bare text: white space, parentheses and quotes. -/
def isDelimiter (c : Char) : Bool :=
  isBlank c || c == '(' || c == ')' || c == '\x27' || c == '\x22'

/-- Characters of a bare text. -/
def isBareChar (c : Char) : Bool :=
  !isDelimiter c

/-- Characters of a bare map key. -/
def isKeyChar (c : Char) : Bool :=
  isBareChar c && !(c == '=' || c == '!' || c == '<' || c == '>' || c == '[' || c == ']')

/-- Whether the text can stand bare. -/
def isBare (cs : List Char) : Bool :=
  !cs.isEmpty && cs.all isBareChar

/-- Whether the text can stand as a bare map key. -/
def isBareKey (cs : List Char) : Bool :=
  !cs.isEmpty && cs.all isKeyChar

-- ---------------------------------------------------------------------------
-- Quoted texts
-- ---------------------------------------------------------------------------

/-- A backslash before each apostrophe and each backslash. -/
def escape : List Char → List Char
  | [] => []
  | c :: cs => if c = '\x27' ∨ c = '\\' then '\\' :: c :: escape cs else c :: escape cs

/-- The escaped text between apostrophes. -/
def quote (cs : List Char) : List Char :=
  '\x27' :: escape cs ++ ['\x27']

/-- The text as it is if it can stand bare, and quoted otherwise. -/
def bareOrQuoted (cs : List Char) : List Char :=
  if isBare cs then cs else quote cs

/-- Resolves the escapes: a backslash and a character stand for the character. -/
def unescape : List Char → List Char
  | [] => []
  | ['\\'] => ['\\']
  | '\\' :: c :: cs => c :: unescape cs
  | c :: cs => c :: unescape cs

/-- What stands before the first `closing` quote that no backslash protects, and what follows it;
none if there is no such quote. -/
def splitQuoted (closing : Char) : List Char → Option (List Char × List Char)
  | [] => none
  | ['\\'] => none
  | '\\' :: c :: cs => (splitQuoted closing cs).map fun (body, rest) => ('\\' :: c :: body, rest)
  | c :: cs =>
    if c = closing then some ([], cs)
    else (splitQuoted closing cs).map fun (body, rest) => (c :: body, rest)

-- ---------------------------------------------------------------------------
-- Characters that stand for themselves
-- ---------------------------------------------------------------------------

theorem unescape_cons_of_ne {c : Char} (h : c ≠ '\\') (cs : List Char) :
    unescape (c :: cs) = c :: unescape cs := by
  cases cs <;> simp [unescape, h]

theorem splitQuoted_cons_of_ne {q c : Char} (hq : c ≠ q) (hc : c ≠ '\\') (cs : List Char) :
    splitQuoted q (c :: cs) = (splitQuoted q cs).map fun (body, rest) => (c :: body, rest) := by
  cases cs <;> simp [splitQuoted, hq, hc]

end ClusterFilter.Text
