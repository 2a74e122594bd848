/-!
# ClusterFilter — characters and texts

Texts are scanned and printed as lists of characters; `String` is the type of finished texts.
This module holds the character classes that every reader of the library shares, and the three
measures of a text: its characters, its bytes in UTF-8 and its columns on a page.

Letters, digits and letter case are those of ASCII everywhere; white space is that of Unicode.
-/

namespace ClusterFilter.Text

-- ---------------------------------------------------------------------------
-- Character classes
-- ---------------------------------------------------------------------------

/-- White space: the 25 code points with the Unicode property `White_Space`. -/
def isBlank (c : Char) : Bool :=
  let n := c.toNat
  (9 ≤ n && n ≤ 13) || n == 0x20 || n == 0x85 || n == 0xA0 || n == 0x1680 ||
    (0x2000 ≤ n && n ≤ 0x200A) || n == 0x2028 || n == 0x2029 || n == 0x202F || n == 0x205F ||
    n == 0x3000

/-- Characters of a word: ASCII letters, ASCII digits and the underscore. -/
def isWordChar (c : Char) : Bool :=
  c.isAlphanum || c == '_'

/-- The text does not go on with a word character. -/
def endsWord : List Char → Bool
  | [] => true
  | c :: _ => !isWordChar c

-- ---------------------------------------------------------------------------
-- Letter case
-- ---------------------------------------------------------------------------

/-- The text with its ASCII letters in lower case. -/
def lower (cs : List Char) : List Char :=
  cs.map Char.toLower

/-- Whether two texts differ at most in the case of ASCII letters. -/
def sameIgnoringCase (a b : List Char) : Bool :=
  lower a == lower b

-- ---------------------------------------------------------------------------
-- White space at the ends
-- ---------------------------------------------------------------------------

/-- The text without its leading white space. -/
def dropBlanks (cs : List Char) : List Char :=
  cs.dropWhile isBlank

/-- The text without white space at either end. -/
def trim (cs : List Char) : List Char :=
  (dropBlanks (dropBlanks cs).reverse).reverse

/-- `trim` on finished texts. -/
def trimmed (s : String) : String :=
  String.ofList (trim s.toList)

/-- `lower` on finished texts. -/
def lowered (s : String) : String :=
  String.ofList (lower s.toList)

-- ---------------------------------------------------------------------------
-- Measures
-- ---------------------------------------------------------------------------

/-- The number of bytes that the text takes in UTF-8. -/
def utf8Length : List Char → Nat
  | [] => 0
  | c :: cs => c.utf8Size + utf8Length cs

@[simp] theorem utf8Length_cons (c : Char) (cs : List Char) :
    utf8Length (c :: cs) = c.utf8Size + utf8Length cs := rfl

@[simp] theorem utf8Length_append (a b : List Char) :
    utf8Length (a ++ b) = utf8Length a + utf8Length b := by
  induction a with
  | nil => exact (Nat.zero_add _).symm
  | cons c a ih => rw [List.cons_append, utf8Length_cons, utf8Length_cons, ih, Nat.add_assoc]

/-- The text filled up with spaces to `width` characters; a wider one stays as it is. -/
def padEnd (width : Nat) (cs : List Char) : List Char :=
  cs ++ List.replicate (width - cs.length) ' '

/-- The texts one after another with a separator between each two. -/
def joinWith (separator : List Char) : List (List Char) → List Char
  | [] => []
  | [a] => a
  | a :: b :: rest => a ++ separator ++ joinWith separator (b :: rest)

end ClusterFilter.Text
