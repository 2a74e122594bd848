import ClusterFilter.Text.Radix
import ClusterFilter.Text.Scientific

/-!
# ClusterFilter — texts as YAML scalars

A text is written plain where a reader takes the plain form for the same text, and else between
apostrophes, between quotation marks, or, where it has line feeds, as a literal block.

Two questions decide. What a reader would take the plain form for: an empty text, the words for
null and the truth values, and numbers are not read as texts. And which forms the characters of the
text allow: a plain scalar may not look like other syntax, no quoted or literal form may lose a
space next to a line break, and unprintable characters need escapes.
-/

namespace ClusterFilter.Yaml

-- ---------------------------------------------------------------------------
-- Characters
-- ---------------------------------------------------------------------------

/-- Line breaks. -/
def isBreak (c : Char) : Bool :=
  c == '\n' || c == '\r' || c == '\u0085' || c == '\u2028' || c == '\u2029'

/-- Characters that need no escape. -/
def isPrintable (c : Char) : Bool :=
  let n := c.toNat
  n == 0x0A || (0x20 ≤ n && n ≤ 0x7E) || (0xA0 ≤ n && n ≤ 0xD7FF) ||
    (0xE000 ≤ n && n ≤ 0xFFFD && n != 0xFEFF) || 0x10000 ≤ n

/-- Spaces, tabs, line breaks and the character NUL. -/
def isGap (c : Char) : Bool :=
  c == ' ' || c == '\t' || c == '\x00' || isBreak c

/-- Whether the text goes on with a gap or is at its end. -/
def startsGap : List Char → Bool
  | [] => true
  | c :: _ => isGap c

/-- Whether a character with the first property comes right before one with the second. -/
def hasPair (p q : Char → Bool) : List Char → Bool
  | c :: d :: cs => (p c && q d) || hasPair p q (d :: cs)
  | _ => false

-- ---------------------------------------------------------------------------
-- Plain forms that are not read as texts
-- ---------------------------------------------------------------------------

/-- The words for null and the truth values. -/
def reservedWords : List String :=
  ["null", "Null", "NULL", "~", "true", "True", "TRUE", "false", "False", "FALSE"]

/-- The value of a numeral with a base in front, such as `0x1F`. -/
def announcedValue? : List Char → Option Nat
  | '0' :: c :: cs => (Text.announcedBase? c).bind fun base => Text.readRadix? base cs
  | _ => none

/-- Whether the text is an integer of 128 bits, with or without a sign, in an announced base. -/
def isAnnounced : List Char → Bool
  | '-' :: cs => (announcedValue? cs).any (· ≤ 1 <<< 127)
  | '+' :: cs => (announcedValue? cs).any (· < 1 <<< 128)
  | cs => (announcedValue? cs).any (· < 1 <<< 128)

/-- Whether the text is a run of digits that starts with a zero and goes on. Such a text is no
number; apostrophes keep older readers from taking it for one. -/
def isZeroLed (cs : List Char) : Bool :=
  match (Text.splitSign cs).2 with
  | '0' :: c :: rest => (c :: rest).all Char.isDigit
  | _ => false

/-- The words for what is no finite number. -/
def specialNumbers : List String :=
  [".inf", ".Inf", ".INF", "+.inf", "+.Inf", "+.INF", "-.inf", "-.Inf", "-.INF", ".nan", ".NaN",
    ".NAN"]

/-- Whether the text is a number with a finite value as a double. -/
def isFloat (cs : List Char) : Bool :=
  (Text.Scientific.read? (Text.splitSign cs).2).any Text.Scientific.isFinite

/-- Whether the plain form would be read as something else than a text. -/
def isAmbiguous (cs : List Char) : Bool :=
  cs.isEmpty || reservedWords.any (·.toList == cs) || specialNumbers.any (·.toList == cs) ||
    isAnnounced cs || isZeroLed cs || isFloat cs

-- ---------------------------------------------------------------------------
-- Forms that the characters allow
-- ---------------------------------------------------------------------------

/-- Characters that cannot start a plain scalar. -/
def isIndicator (c : Char) : Bool :=
  "#,[]\x7b\x7d&*!|>'\"%@\x60".toList.contains c

/-- Whether a mark inside the text would end a plain scalar: a colon before a gap, or a number sign
after one. `before` is the character in front of the text. -/
def hasInnerMark (before : Char) : List Char → Bool
  | [] => false
  | c :: cs => (c == ':' && startsGap cs) || (c == '#' && isGap before) || hasInnerMark c cs

/-- Whether the text looks like other syntax when it is written plain. -/
def looksLikeSyntax : List Char → Bool
  | [] => false
  | c :: cs =>
    "---".toList.isPrefixOf (c :: cs) || "...".toList.isPrefixOf (c :: cs) || isIndicator c ||
      ((c == '?' || c == ':' || c == '-') && startsGap cs) || hasInnerMark c cs

/-- Whether the character is a space or a line break. -/
def isEdge (c : Char) : Bool :=
  c == ' ' || isBreak c

/-- Whether nothing but quotation marks keeps the text as it is. -/
def needsEscapes (cs : List Char) : Bool :=
  !cs.all isPrintable || hasPair (· == ' ') isBreak cs

/-- Whether the text can stand plain. -/
def allowsPlain (cs : List Char) : Bool :=
  !(needsEscapes cs || cs.any isBreak || cs.head?.any isEdge || cs.getLast?.any isEdge ||
    looksLikeSyntax cs)

/-- Whether the text can stand between apostrophes. -/
def allowsSingle (cs : List Char) : Bool :=
  !(needsEscapes cs || hasPair isBreak (· == ' ') cs)

/-- Whether the text can stand as a literal block. -/
def allowsLiteral (cs : List Char) : Bool :=
  !(needsEscapes cs || cs.isEmpty || cs.getLast? == some ' ')

-- ---------------------------------------------------------------------------
-- Writing
-- ---------------------------------------------------------------------------

/-- Spaces in front of a line. -/
def margin (indent : Nat) : List Char :=
  List.replicate indent ' '

/-- The letter that follows the backslash in the short escape of a character. -/
def shortEscape? (c : Char) : Option Char :=
  [('\x00', '0'), ('\x07', 'a'), ('\x08', 'b'), ('\t', 't'), ('\n', 'n'), ('\x0b', 'v'),
    ('\x0c', 'f'), ('\r', 'r'), ('\x1b', 'e'), ('\x22', '\x22'), ('\\', '\\'), ('\u0085', 'N'),
    ('\u2028', 'L'), ('\u2029', 'P')].lookup c

/-- A character between quotation marks. -/
def doubleChar (c : Char) : List Char :=
  match shortEscape? c with
  | some e => ['\\', e]
  | none =>
    if isPrintable c then [c]
    else if c.toNat ≤ 0xFF then '\\' :: 'x' :: Text.upperHex 2 c.toNat
    else if c.toNat ≤ 0xFFFF then '\\' :: 'u' :: Text.upperHex 4 c.toNat
    else '\\' :: 'U' :: Text.upperHex 8 c.toNat

/-- The text between quotation marks. -/
def doubleQuoted (cs : List Char) : List Char :=
  '\x22' :: cs.flatMap doubleChar ++ ['\x22']

/-- A text over several lines; `fresh` says that it stands at the start of a line, where the next
character needs the margin in front. -/
def onLines (indent : Nat) (fresh : Bool) (writeChar : Char → List Char) :
    List Char → List Char
  | [] => []
  | c :: cs =>
    if isBreak c then c :: onLines indent true writeChar cs
    else (if fresh then margin indent else []) ++ writeChar c ++ onLines indent false writeChar cs

/-- A character between apostrophes. -/
def singleChar (c : Char) : List Char :=
  if c = '\x27' then ['\x27', '\x27'] else [c]

/-- The text between apostrophes; an apostrophe is written twice. -/
def singleQuoted (indent : Nat) (cs : List Char) : List Char :=
  '\x27' :: onLines indent false singleChar cs ++
    (if cs.getLast?.any isBreak then margin indent else []) ++ ['\x27']

/-- The mark for the line breaks at the end of a literal block: none of them, exactly one, or all
of them belong to the text. -/
def chomping (cs : List Char) : List Char :=
  match cs.reverse with
  | c :: rest =>
    if !isBreak c then ['-'] else if rest.isEmpty || rest.head?.any isBreak then ['+'] else []
  | [] => ['-']

/-- The text as a literal block. -/
def literal (indent : Nat) (cs : List Char) : List Char :=
  '|' :: (if cs.head?.any isEdge then ['2'] else []) ++ chomping cs ++
    '\n' :: onLines indent true (fun c => [c]) cs

/-- The text as a scalar; its further lines, if it has any, are indented. -/
def scalar (indent : Nat) (cs : List Char) : List Char :=
  if cs.contains '\n' then if allowsLiteral cs then literal indent cs else doubleQuoted cs
  else if allowsPlain cs && !isAmbiguous cs then cs
  else if allowsSingle cs then singleQuoted indent cs
  else doubleQuoted cs

/-- The text as the name of a member, which takes one line. -/
def memberName (cs : List Char) : List Char :=
  if cs.any isBreak then doubleQuoted cs else scalar 0 cs

end ClusterFilter.Yaml
