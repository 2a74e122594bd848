import ClusterFilter.Text.Radix
import ClusterFilter.Text.Scientific
import ClusterFilter.Text.Split
import ClusterFilter.Time.Date
import ClusterFilter.Toml.Node

/-!
# ClusterFilter — TOML numbers, truth values and times

These values are single words, so that a word is read as a whole:
- `true` and `false`;
- integers of 64 bits, in base ten or, without a sign, with `0x`, `0o` or `0b` in front;
- floats, `inf` and `nan`;
- dates, times of day, and both together.

Underscores may stand between digits. A decimal number has no needless zero in front.
-/

namespace ClusterFilter.Toml

-- ---------------------------------------------------------------------------
-- Numbers
-- ---------------------------------------------------------------------------

/-- Whether the text consists of groups of digits with single underscores between them. -/
def isGrouped (isDigit : Char → Bool) (cs : List Char) : Bool :=
  (Text.splitAll '_' cs).all fun group => !group.isEmpty && group.all isDigit

/-- Whether the text is a decimal number without a needless zero. -/
def isDecimal (cs : List Char) : Bool :=
  isGrouped Char.isDigit cs && (cs == ['0'] || cs.head? != some '0')

/-- The text without its underscores. -/
def ungroup (cs : List Char) : List Char :=
  cs.filter (· != '_')

/-- The number in base ten, with or without a sign. -/
def readDecimal? (cs : List Char) : Option Int :=
  let (negative, body) := Text.splitSign cs
  if isDecimal body then
    let n := Text.digitsValue (ungroup body)
    some (if negative then -(n : Int) else n)
  else none

/-- The number with its base in front. -/
def readBased? : List Char → Option Nat
  | '0' :: c :: cs => do
    let base ← Text.announcedBase? c
    if isGrouped (fun d => (Text.digitIn? base d).isSome) cs then Text.readRadix? base (ungroup cs)
    else none
  | _ => none

/-- Reads an integer that fits into 64 bits. -/
def readInteger? (cs : List Char) : Option Int :=
  ((readBased? cs).map Int.ofNat <|> readDecimal? cs).filter fun n =>
    Int64.minValue.toInt ≤ n ∧ n ≤ Int64.maxValue.toInt

/-- Whether the text is the exponent of a float: nothing, or a letter, a sign and digits. -/
def isExponent : List Char → Bool
  | [] => true
  | _ :: cs => isGrouped Char.isDigit (Text.splitSign cs).2

/-- The magnitude of a float: a decimal number with a fraction, an exponent or both. -/
def readMagnitude? (cs : List Char) : Option Text.Scientific :=
  let significand := cs.takeWhile fun c => c != 'e' && c != 'E'
  let exponent := cs.drop significand.length
  match Text.splitFirst? '.' significand with
  | some (whole, fraction) =>
    if isDecimal whole && isGrouped Char.isDigit fraction && isExponent exponent then
      Text.Scientific.read? (ungroup cs)
    else none
  | none =>
    if isDecimal significand && !exponent.isEmpty && isExponent exponent then
      Text.Scientific.read? (ungroup cs)
    else none

/-- Whether the text is a float. A positive number beyond the doubles is none. -/
def isFloat (cs : List Char) : Bool :=
  let (negative, body) := Text.splitSign cs
  body == "inf".toList || body == "nan".toList ||
    (readMagnitude? body).any fun x => negative || x.isFinite

-- ---------------------------------------------------------------------------
-- Times
-- ---------------------------------------------------------------------------

/-- What follows the given character, if the text starts with it. -/
def after? (x : Char) : List Char → Option (List Char)
  | c :: cs => if c = x then some cs else none
  | [] => none

/-- What follows the date at the start of the text. -/
def skipDate? (cs : List Char) : Option (List Char) := do
  let (year, cs) ← Text.takeDigits? 4 4 cs
  let (month, cs) ← Text.takeDigits? 2 2 (← after? '-' cs)
  let (day, cs) ← Text.takeDigits? 2 2 (← after? '-' cs)
  let _ ← Date.of? year month day
  some cs

/-- What follows hours and minutes at the start of the text. -/
def skipHourMinute? (cs : List Char) : Option (List Char) := do
  let (hour, cs) ← Text.takeDigits? 2 2 cs
  let (minute, cs) ← Text.takeDigits? 2 2 (← after? ':' cs)
  if hour ≤ 23 ∧ minute ≤ 59 then some cs else none

/-- What follows the time of day at the start of the text. -/
def skipClock? (cs : List Char) : Option (List Char) := do
  let (second, cs) ← Text.takeDigits? 2 2 (← after? ':' (← skipHourMinute? cs))
  if 60 < second then none
  else
    match cs with
    | '.' :: cs =>
      let fraction := cs.takeWhile Char.isDigit
      if fraction.isEmpty then none else some (cs.drop fraction.length)
    | _ => some cs

/-- Whether the text is an offset from UTC, or nothing. -/
def isOffset : List Char → Bool
  | [] => true
  | ['Z'] => true
  | ['z'] => true
  | c :: cs => (c == '+' || c == '-') && skipHourMinute? cs == some []

/-- Whether the text is a date and nothing more. -/
def isDate (cs : List Char) : Bool :=
  skipDate? cs == some []

/-- Whether the text is a date, a time of day or both. -/
def isTime (cs : List Char) : Bool :=
  match skipDate? cs with
  | none => skipClock? cs == some []
  | some [] => true
  | some (c :: rest) => (c == 'T' || c == 't' || c == ' ') && (skipClock? rest).any isOffset

-- ---------------------------------------------------------------------------
-- Words
-- ---------------------------------------------------------------------------

/-- Characters of a word. -/
def isWordChar (c : Char) : Bool :=
  c.isAlphanum || c == '_' || c == '+' || c == '-' || c == '.' || c == ':'

/-- Reads a word. -/
def readWord? (cs : List Char) : Option Scalar :=
  if cs = "true".toList then some (.boolean true)
  else if cs = "false".toList then some (.boolean false)
  else if isTime cs then some (.time (String.ofList cs))
  else if isFloat cs then some (.float (String.ofList cs))
  else (readInteger? cs).map .integer

/-- The word at the start of the text, and what follows it. One space may stand between a date and
a time of day. -/
def takeWord (cs : List Char) : List Char × List Char :=
  let word := cs.takeWhile isWordChar
  match cs.drop word.length with
  | ' ' :: rest =>
    if isDate word && rest.head?.any Char.isDigit then
      let clock := rest.takeWhile isWordChar
      (word ++ ' ' :: clock, rest.drop clock.length)
    else (word, ' ' :: rest)
  | rest => (word, rest)

end ClusterFilter.Toml
