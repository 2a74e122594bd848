import ClusterFilter.Build
import ClusterFilter.Text.Decimal
import ClusterFilter.Text.Split

/-!
# ClusterFilter — durations

A duration is a signed number of nanoseconds within 2^63 - 1 milliseconds of zero. Two notations
are read, both with an optional minus sign in front:
- ISO 8601: `P[nY][nM][nW][nD][T[nH][nM][n[.f]S]]`, where a year counts 365 days and a month 30;
- clock: `[D.]HH:MM:SS[.f]`.

Numbers on the way to a duration have 128 bits with a sign. All sums and products that can exceed
them are checked, but for one: where a fraction is added to whole seconds, it depends on the build
what becomes of a sum that is too large.

A duration is printed in days, hours, minutes and seconds.
-/

namespace ClusterFilter

/-- A signed span of time. -/
structure Duration where
  nanos : Int
  bounded : nanos.natAbs ≤ (1 <<< 63 - 1) * 1000000
  deriving DecidableEq

namespace Duration

/-- The largest magnitude of a duration, in nanoseconds. -/
def maxNanos : Nat :=
  (1 <<< 63 - 1) * 1000000

/-- The duration of the given nanoseconds, if it lies within the bounds. -/
def ofNanos? (nanos : Int) : Option Duration :=
  if h : nanos.natAbs ≤ maxNanos then some ⟨nanos, h⟩ else none

/-- The duration of a sum of nanoseconds. The sum is cut toward zero into seconds and a rest, and a
rest below zero is out of range. -/
def ofTotal? (nanos : Int) : Option Duration :=
  if nanos.tmod 1000000000 < 0 then none else ofNanos? nanos

/-- The duration of the same length in the other direction. -/
def neg (d : Duration) : Duration :=
  ⟨-d.nanos, d.nanos.natAbs_neg.symm ▸ d.bounded⟩

/-- Whole seconds, cut toward zero. -/
def wholeSeconds (d : Duration) : Int :=
  d.nanos.tdiv 1000000000

/-- Nanoseconds beyond the whole seconds, of the same sign. -/
def subsecondNanos (d : Duration) : Int :=
  d.nanos.tmod 1000000000

-- ---------------------------------------------------------------------------
-- Writing
-- ---------------------------------------------------------------------------

/-- A number before its unit, and nothing at all for zero. -/
def partChars (n : Nat) (unit : Char) : List Char :=
  if n = 0 then [] else Text.digits n ++ [unit]

/-- A fraction of a second in as few digits as give its exact value. -/
def fractionChars (nanos : Nat) : List Char :=
  ((Text.paddedDigits 9 nanos).reverse.dropWhile (· == '0')).reverse

/-- The seconds before their unit; zero seconds are written only where `required`. -/
def secondsChars (required : Bool) (seconds nanos : Nat) : List Char :=
  if nanos ≠ 0 then Text.digits seconds ++ '.' :: fractionChars nanos ++ ['S']
  else if seconds ≠ 0 ∨ required then Text.digits seconds ++ ['S']
  else []

/-- Days, and after a `T` hours, minutes and seconds, each where it is not zero; the span of no
length is `PT0S`. -/
def chars (d : Duration) : List Char :=
  let total := d.nanos.natAbs / 1000000000
  let nanos := d.nanos.natAbs % 1000000000
  let days := total / 86400
  let clock := total % 86400
  let hours := clock / 3600
  let minutes := clock / 60 % 60
  let seconds := clock % 60
  (if d.nanos < 0 then ['-'] else []) ++ 'P' :: partChars days 'D' ++
    if clock = 0 ∧ nanos = 0 ∧ days ≠ 0 then []
    else 'T' :: partChars hours 'H' ++ partChars minutes 'M' ++
      secondsChars (hours = 0 ∧ minutes = 0) seconds nanos

-- ---------------------------------------------------------------------------
-- Faults of a literal
-- ---------------------------------------------------------------------------

/-- Reasons why a text is no duration. -/
inductive Fault where
  /-- Neither notation. -/
  | shape
  /-- Larger than a duration, or than the sums behind it, can be. -/
  | outOfRange
  /-- A sum that no check of the program covers is too large, in a build that stops there. -/
  | overflow
  /-- Nothing after the `T`. -/
  | emptyClock
  /-- Nothing after the `P`. -/
  | empty
  /-- The text ends where a unit has to follow. -/
  | missingUnit (number : List Char)
  /-- No unit, or one that is out of order or repeated. -/
  | unexpectedUnit (unit : Char)
  /-- A fraction of another unit than the second. -/
  | fraction (number : List Char) (unit : Char)
  /-- Not a run of digits. -/
  | notANumber (text : List Char)
  /-- A fraction of a second without digits, or with more than nine. -/
  | fractionLength
  /-- Not three parts between colons. -/
  | clockShape
  /-- A part of the clock that is too large. -/
  | tooLarge (unit : String) (most : Nat)
  deriving DecidableEq, Repr

/-- What is said where a check of the build stops the program. -/
def overflowMessage : String :=
  "attempt to add with overflow"

/-- The wording of a fault. -/
def Fault.chars : Fault → List Char
  | shape => "expected an ISO-8601 duration such as P1DT2H30M or [D.]HH:MM:SS".toList
  | outOfRange => "duration out of range".toList
  | overflow => overflowMessage.toList
  | emptyClock => "'T' must be followed by hours, minutes or seconds".toList
  | empty => "duration has no components".toList
  | missingUnit number => "missing unit after '".toList ++ number ++ "'".toList
  | unexpectedUnit unit => "unexpected '".toList ++ unit :: "'".toList
  | fraction number unit =>
    "only seconds may have a fraction, got '".toList ++ number ++ unit :: "'".toList
  | notANumber text => "'".toList ++ text ++ "' is not a number".toList
  | fractionLength => "fraction of a second must have 1 to 9 digits".toList
  | clockShape => "expected HH:MM:SS".toList
  | tooLarge unit most => unit.toList ++ " must be at most ".toList ++ Text.digits most

-- ---------------------------------------------------------------------------
-- Reading: numbers
-- ---------------------------------------------------------------------------

/-- Numbers and products are kept below 2^127; a larger one is out of range at once. -/
def checked (n : Nat) : Except Fault Nat :=
  if n < 1 <<< 127 then .ok n else .error .outOfRange

/-- Whether a number fits 128 bits with a sign. -/
def Fits (n : Int) : Prop :=
  -(1 <<< 127 : Nat) ≤ n ∧ n < (1 <<< 127 : Nat)

instance (n : Int) : Decidable (Fits n) :=
  inferInstanceAs (Decidable (_ ∧ _))

/-- A sum that is checked: one that does not fit is out of range. -/
def checkedSum (n : Int) : Except Fault Int :=
  if Fits n then .ok n else .error .outOfRange

/-- A sum that is not checked: one that does not fit stops the program or wraps around. -/
def uncheckedSum [Build] (n : Int) : Except Fault Int :=
  if Fits n then .ok n
  else if Build.overflowChecks then .error .overflow
  else .ok (n.bmod (1 <<< 128))

/-- Reads a run of digits. -/
def readNumber (cs : List Char) : Except Fault Nat :=
  match Text.readNumeral? cs with
  | some n => checked n
  | none => .error (.notANumber cs)

/-- Reads the digits after the point of a fraction of a second, as nanoseconds. Its length is
measured in bytes, before it is known to consist of digits. -/
def readFraction (cs : List Char) : Except Fault Nat :=
  if cs.isEmpty ∨ 9 < Text.utf8Length cs then .error .fractionLength
  else do
    let n ← readNumber cs
    .ok (n * Nat.pow 10 (9 - Text.utf8Length cs))

/-- Reads a number that is at most `most`. -/
def readBounded (unit : String) (most : Nat) (cs : List Char) : Except Fault Nat := do
  let n ← readNumber cs
  if n ≤ most then .ok n else .error (.tooLarge unit most)

-- ---------------------------------------------------------------------------
-- Reading: ISO 8601
-- ---------------------------------------------------------------------------

/-- A unit of ISO 8601: its letter, its length and whether its number may have a fraction. -/
structure Designator where
  letter : Char
  nanos : Nat
  fractional : Bool
  deriving DecidableEq, Repr

/-- The units before the `T`. -/
def dateUnits : List Designator :=
  [⟨'Y', 365 * 86400000000000, false⟩, ⟨'M', 30 * 86400000000000, false⟩,
    ⟨'W', 7 * 86400000000000, false⟩, ⟨'D', 86400000000000, false⟩]

/-- The units after the `T`. -/
def clockUnits : List Designator :=
  [⟨'H', 3600000000000, false⟩, ⟨'M', 60000000000, false⟩, ⟨'S', 1000000000, true⟩]

variable [Build]

/-- The nanoseconds of a number and its unit as it was written. -/
def readComponent (designator : Designator) (number : List Char) (unit : Char) :
    Except Fault Int :=
  match Text.splitFirst? '.' number with
  | some (whole, fraction) =>
    if designator.fractional then do
      let n ← readNumber whole
      let seconds ← checked (n * designator.nanos)
      let nanos ← readFraction fraction
      uncheckedSum (seconds + nanos)
    else .error (.fraction number unit)
  | none => do
    let n ← readNumber number
    let product ← checked (n * designator.nanos)
    .ok product

/-- Adds up pairs of a number and a unit. Each unit comes at most once and in the order of the
list; `total` is the sum so far. -/
def sumComponents (designators : List Designator) (total : Int) (cs : List Char) :
    Except Fault Int :=
  if cs.isEmpty then .ok total
  else
    let isNumberChar := fun c : Char => c.isDigit || c == '.'
    let number := cs.takeWhile isNumberChar
    match cs.dropWhile isNumberChar with
    | [] => .error (.missingUnit number)
    | unit :: rest =>
      match _h : designators.dropWhile fun d => d.letter != unit.toUpper with
      | [] => .error (.unexpectedUnit unit)
      | designator :: later => do
        let n ← readComponent designator number unit
        let total ← checkedSum (total + n)
        sumComponents later total rest
termination_by designators.length
decreasing_by
  have hsuffix : (designator :: later) <:+ designators := _h ▸ List.dropWhile_suffix _
  exact hsuffix.length_le

/-- Whether the character separates dates from clock parts. -/
def isClockMark (c : Char) : Bool :=
  c == 'T' || c == 't'

/-- Reads what follows the `P`. -/
def readIso (cs : List Char) : Except Fault Int :=
  let date := cs.takeWhile fun c => !isClockMark c
  match cs.dropWhile fun c => !isClockMark c with
  | [] => if date.isEmpty then .error .empty else sumComponents dateUnits 0 date
  | [_] => .error .emptyClock
  | _ :: clock => do
    let days ← sumComponents dateUnits 0 date
    let rest ← sumComponents clockUnits 0 clock
    checkedSum (days + rest)

-- ---------------------------------------------------------------------------
-- Reading: clock
-- ---------------------------------------------------------------------------

/-- Splits the days off a clock text: they end at the first point before the first colon. -/
def splitDays (cs : List Char) : Option (List Char) × List Char :=
  match Text.splitFirst? '.' (cs.takeWhile (· != ':')) with
  | some (days, _) => (some days, cs.drop (days.length + 1))
  | none => (none, cs)

/-- Reads the days in front of a clock; it may come without any. -/
def readDays : Option (List Char) → Except Fault Nat
  | some days => readNumber days
  | none => .ok 0

/-- Reads the seconds of a clock, and the nanoseconds of their fraction where it is given. -/
def readSeconds (cs : List Char) : Except Fault (Nat × Nat) :=
  match Text.splitFirst? '.' cs with
  | some (whole, fraction) => do
    let s ← readBounded "seconds" 59 whole
    let nanos ← readFraction fraction
    .ok (s, nanos)
  | none => do
    let s ← readBounded "seconds" 59 cs
    .ok (s, 0)

/-- Reads hours, minutes and seconds, with days in front where they are given. -/
def readClock (cs : List Char) : Except Fault Nat := do
  let (days?, clock) := splitDays cs
  let days ← readDays days?
  match Text.splitAll ':' clock with
  | [hours, minutes, seconds] =>
    let h ← readBounded "hours" 23 hours
    let m ← readBounded "minutes" 59 minutes
    let (s, nanos) ← readSeconds seconds
    let dayNanos ← checked (days * 86400000000000)
    checked (dayNanos + ((h * 3600 + m * 60 + s) * 1000000000 + nanos))
  | _ => .error .clockShape

-- ---------------------------------------------------------------------------
-- Reading
-- ---------------------------------------------------------------------------

/-- Reads what stands behind the sign of a duration. -/
def readMagnitude (cs : List Char) : Except Fault Int :=
  match cs with
  | 'P' :: iso => readIso iso
  | 'p' :: iso => readIso iso
  | _ =>
    if cs.contains ':' then do
      let n ← readClock cs
      .ok n
    else .error .shape

/-- Reads a duration in either notation. -/
def read (cs : List Char) : Except Fault Duration := do
  let (negative, body) := match cs with
    | '-' :: body => (true, body)
    | _ => (false, cs)
  let nanos ← readMagnitude body
  match ofTotal? nanos with
  | some d => .ok (if negative then d.neg else d)
  | none => .error .outOfRange

end Duration

end ClusterFilter
