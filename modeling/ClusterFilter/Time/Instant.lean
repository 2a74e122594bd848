import ClusterFilter.Time.Date

/-!
# ClusterFilter — instants

An instant is a calendar date and a time of day in UTC, down to the nanosecond. The time of day
counts seconds, and the nanoseconds go on to twice their number for a leap second behind the second
they belong to. Texts name a leap second as the second 60 of its minute, so that they have one only
behind the last second of a minute, which may be that of any minute.

Instants are printed as RFC 3339 texts that end in `Z`. Three notations are read:
- RFC 3339, with an offset of less than a day or `Z`;
- date and time without an offset, taken as UTC;
- a date alone, which stands for its midnight.
-/

namespace ClusterFilter

/-- A point in time, in UTC. From 10^9 nanoseconds on it lies in the leap second that follows its
second. -/
structure Instant where
  date : Date
  secondOfDay : Nat
  nanos : Nat
  secondOfDay_lt : secondOfDay < 86400
  nanos_lt : nanos < 2000000000
  deriving DecidableEq

namespace Instant

/-- The hour of the day. -/
def hour (t : Instant) : Nat :=
  t.secondOfDay / 3600

/-- The minute of the hour. -/
def minute (t : Instant) : Nat :=
  t.secondOfDay / 60 % 60

/-- The second of the minute, also for a leap second behind it. -/
def second (t : Instant) : Nat :=
  t.secondOfDay % 60

/-- The instant with the given date and time of day, if the day has such a time. The second 60 is
the leap second behind the second 59. -/
def of? (date : Date) (hour minute second nanos : Nat) : Option Instant :=
  if h : hour < 24 ∧ minute < 60 ∧ second ≤ 60 ∧ nanos < 1000000000 then
    some ⟨date, hour * 3600 + minute * 60 + min second 59, second / 60 * 1000000000 + nanos,
      by omega, by omega⟩
  else none

/-- The first instant of a date. -/
def midnight (date : Date) : Instant :=
  ⟨date, 0, 0, by decide, by decide⟩

/-- The instant that lies `minutes` before the given one, for less than a day either way. The
nanoseconds stay as they are, so that a leap second remains one. -/
def minusMinutes (t : Instant) (minutes : Int) : Instant :=
  let total : Int := t.secondOfDay - minutes * 60
  { t with
    date := if total < 0 then t.date.previous else if total < 86400 then t.date else t.date.next
    secondOfDay := (total % 86400).toNat
    secondOfDay_lt := by omega }

/-- The instant `seconds` after 1970-01-01T00:00:00Z, and `nanos` more. From 10^9 nanoseconds on
there is one behind the last second of a minute only. -/
def ofUnix? (seconds : Int) (nanos : Nat) : Option Instant := do
  let date ← Date.ofDayNumber? (seconds / 86400)
  if h : nanos < 2000000000 ∧ (nanos < 1000000000 ∨ seconds % 60 = 59) then
    some ⟨date, (seconds % 86400).toNat, nanos, by omega, h.1⟩
  else none

-- ---------------------------------------------------------------------------
-- Writing
-- ---------------------------------------------------------------------------

/-- The fraction of a second with a point in front: nothing, milliseconds, microseconds or
nanoseconds, whichever is the first to be exact. -/
def fractionChars (nanos : Nat) : List Char :=
  if nanos = 0 then []
  else if nanos % 1000000 = 0 then '.' :: Text.paddedDigits 3 (nanos / 1000000)
  else if nanos % 1000 = 0 then '.' :: Text.paddedDigits 6 (nanos / 1000)
  else '.' :: Text.paddedDigits 9 nanos

/-- The second as it is written: a leap second counts as one more. -/
def shownSecond (t : Instant) : Nat :=
  t.second + t.nanos / 1000000000

/-- The nanoseconds as they are written, behind the leap second if there is one. -/
def shownNanos (t : Instant) : Nat :=
  t.nanos % 1000000000

/-- The instant as RFC 3339 writes it in UTC. -/
def chars (t : Instant) : List Char :=
  t.date.chars ++ 'T' :: Text.paddedDigits 2 t.hour ++ ':' :: Text.paddedDigits 2 t.minute ++
    ':' :: Text.paddedDigits 2 t.shownSecond ++ fractionChars t.shownNanos ++ ['Z']

-- ---------------------------------------------------------------------------
-- Reading: the parts
-- ---------------------------------------------------------------------------

/-- Takes the given character off the front of the text. -/
def expect? (c : Char) : List Char → Option (List Char)
  | d :: cs => if d = c then some cs else none
  | [] => none

/-- Reads a fraction of a second, if a point stands in front: its first nine digits count, and
there has to be one. -/
def takeFraction? : List Char → Option (Nat × List Char)
  | '.' :: cs =>
    let run := (cs.take 9).takeWhile Char.isDigit
    if run.isEmpty then none
    else some (Text.digitsValue run * Nat.pow 10 (9 - run.length),
      (cs.drop run.length).dropWhile Char.isDigit)
  | cs => some (0, cs)

/-- Reads `+hh:mm` or `-hh:mm` as minutes; the minus may also be the sign U+2212. Hours go up to
23 and minutes up to 59. -/
def takeOffset? : List Char → Option (Int × List Char)
  | 'Z' :: cs => some (0, cs)
  | 'z' :: cs => some (0, cs)
  | sign :: cs => do
    let negative ←
      if sign = '+' then some false
      else if sign = '-' ∨ sign = '\u2212' then some true
      else none
    let (hours, cs) ← Text.takeDigits? 2 2 cs
    let cs ← expect? ':' cs
    let (minutes, cs) ← Text.takeDigits? 2 2 cs
    if hours < 24 ∧ minutes < 60 then
      let total : Int := (hours * 60 + minutes : Nat)
      some (if negative then -total else total, cs)
    else none
  | [] => none

/-- A number of one to `most` digits with white space allowed in front. -/
def takeNumber? (most : Nat) (cs : List Char) : Option (Nat × List Char) :=
  Text.takeDigits? 1 most (Text.dropBlanks cs)

/-- A year of one to four digits, or of any number of digits after a sign. -/
def takeYear? (cs : List Char) : Option (Int × List Char) :=
  match Text.dropBlanks cs with
  | '-' :: cs => (Text.takeDigits? 1 cs.length cs).map fun (n, cs) => (-(n : Int), cs)
  | '+' :: cs => (Text.takeDigits? 1 cs.length cs).map fun (n, cs) => ((n : Int), cs)
  | cs => (Text.takeDigits? 1 4 cs).map fun (n, cs) => ((n : Int), cs)

/-- The first and the last year that a literal may name. -/
def yearBounds : Int × Int :=
  (-262143, 262142)

-- ---------------------------------------------------------------------------
-- Reading: the notations
-- ---------------------------------------------------------------------------

/-- Reads RFC 3339: parts of fixed width, `T`, `t` or a space between date and time, and an
offset. -/
def readOffsetDateTime? (cs : List Char) : Option Instant := do
  let (year, cs) ← Text.takeDigits? 4 4 cs
  let cs ← expect? '-' cs
  let (month, cs) ← Text.takeDigits? 2 2 cs
  let cs ← expect? '-' cs
  let (day, cs) ← Text.takeDigits? 2 2 cs
  let cs ← expect? 'T' cs <|> expect? 't' cs <|> expect? ' ' cs
  let (hour, cs) ← Text.takeDigits? 2 2 cs
  let cs ← expect? ':' cs
  let (minute, cs) ← Text.takeDigits? 2 2 cs
  let cs ← expect? ':' cs
  let (second, cs) ← Text.takeDigits? 2 2 cs
  let (nanos, cs) ← takeFraction? cs
  let (offset, cs) ← takeOffset? cs
  if cs.isEmpty then
    let date ← Date.of? year month day
    let local_ ← of? date hour minute second nanos
    some (local_.minusMinutes offset)
  else none

/-- Reads a date off the front of the text: numbers of free width with hyphens between them. -/
def takeDate? (cs : List Char) : Option (Date × List Char) := do
  let (year, cs) ← takeYear? cs
  let cs ← expect? '-' cs
  let (month, cs) ← takeNumber? 2 cs
  let cs ← expect? '-' cs
  let (day, cs) ← takeNumber? 2 cs
  if yearBounds.1 ≤ year ∧ year ≤ yearBounds.2 then
    let date ← Date.of? year month day
    some (date, cs)
  else none

/-- Reads a date and a time of day without an offset. -/
def readDateTime? (cs : List Char) : Option Instant := do
  let (date, cs) ← takeDate? cs
  let cs ← expect? 'T' cs
  let (hour, cs) ← takeNumber? 2 cs
  let cs ← expect? ':' cs
  let (minute, cs) ← takeNumber? 2 cs
  let cs ← expect? ':' cs
  let (second, cs) ← takeNumber? 2 cs
  let (nanos, cs) ← takeFraction? cs
  if cs.isEmpty then of? date hour minute second nanos else none

/-- Reads a date alone. -/
def readDate? (cs : List Char) : Option Instant := do
  let (date, cs) ← takeDate? cs
  if cs.isEmpty then some (midnight date) else none

/-- Reads an instant in any of the three notations. -/
def read? (cs : List Char) : Option Instant :=
  readOffsetDateTime? cs <|> readDateTime? cs <|> readDate? cs

end Instant

end ClusterFilter
