import ClusterFilter.Text.Decimal

/-!
# ClusterFilter — numerals with a point and an exponent

Numerals such as `1.5`, `.5e-3` or `2e10`, and whether they fit into a double-precision number.
Only that question is asked of them, so they are kept as a run of digits and a power of ten.
-/

namespace ClusterFilter.Text

/-- A magnitude: a run of digits, times a power of ten. -/
structure Scientific where
  significand : List Char
  exponent : Int
  deriving DecidableEq, Repr

/-- The text without a sign at its start, and whether that sign is a minus. -/
def splitSign : List Char → Bool × List Char
  | '-' :: cs => (true, cs)
  | '+' :: cs => (false, cs)
  | cs => (false, cs)

namespace Scientific

/-- Reads what follows the significand: nothing, or the letter `e` and an integer. -/
def readExponent? : List Char → Option Int
  | [] => some 0
  | c :: cs => if c = 'e' ∨ c = 'E' then readInteger? cs else none

/-- Reads digits with at most one point among them and one exponent after them. -/
def read? (cs : List Char) : Option Scientific := do
  let whole := cs.takeWhile Char.isDigit
  let rest := cs.drop whole.length
  let fraction := match rest with
    | '.' :: rest => rest.takeWhile Char.isDigit
    | _ => []
  let rest := match rest with
    | '.' :: rest => rest.drop fraction.length
    | _ => rest
  if whole.isEmpty && fraction.isEmpty then none
  else do
    let exponent ← readExponent? rest
    some ⟨whole ++ fraction, exponent - fraction.length⟩

/-- The least number that is rounded to infinity: the middle between the largest double and the
next power of two. -/
def overflowBound : Nat :=
  1 <<< 1024 - 1 <<< 970

/-- Whether the nearest double is finite. A number of `k` digits before its point lies below
10^`k`, so the exact value matters only for 309 digits. -/
def isFinite (x : Scientific) : Bool :=
  let digits := x.significand.dropWhile (· == '0')
  let size : Int := digits.length + x.exponent
  digits.isEmpty || size < 309 ||
    (size == 309 &&
      digitsValue digits * Nat.pow 10 x.exponent.toNat <
        overflowBound * Nat.pow 10 (-x.exponent).toNat)

end Scientific

end ClusterFilter.Text
