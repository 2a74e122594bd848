import ClusterFilter.Text.Basic

/-!
# ClusterFilter — decimal numerals

Writing and reading of natural numbers and integers in base ten. A numeral has no leading zero
unless a width asks for one; reading takes any run of ASCII digits.
-/

namespace ClusterFilter.Text

/-- The decimal numeral of a natural number. -/
def digits (n : Nat) : List Char :=
  Nat.toDigits 10 n

/-- The decimal numeral with zeros in front up to `width` digits. -/
def paddedDigits (width n : Nat) : List Char :=
  List.replicate (width - (digits n).length) '0' ++ digits n

/-- The decimal numeral of an integer: a minus sign stands before a negative one. -/
def signedDigits : Int → List Char
  | .ofNat n => digits n
  | .negSucc n => '-' :: digits (n + 1)

/-- The number that a run of digits stands for. -/
def digitsValue (cs : List Char) : Nat :=
  Nat.ofDigitChars 10 cs 0

/-- Whether the text is one or more ASCII digits and nothing else. -/
def isNumeral (cs : List Char) : Bool :=
  !cs.isEmpty && cs.all Char.isDigit

/-- The number of a text that consists of one or more ASCII digits. -/
def readNumeral? (cs : List Char) : Option Nat :=
  if isNumeral cs then some (digitsValue cs) else none

/-- Reads an optional sign and one or more digits, and nothing else. -/
def readInteger? : List Char → Option Int
  | '-' :: cs => (readNumeral? cs).map fun n => -(n : Int)
  | '+' :: cs => (readNumeral? cs).map fun n => (n : Int)
  | cs => (readNumeral? cs).map fun n => (n : Int)

/-- Takes between `least` and `most` digits off the front of the text, as many as there are. -/
def takeDigits? (least most : Nat) (cs : List Char) : Option (Nat × List Char) :=
  let run := (cs.take most).takeWhile Char.isDigit
  if run.length < least then none else some (digitsValue run, cs.drop run.length)

end ClusterFilter.Text
