import Mathlib.Data.List.Basic
import ClusterFilter.Proofs.Outcome
import ClusterFilter.Proofs.Text.Decimal
import ClusterFilter.Proofs.Text.Split
import ClusterFilter.Time.Duration

/-!
# ClusterFilter — the notations of durations

Which texts are durations, and of what length, is said here without the reader (`Denotes`): the
parts of a text in their order, and what they add up to over all natural numbers.

The numbers in the parts are the first thing that the reader has to agree about. It keeps them
below `2 ^ 127`, while a numeral has any number of digits; so what it accepts is the numeral with a
value that is not too large.

One sum is not checked by the reader: that of whole seconds and their fraction. The numbers for
which it is too large are set apart (`Overflows`), and everything else is the same in every build
(`Follows`).

Main definitions and results:

* `Denotes` — the texts of durations, with their exact lengths.
* `Overflows` — the texts with seconds that are too large only together with their fraction.
* `readNumber_eq_ok_iff`, `readBounded_eq_ok_iff`, `readFraction_eq_ok_iff` — which numbers are
  read.
* `uncheckedSum_eq_ok`, `uncheckedSum_eq_overflow_iff`, `follows_uncheckedSum` — what becomes of the
  sum that is not checked.
-/

namespace ClusterFilter.Duration

open Text

-- ---------------------------------------------------------------------------
-- The notations
-- ---------------------------------------------------------------------------

/-- A whole number of a unit, before the letter of the unit in either case; or nothing at all, for
none of it. -/
inductive Part (letter : Char) : (text : List Char) → (count : Nat) → Prop where
  | absent : Part letter [] 0
  | given {number : List Char} {unit : Char} : isNumeral number = true →
      unit = letter ∨ unit = letter.toLower → Part letter (number ++ [unit]) (digitsValue number)

/-- A number of seconds, which may have a fraction of one to nine digits: the whole seconds and the
nanoseconds beyond. -/
inductive Seconds : (text : List Char) → (seconds nanos : Nat) → Prop where
  | whole {number : List Char} : isNumeral number = true → Seconds number (digitsValue number) 0
  | fractional {number fraction : List Char} : isNumeral number = true →
      isNumeral fraction = true → fraction.length ≤ 9 →
      Seconds (number ++ '.' :: fraction) (digitsValue number)
        (digitsValue fraction * Nat.pow 10 (9 - fraction.length))

/-- Seconds before their letter, or nothing at all. -/
inductive SecondsPart : (text : List Char) → (seconds nanos : Nat) → Prop where
  | absent : SecondsPart [] 0 0
  | given {number : List Char} {unit : Char} {seconds nanos : Nat} :
      Seconds number seconds nanos → unit = 'S' ∨ unit = 's' →
      SecondsPart (number ++ [unit]) seconds nanos

/-- Years of 365 days, months of 30 days, weeks and days. -/
inductive DateText : (text : List Char) → (days : Nat) → Prop where
  | mk {y m w d : List Char} {years months weeks days : Nat} :
      Part 'Y' y years → Part 'M' m months → Part 'W' w weeks → Part 'D' d days →
      DateText (y ++ m ++ w ++ d) (365 * years + 30 * months + 7 * weeks + days)

/-- Hours, minutes and seconds. -/
inductive TimeText : (text : List Char) → (seconds nanos : Nat) → Prop where
  | mk {h m s : List Char} {hours minutes seconds nanos : Nat} :
      Part 'H' h hours → Part 'M' m minutes → SecondsPart s seconds nanos →
      TimeText (h ++ m ++ s) (3600 * hours + 60 * minutes + seconds) nanos

/-- Days before a point, or nothing at all. -/
inductive DaysPart : (text : List Char) → (days : Nat) → Prop where
  | absent : DaysPart [] 0
  | given {number : List Char} : isNumeral number = true →
      DaysPart (number ++ ['.']) (digitsValue number)

/-- The nanoseconds in days, seconds and nanoseconds. -/
def totalNanos (days seconds nanos : Nat) : Nat :=
  (86400 * days + seconds) * 1000000000 + nanos

/-- The sum as the parts of a text give it, days apart from the rest. -/
theorem totalNanos_eq (days seconds nanos : Nat) :
    totalNanos days seconds nanos = days * 86400000000000 + (seconds * 1000000000 + nanos) := by
  unfold totalNanos
  omega

/-- The ISO 8601 notation: the parts of a date, or these and behind a `T` those of a time, and at
least one part behind the last of the letters `P` and `T`. -/
inductive Iso : (text : List Char) → (nanos : Nat) → Prop where
  | date {p : Char} {date : List Char} {days : Nat} : p = 'P' ∨ p = 'p' →
      DateText date days → date ≠ [] → Iso (p :: date) (totalNanos days 0 0)
  | dateAndTime {p t : Char} {date time : List Char} {days seconds nanos : Nat} :
      p = 'P' ∨ p = 'p' → t = 'T' ∨ t = 't' → DateText date days →
      TimeText time seconds nanos → time ≠ [] →
      Iso (p :: (date ++ t :: time)) (totalNanos days seconds nanos)

/-- The clock notation: days if they are given, hours up to 23, minutes and seconds up to 59. -/
inductive Clock : (text : List Char) → (nanos : Nat) → Prop where
  | mk {d h m s : List Char} {days seconds nanos : Nat} : DaysPart d days →
      isNumeral h = true → digitsValue h ≤ 23 → isNumeral m = true → digitsValue m ≤ 59 →
      Seconds s seconds nanos → seconds ≤ 59 →
      Clock (d ++ (h ++ ':' :: (m ++ ':' :: s)))
        (totalNanos days (3600 * digitsValue h + 60 * digitsValue m + seconds) nanos)

/-- A text without a sign, in either notation. -/
inductive Magnitude : (text : List Char) → (nanos : Nat) → Prop where
  | iso {text : List Char} {nanos : Nat} : Iso text nanos → Magnitude text nanos
  | clock {text : List Char} {nanos : Nat} : Clock text nanos → Magnitude text nanos

/-- The text of a duration of exactly this many nanoseconds, behind a minus sign if one is given. -/
inductive Denotes : (text : List Char) → (nanos : Int) → Prop where
  | plain {text : List Char} {nanos : Nat} : Magnitude text nanos → Denotes text nanos
  | negated {text : List Char} {nanos : Nat} : Magnitude text nanos →
      Denotes ('-' :: text) (-nanos)

/-- Seconds of which the whole ones fit 128 bits, in nanoseconds, and with the fraction do not. -/
def Overflowing (scale : Nat) (number : List Char) : Prop :=
  ∃ seconds nanos, Seconds number seconds nanos ∧ seconds * scale < 1 <<< 127 ∧
    1 <<< 127 ≤ seconds * scale + nanos

/-- Such a number of seconds stands in the text, with its letter in front of the rest. -/
inductive Overflows : (text rest : List Char) → Prop where
  | mk {front number rest : List Char} {unit : Char} :
      (∀ x ∈ front.getLast?, (x.isDigit || x == '.') = false) → Overflowing 1000000000 number →
      unit = 'S' ∨ unit = 's' → Overflows (front ++ (number ++ unit :: rest)) rest

-- ---------------------------------------------------------------------------
-- Numbers
-- ---------------------------------------------------------------------------

variable {cs : List Char} {n m : Nat}

theorem ne_of_isDigit {x y : Char} (hx : x.isDigit = true) (hy : y.isDigit = false) : x ≠ y := by
  rintro rfl
  rw [hx] at hy
  cases hy

theorem utf8Length_of_isDigit {cs : List Char} (h : ∀ x ∈ cs, x.isDigit = true) :
    utf8Length cs = cs.length := by
  induction cs with
  | nil => rfl
  | cons c cs ih =>
    have hc : c.utf8Size = 1 := by
      have := h c (List.mem_cons_self ..)
      unfold Char.isDigit at this
      rw [Bool.and_eq_true, decide_eq_true_eq, decide_eq_true_eq] at this
      exact Char.utf8Size_eq_one_iff.mpr (Nat.le_trans this.2 (by decide))
    rw [utf8Length_cons, ih fun x hx => h x (List.mem_cons_of_mem _ hx), hc, List.length_cons,
      Nat.add_comm]

theorem checked_of_lt {n : Nat} (h : n < 1 <<< 127) : checked n = .ok n :=
  if_pos h

theorem checked_eq_ok_iff : checked n = .ok m ↔ n = m ∧ n < 1 <<< 127 := by
  unfold checked
  split
  · next h => rw [Except.ok.injEq, and_iff_left h]
  · next h => exact ⟨nofun, fun h' => absurd h'.2 h⟩

theorem fits_natCast : Fits n ↔ n < 1 <<< 127 := by
  unfold Fits
  omega

theorem checkedSum_eq_ok_iff {n m : Int} : checkedSum n = .ok m ↔ n = m ∧ Fits n := by
  unfold checkedSum
  split
  · next h => rw [Except.ok.injEq, and_iff_left h]
  · next h => exact ⟨nofun, fun h' => absurd h'.2 h⟩

theorem checkedSum_of_lt (h : n < 1 <<< 127) : checkedSum n = .ok n :=
  checkedSum_eq_ok_iff.mpr ⟨rfl, fits_natCast.mpr h⟩

section

variable [Build]

theorem uncheckedSum_of_lt (h : n < 1 <<< 127) : uncheckedSum n = .ok n :=
  if_pos (fits_natCast.mpr h)

/-- A sum of natural numbers is exact, or it does not fit in a build without checks. -/
theorem uncheckedSum_eq_ok {k : Int} (h : uncheckedSum n = .ok k) :
    k = n ∨ Build.overflowChecks = false ∧ 1 <<< 127 ≤ n := by
  by_cases hn : n < 1 <<< 127
  · rw [uncheckedSum_of_lt hn] at h
    exact .inl (Except.ok.inj h).symm
  · unfold uncheckedSum at h
    rw [if_neg fun hfits => hn (fits_natCast.mp hfits)] at h
    split at h
    · cases h
    · next hchecks => exact .inr ⟨Bool.eq_false_iff.mpr hchecks, Nat.not_lt.mp hn⟩

/-- Exactly the sums that do not fit stop the program, in a build with checks. -/
theorem uncheckedSum_eq_overflow_iff :
    uncheckedSum n = .error .overflow ↔ Build.overflowChecks = true ∧ 1 <<< 127 ≤ n := by
  unfold uncheckedSum
  split
  · next h => exact ⟨nofun, fun h' => absurd (fits_natCast.mp h) (Nat.not_lt.mpr h'.2)⟩
  · next h =>
    have hn : 1 <<< 127 ≤ n := Nat.not_lt.mp fun hlt => h (fits_natCast.mpr hlt)
    split
    · next hchecks => exact ⟨fun _ => ⟨hchecks, hn⟩, fun _ => rfl⟩
    · next hchecks => exact ⟨nofun, fun h' => absurd h'.1 hchecks⟩

end

theorem readNumber_eq_ok_iff :
    readNumber cs = .ok n ↔ isNumeral cs = true ∧ digitsValue cs = n ∧ n < 1 <<< 127 := by
  unfold readNumber readNumeral?
  by_cases h : isNumeral cs = true
  · rw [if_pos h]
    dsimp only
    rw [checked_eq_ok_iff, and_iff_right h]
    refine and_congr_right fun heq => ?_
    rw [heq]
  · rw [if_neg h]
    exact ⟨nofun, fun h' => absurd h'.1 h⟩

theorem readBounded_eq_ok_iff {unit : String} {most : Nat} (hmost : most < 1 <<< 127) :
    readBounded unit most cs = .ok n ↔ isNumeral cs = true ∧ digitsValue cs = n ∧ n ≤ most := by
  unfold readBounded
  rw [bind_eq_ok]
  constructor
  · rintro ⟨n', hread, h⟩
    obtain ⟨hnumeral, hvalue, -⟩ := readNumber_eq_ok_iff.mp hread
    split at h
    · next hle =>
      obtain rfl := Except.ok.inj h
      exact ⟨hnumeral, hvalue, hle⟩
    · cases h
  · rintro ⟨hnumeral, hvalue, hle⟩
    have hlt : n < 1 <<< 127 := Nat.lt_of_le_of_lt hle hmost
    exact ⟨n, readNumber_eq_ok_iff.mpr ⟨hnumeral, hvalue, hlt⟩, if_pos hle⟩

theorem isDigit_of_isNumeral (h : isNumeral cs = true) : ∀ x ∈ cs, x.isDigit = true :=
  (isNumeral_iff.mp h).2

theorem readFraction_eq_ok_iff : readFraction cs = .ok n ↔
    isNumeral cs = true ∧ cs.length ≤ 9 ∧ digitsValue cs * Nat.pow 10 (9 - cs.length) = n := by
  constructor
  · intro h
    unfold readFraction at h
    split at h
    · cases h
    · next hlength =>
      obtain ⟨k, hread, h⟩ := bind_eq_ok.mp h
      obtain ⟨hnumeral, rfl, -⟩ := readNumber_eq_ok_iff.mp hread
      rw [utf8Length_of_isDigit (isDigit_of_isNumeral hnumeral)] at h hlength
      exact ⟨hnumeral, Nat.not_lt.mp fun hlong => hlength (.inr hlong), Except.ok.inj h⟩
  · rintro ⟨hnumeral, hlength, rfl⟩
    obtain ⟨hne, hdigits⟩ := isNumeral_iff.mp hnumeral
    have hlt : digitsValue cs < Nat.pow 10 9 :=
      Nat.lt_of_lt_of_le (digitsValue_lt hdigits) (Nat.pow_le_pow_right (by decide) hlength)
    have hread : readNumber cs = .ok (digitsValue cs) :=
      readNumber_eq_ok_iff.mpr ⟨hnumeral, rfl, Nat.lt_trans hlt (by decide)⟩
    unfold readFraction
    rw [utf8Length_of_isDigit hdigits, if_neg]
    · exact bind_eq_ok.mpr ⟨_, hread, rfl⟩
    · rintro (hnil | hlong)
      · exact hne (List.isEmpty_iff.mp hnil)
      · omega

/-- A separator is no part of a numeral. -/
theorem ne_of_isNumeral {c : Char} (hc : c.isDigit = false) (h : isNumeral cs = true) :
    ∀ x ∈ cs, x ≠ c :=
  fun x hx => ne_of_isDigit (isDigit_of_isNumeral h x hx) hc

theorem Seconds.chars {seconds nanos : Nat} (h : Seconds cs seconds nanos) :
    ∀ x ∈ cs, x.isDigit = true ∨ x = '.' := by
  cases h with
  | whole hnumeral => exact fun x hx => .inl (isDigit_of_isNumeral hnumeral x hx)
  | fractional hwhole hnumeral =>
    rw [List.forall_mem_append, List.forall_mem_cons]
    exact ⟨fun x hx => .inl (isDigit_of_isNumeral hwhole x hx), .inr rfl,
      fun x hx => .inl (isDigit_of_isNumeral hnumeral x hx)⟩

/-- A fraction is less than a second. -/
theorem fraction_lt {fraction : List Char} (hnumeral : isNumeral fraction = true)
    (hlength : fraction.length ≤ 9) :
    digitsValue fraction * Nat.pow 10 (9 - fraction.length) < 1000000000 := by
  have hlt := digitsValue_lt (isDigit_of_isNumeral hnumeral)
  calc digitsValue fraction * Nat.pow 10 (9 - fraction.length)
      < Nat.pow 10 fraction.length * Nat.pow 10 (9 - fraction.length) :=
        Nat.mul_lt_mul_of_pos_right hlt (Nat.pow_pos (by decide))
    _ = Nat.pow 10 (fraction.length + (9 - fraction.length)) := (Nat.pow_add ..).symm
    _ = Nat.pow 10 9 := by rw [Nat.add_sub_cancel' hlength]
    _ = 1000000000 := rfl

theorem Seconds.nanos_lt {seconds nanos : Nat} (h : Seconds cs seconds nanos) :
    nanos < 1000000000 := by
  cases h with
  | whole => decide
  | fractional _ hnumeral hlength => exact fraction_lt hnumeral hlength

theorem Seconds.ne_colon {seconds nanos : Nat} (h : Seconds cs seconds nanos) :
    ∀ x ∈ cs, x ≠ ':' := by
  intro x hx
  rcases h.chars x hx with hdigit | rfl
  · exact ne_of_isDigit hdigit rfl
  · decide

-- ---------------------------------------------------------------------------
-- Seconds that are too large
-- ---------------------------------------------------------------------------

/-- The seconds still stand there behind more text, if no part of it is read with them. -/
theorem Overflows.append {text rest : List Char} (h : Overflows text rest) (front : List Char)
    {c : Char} (hc : (c.isDigit || c == '.') = false) : Overflows (front ++ c :: text) rest := by
  obtain @⟨inner, number, _, unit, hinner, hnumber, hunit⟩ := h
  have hfront : ∀ x ∈ (front ++ c :: inner).getLast?, (x.isDigit || x == '.') = false := by
    rw [List.getLast?_append_cons]
    cases inner with
    | nil => exact fun x hx => Option.some.inj hx ▸ hc
    | cons => exact hinner
  have htext : Overflows (_ ++ (number ++ unit :: rest)) rest := .mk hfront hnumber hunit
  rwa [List.append_assoc] at htext

/-- Seconds that overflow have thirty digits at least. -/
theorem Overflows.le_length {text rest : List Char} (h : Overflows text rest) :
    30 ≤ text.length := by
  obtain @⟨front, number, _, unit, -, ⟨seconds, nanos, hnumber, -, hlarge⟩, -⟩ := h
  have hdigits : ∀ {digits : List Char}, isNumeral digits = true →
      1 <<< 127 < (digitsValue digits + 1) * 1000000000 → 30 ≤ digits.length := by
    intro digits hnumeral hlarge
    have hvalue := digitsValue_lt (isDigit_of_isNumeral hnumeral)
    by_contra hshort
    have hpow : Nat.pow 10 digits.length ≤ 10 ^ 29 :=
      Nat.pow_le_pow_right (by decide) (by omega)
    omega
  have hnanos := hnumber.nanos_lt
  have hlength : 30 ≤ number.length := by
    cases hnumber with
    | whole hnumeral => exact hdigits hnumeral (by omega)
    | @fractional whole fraction hwhole hnumeral hshort =>
      have := hdigits hwhole (by omega)
      rw [List.length_append]
      omega
  rw [List.length_append, List.length_append]
  omega

-- ---------------------------------------------------------------------------
-- Builds that agree
-- ---------------------------------------------------------------------------

/-- The first result is the second one, unless that one is a stop. -/
def Follows {α : Type} (x y : Except Fault α) : Prop :=
  y ≠ .error .overflow → x = y

theorem Follows.refl {α : Type} (x : Except Fault α) : Follows x x :=
  fun _ => rfl

theorem Follows.bind {α β : Type} {x y : Except Fault α} {f g : α → Except Fault β}
    (h : Follows x y) (hf : ∀ a, Follows (f a) (g a)) : Follows (x >>= f) (y >>= g) := by
  intro hstop
  cases y with
  | error fault =>
    have hfault : Except.error fault ≠ (.error .overflow : Except Fault α) := by
      rintro ⟨⟩
      exact hstop rfl
    rw [h hfault]
    rfl
  | ok a =>
    rw [h nofun]
    exact hf a hstop

/-- What a build with checks does not stop at, every build adds up to the same. -/
theorem follows_uncheckedSum {build checking : Build} (h : checking.overflowChecks = true)
    (n : Int) : Follows (@uncheckedSum build n) (@uncheckedSum checking n) := by
  unfold uncheckedSum
  rw [if_pos h]
  split
  · exact .refl _
  · exact fun hstop => absurd rfl hstop

-- ---------------------------------------------------------------------------
-- Steps that do not stop
-- ---------------------------------------------------------------------------

/-- Steps of which none is stopped are not stopped together. -/
theorem bind_ne_overflow {α β : Type} {x : Except Fault α} {f : α → Except Fault β}
    (hx : x ≠ .error .overflow) (hf : ∀ a, f a ≠ .error .overflow) :
    (x >>= f) ≠ .error .overflow :=
  fun h => (bind_eq_error.mp h).elim hx fun ⟨a, _, ha⟩ => hf a ha

theorem checked_ne_overflow : checked n ≠ .error .overflow := by
  unfold checked
  split <;> nofun

theorem checkedSum_ne_overflow {n : Int} : checkedSum n ≠ .error .overflow := by
  unfold checkedSum
  split <;> nofun

theorem readNumber_ne_overflow : readNumber cs ≠ .error .overflow := by
  unfold readNumber
  split
  · exact checked_ne_overflow
  · nofun

theorem readFraction_ne_overflow : readFraction cs ≠ .error .overflow := by
  unfold readFraction
  split
  · nofun
  · exact bind_ne_overflow readNumber_ne_overflow fun _ => nofun

theorem readBounded_ne_overflow {unit : String} {most : Nat} :
    readBounded unit most cs ≠ .error .overflow := by
  refine bind_ne_overflow readNumber_ne_overflow fun k => ?_
  split <;> nofun

end ClusterFilter.Duration
