import ClusterFilter.Condition
import ClusterFilter.Proofs.Text.Decimal
import Mathlib.Data.Set.Function

/-!
# ClusterFilter — instants read back

An instant of the years 0 to 9999 is printed in the form of RFC 3339 and read back from it, to the
nanosecond and with its leap second. The parts have fixed width, so that each one is taken off
the front of the text alone.

A leap second is written as one second more. Behind the last second of a minute it is a second 60,
and behind any other it looks like the second that follows. So a text stands for one regular instant
(`Regular`), and the instant that is read back is the regular one with the same text (`printed`).

Main results:

* `takeFraction?_fractionChars_append` — the fraction of a second is read back, however many digits
  show it.
* `read?_chars` — what is read back from the text of an instant whose year has four digits.
* `chars_eq_iff`, `chars_injOn_regular` — which instants have the same text, whatever their years
  are.
-/

namespace ClusterFilter

namespace Instant

open Text

-- ---------------------------------------------------------------------------
-- The parts
-- ---------------------------------------------------------------------------

/-- The character that is expected is taken off the front of the text. -/
theorem expect?_bind {α : Type} (c : Char) (cs : List Char) (next : List Char → Option α) :
    (expect? c (c :: cs)).bind next = next cs := by
  rw [expect?, if_pos rfl, Option.bind_some]

/-- The digits behind a point as nanoseconds. Digits behind the ninth do not count. -/
def nanosValue (fraction : List Char) : Nat :=
  digitsValue (fraction.take 9) * Nat.pow 10 (9 - (fraction.take 9).length)

/-- A fraction of any length is taken off the front of the text. -/
theorem takeFraction?_given {fraction rest : List Char} (h : isNumeral fraction = true)
    (hrest : ∀ x ∈ rest.head?, x.isDigit = false) :
    takeFraction? ('.' :: (fraction ++ rest)) = some (nanosValue fraction, rest) := by
  obtain ⟨hne, hdigits⟩ := isNumeral_iff.mp h
  have hrun : ((fraction ++ rest).take 9).takeWhile Char.isDigit = fraction.take 9 := by
    rcases Nat.le_total fraction.length 9 with hshort | hlong
    · rw [takeWhile_take_append hdigits hshort hrest, List.take_of_length_le hshort]
    · rw [List.take_append_of_le_length hlong]
      exact (takeWhile_eq_self fun x hx => hdigits x (List.mem_of_mem_take hx)).1
  have hbehind : (fraction ++ rest).drop (fraction.take 9).length = fraction.drop 9 ++ rest := by
    rw [List.length_take, List.drop_append_of_le_length (Nat.min_le_right ..)]
    rcases Nat.le_total fraction.length 9 with hshort | hlong
    · rw [Nat.min_eq_right hshort, List.drop_length, List.drop_of_length_le hshort]
    · rw [Nat.min_eq_left hlong]
  have hempty : (fraction.take 9).isEmpty = false := by
    rw [List.isEmpty_eq_false_iff, ← List.length_pos_iff, List.length_take]
    have := List.length_pos_iff.mpr hne
    omega
  have hleft : (fraction.drop 9 ++ rest).dropWhile Char.isDigit = rest :=
    (takeWhile_append_of_head (fun x hx => hdigits x (List.mem_of_mem_drop hx)) hrest).2
  rw [takeFraction?]
  rw [hrun, hempty, hbehind, hleft]
  rfl

/-- Up to nine digits all count. -/
theorem takeFraction?_point {width n : Nat} (hwidth : 0 < width ∧ width ≤ 9)
    (hn : n < Nat.pow 10 width) {rest : List Char} (hrest : ∀ x ∈ rest.head?, x.isDigit = false) :
    takeFraction? ('.' :: (paddedDigits width n ++ rest)) =
      some (n * Nat.pow 10 (9 - width), rest) := by
  have hlength := length_paddedDigits hwidth.1 hn
  have hne : paddedDigits width n ≠ [] := List.length_pos_iff.mp (by omega)
  have hnumeral : isNumeral (paddedDigits width n) = true :=
    isNumeral_iff.mpr ⟨hne, fun _ => isDigit_of_mem_paddedDigits⟩
  rw [takeFraction?_given hnumeral hrest, nanosValue, List.take_of_length_le (by omega), hlength,
    digitsValue_paddedDigits]

/-- The fraction is read back from as many digits as make it exact, in front of any text that does
not go on with a fraction. -/
theorem takeFraction?_fractionChars_append {nanos : Nat} (hnanos : nanos < 1000000000)
    {rest : List Char} (hrest : ∀ x ∈ rest.head?, x.isDigit = false ∧ x ≠ '.') :
    takeFraction? (fractionChars nanos ++ rest) = some (nanos, rest) := by
  have hdigit : ∀ x ∈ rest.head?, x.isDigit = false := fun x hx => (hrest x hx).1
  unfold fractionChars
  split
  · next h =>
    rw [h, List.nil_append]
    unfold takeFraction?
    split
    · exact absurd rfl (hrest '.' rfl).2
    · rfl
  · split
    · next h =>
      have hn : nanos / 1000000 < Nat.pow 10 3 := by
        show nanos / 1000000 < 1000
        omega
      have hscale : nanos / 1000000 * Nat.pow 10 (9 - 3) = nanos := by
        show nanos / 1000000 * 1000000 = nanos
        omega
      rw [List.cons_append, takeFraction?_point (by decide) hn hdigit, hscale]
    · split
      · next h =>
        have hn : nanos / 1000 < Nat.pow 10 6 := by
          show nanos / 1000 < 1000000
          omega
        have hscale : nanos / 1000 * Nat.pow 10 (9 - 6) = nanos := by
          show nanos / 1000 * 1000 = nanos
          omega
        rw [List.cons_append, takeFraction?_point (by decide) hn hdigit, hscale]
      · have hscale : nanos * Nat.pow 10 (9 - 9) = nanos := Nat.mul_one nanos
        rw [List.cons_append, takeFraction?_point (by decide) hnanos hdigit, hscale]

theorem takeFraction?_fractionChars {nanos : Nat} (hnanos : nanos < 1000000000) :
    takeFraction? (fractionChars nanos ++ ['Z']) = some (nanos, ['Z']) :=
  takeFraction?_fractionChars_append hnanos (forall_mem_head?_cons ⟨rfl, by decide⟩)

-- ---------------------------------------------------------------------------
-- Leap seconds
-- ---------------------------------------------------------------------------

/-- If the instant lies in a leap second, this one is at the end of a minute. -/
def Regular (t : Instant) : Prop :=
  1000000000 ≤ t.nanos → t.second = 59

instance (t : Instant) : Decidable t.Regular :=
  inferInstanceAs (Decidable (_ → _))

/-- The regular instant with the same text. A leap second within a minute gives way to the second
that follows. -/
def printed (t : Instant) : Instant :=
  if h : t.Regular then t
  else
    have hleap : 1000000000 ≤ t.nanos ∧ t.secondOfDay % 60 ≠ 59 := Classical.not_imp.mp h
    have hday := t.secondOfDay_lt
    have hnanos := t.nanos_lt
    ⟨t.date, t.secondOfDay + 1, t.nanos - 1000000000, by omega, by omega⟩

theorem printed_of_regular {t : Instant} (h : t.Regular) : t.printed = t :=
  dif_pos h

theorem regular_printed (t : Instant) : t.printed.Regular := by
  unfold printed
  split
  · assumption
  · have hnanos := t.nanos_lt
    exact fun (hleap : 1000000000 ≤ t.nanos - 1000000000) => by omega

theorem printed_eq_self_iff {t : Instant} : t.printed = t ↔ t.Regular :=
  ⟨fun h => h ▸ t.regular_printed, printed_of_regular⟩

theorem shownNanos_lt (t : Instant) : t.shownNanos < 1000000000 :=
  Nat.mod_lt _ (by decide)

theorem minusMinutes_zero (t : Instant) : t.minusMinutes 0 = t := by
  obtain ⟨date, secondOfDay, nanos, hday, hnanos⟩ := t
  unfold minusMinutes
  simp only [Instant.mk.injEq]
  refine ⟨?_, by omega, trivial⟩
  rw [if_neg (by omega), if_pos (by omega)]

/-- Minutes go by at the same place in them. -/
theorem second_minusMinutes (t : Instant) (minutes : Int) :
    (t.minusMinutes minutes).second = t.second := by
  unfold minusMinutes second
  dsimp only
  omega

/-- A clock shows the second and the nanoseconds of the regular instant. -/
theorem of?_shown (t : Instant) :
    of? t.date t.hour t.minute t.shownSecond t.shownNanos = some t.printed := by
  obtain ⟨date, secondOfDay, nanos, hday, hnanos⟩ := t
  by_cases h : Regular ⟨date, secondOfDay, nanos, hday, hnanos⟩
  · have hleap : 1000000000 ≤ nanos → secondOfDay % 60 = 59 := h
    rw [printed_of_regular h]
    unfold of? hour minute shownSecond shownNanos second
    dsimp only
    rw [dif_pos (by omega)]
    simp only [Option.some.injEq, Instant.mk.injEq, true_and]
    omega
  · have hleap : 1000000000 ≤ nanos ∧ secondOfDay % 60 ≠ 59 := Classical.not_imp.mp h
    rw [printed, dif_neg h]
    unfold of? hour minute shownSecond shownNanos second
    dsimp only
    rw [dif_pos (by omega)]
    simp only [Option.some.injEq, Instant.mk.injEq, true_and]
    omega

/-- A time of day that a clock shows is regular. -/
theorem regular_of_of? {date : Date} {hour minute second nanos : Nat} {t : Instant}
    (h : of? date hour minute second nanos = some t) : t.date = date ∧ t.Regular := by
  unfold of? at h
  split at h
  · next hparts =>
    obtain rfl := Option.some.inj h
    refine ⟨rfl, fun hleap => ?_⟩
    unfold Instant.second
    dsimp only at hleap ⊢
    omega
  · cases h

-- ---------------------------------------------------------------------------
-- The whole text
-- ---------------------------------------------------------------------------

/-- A part of fixed width is taken off the front of the text. -/
theorem takeDigits?_bind {α : Type} {width n : Nat} (hwidth : 0 < width) (hn : n < Nat.pow 10 width)
    (rest : List Char) (next : Nat × List Char → Option α) :
    (takeDigits? width width (paddedDigits width n ++ rest)).bind next = next (n, rest) := by
  rw [takeDigits?_paddedDigits hwidth hn, Option.bind_some]

/-- The parts behind the year have two digits. -/
theorem parts_lt (t : Instant) : t.date.month < Nat.pow 10 2 ∧ t.date.day < Nat.pow 10 2 ∧
    t.hour < Nat.pow 10 2 ∧ t.minute < Nat.pow 10 2 ∧ t.shownSecond < Nat.pow 10 2 := by
  have hmost : daysInMonth t.date.year t.date.month < Nat.pow 10 2 := by
    unfold daysInMonth
    split
    · split <;> decide
    · split <;> decide
  have hday := t.secondOfDay_lt
  have hnanos := t.nanos_lt
  refine ⟨Nat.lt_of_le_of_lt t.date.month_bounds.2 (by decide),
    Nat.lt_of_le_of_lt t.date.day_bounds.2 hmost, ?_⟩
  unfold hour minute shownSecond second
  show _ < 100 ∧ _ < 100 ∧ _ < 100
  omega

/-- The text of an instant behind its year. -/
def afterYear (t : Instant) : List Char :=
  paddedDigits 2 t.date.month ++ '-' :: (paddedDigits 2 t.date.day ++
    'T' :: (paddedDigits 2 t.hour ++ ':' :: (paddedDigits 2 t.minute ++
      ':' :: (paddedDigits 2 t.shownSecond ++ (fractionChars t.shownNanos ++ ['Z'])))))

theorem chars_eq (t : Instant) : t.chars = Date.yearChars t.date.year ++ '-' :: t.afterYear := by
  unfold chars Date.chars afterYear
  simp only [List.append_assoc, List.cons_append]

/-- The year, the month, the day and the time of day are taken off one after the other. The fraction
and the offset are behind them. -/
theorem readOffsetDateTime?_numbers {year month day hour minute second : Nat}
    (hyear : year < Nat.pow 10 4) (hmonth : month < Nat.pow 10 2) (hday : day < Nat.pow 10 2)
    (hhour : hour < Nat.pow 10 2) (hminute : minute < Nat.pow 10 2)
    (hsecond : second < Nat.pow 10 2) (rest : List Char) :
    readOffsetDateTime? (paddedDigits 4 year ++ '-' :: (paddedDigits 2 month ++
      '-' :: (paddedDigits 2 day ++ 'T' :: (paddedDigits 2 hour ++ ':' :: (paddedDigits 2 minute ++
        ':' :: (paddedDigits 2 second ++ rest)))))) =
      (takeFraction? rest).bind fun (nanos, cs) => (takeOffset? cs).bind fun (offset, cs) =>
        if cs.isEmpty then
          (Date.of? year month day).bind fun date =>
            (of? date hour minute second nanos).map fun t => t.minusMinutes offset
        else none := by
  refine (takeDigits?_bind (by decide) hyear _ _).trans ?_
  refine (expect?_bind '-' _ _).trans ?_
  refine (takeDigits?_bind (by decide) hmonth _ _).trans ?_
  refine (expect?_bind '-' _ _).trans ?_
  refine (takeDigits?_bind (by decide) hday _ _).trans ?_
  refine (expect?_bind 'T' _ _).trans ?_
  refine (takeDigits?_bind (by decide) hhour _ _).trans ?_
  refine (expect?_bind ':' _ _).trans ?_
  refine (takeDigits?_bind (by decide) hminute _ _).trans ?_
  refine (expect?_bind ':' _ _).trans ?_
  refine (takeDigits?_bind (by decide) hsecond _ _).trans ?_
  simp only [Option.map_eq_bind]
  rfl

theorem readOffsetDateTime?_chars {t : Instant} {year : Nat} (hyear : t.date.year = year)
    (hwidth : year < Nat.pow 10 4) : readOffsetDateTime? t.chars = some t.printed := by
  obtain ⟨hmonth, hday, hhour, hminute, hsecond⟩ := t.parts_lt
  have hyears : 0 ≤ (year : Int) ∧ (year : Int) ≤ 9999 :=
    ⟨Int.natCast_nonneg year, Int.ofNat_le.mpr (Nat.le_of_lt_succ hwidth)⟩
  have hdate : Date.of? year t.date.month t.date.day = some t.date :=
    Date.of?_eq_some_iff.mpr ⟨hyear, rfl, rfl⟩
  rw [chars_eq, Date.yearChars, hyear, if_pos hyears, Int.toNat_natCast, afterYear,
    readOffsetDateTime?_numbers hwidth hmonth hday hhour hminute hsecond,
    takeFraction?_fractionChars t.shownNanos_lt]
  simp only [takeOffset?, hdate, of?_shown, minusMinutes_zero, Option.bind_some, Option.map_some,
    List.isEmpty_nil, if_true]

/-- The text of an instant whose year has four digits names the regular instant with this text. -/
theorem read?_chars {t : Instant} (hmin : 0 ≤ t.date.year) (hmax : t.date.year ≤ 9999) :
    read? t.chars = some t.printed := by
  obtain ⟨year, hyear⟩ := Int.eq_ofNat_of_zero_le hmin
  have hwidth : year < Nat.pow 10 4 := by
    show year < 10000
    omega
  rw [read?, readOffsetDateTime?_chars hyear hwidth]
  rfl

-- ---------------------------------------------------------------------------
-- Different instants
-- ---------------------------------------------------------------------------

/-- The sign of a year, which has one outside of 0 to 9999. -/
def yearSign (year : Int) : List Char :=
  if year < 0 then ['-'] else if 9999 < year then ['+'] else []

theorem yearChars_eq (year : Int) :
    Date.yearChars year = yearSign year ++ paddedDigits 4 year.natAbs := by
  unfold Date.yearChars yearSign
  by_cases hneg : year < 0
  · rw [if_neg (by omega), if_pos hneg, if_pos hneg]
    rfl
  · by_cases hlarge : 9999 < year
    · rw [if_neg (by omega), if_neg hneg, if_neg hneg, if_pos hlarge]
      rfl
    · have hnat : year.toNat = year.natAbs := by omega
      rw [if_pos (by omega), if_neg hneg, if_neg hlarge, hnat]
      rfl

theorem isDigit_of_mem_yearSign {year : Int} {x : Char} (h : x ∈ yearSign year) :
    x.isDigit = false := by
  unfold yearSign at h
  split at h
  · rw [List.mem_singleton.mp h]
    rfl
  · split at h
    · rw [List.mem_singleton.mp h]
      rfl
    · cases h

theorem yearSign_eq_minus {year : Int} : yearSign year = ['-'] ↔ year < 0 := by
  unfold yearSign
  split
  · next h => exact ⟨fun _ => h, fun _ => rfl⟩
  · next h =>
    refine ⟨fun hsign => ?_, fun hneg => absurd hneg h⟩
    split at hsign
    · cases hsign
    · cases hsign

/-- Years in front of the same text are the same, since no year ends in a hyphen. -/
theorem yearChars_append_inj {a b : Int} {rest rest' : List Char}
    (h : Date.yearChars a ++ '-' :: rest = Date.yearChars b ++ '-' :: rest') :
    a = b ∧ rest = rest' := by
  -- the sign is the longest run without digits, and the number is the run of digits behind it
  have hsplit : ∀ (year : Int) (rest : List Char),
      (Date.yearChars year ++ '-' :: rest).takeWhile (fun x => !x.isDigit) = yearSign year ∧
        (Date.yearChars year ++ '-' :: rest).dropWhile (fun x => !x.isDigit) =
          paddedDigits 4 year.natAbs ++ '-' :: rest := by
    intro year rest
    rw [yearChars_eq, List.append_assoc]
    refine takeWhile_append_of_head (fun x hx => ?_) fun x hx => ?_
    · rw [isDigit_of_mem_yearSign hx]
      rfl
    · obtain ⟨y, ys, hy⟩ : ∃ y ys, paddedDigits 4 year.natAbs = y :: ys :=
        List.exists_cons_of_ne_nil (List.append_ne_nil_of_right_ne_nil _ (digits_ne_nil _))
      rw [hy, List.cons_append, List.head?_cons, Option.mem_some_iff] at hx
      have hdigit : y ∈ paddedDigits 4 year.natAbs := hy ▸ List.mem_cons_self ..
      rw [← hx, isDigit_of_mem_paddedDigits hdigit]
      rfl
  have hnumber : ∀ (n : Nat) (rest : List Char),
      (paddedDigits 4 n ++ '-' :: rest).takeWhile Char.isDigit = paddedDigits 4 n ∧
        (paddedDigits 4 n ++ '-' :: rest).dropWhile Char.isDigit = '-' :: rest := fun n rest =>
    takeWhile_append_of_head (fun _ => isDigit_of_mem_paddedDigits) (forall_mem_head?_cons rfl)
  have hsign : yearSign a = yearSign b := by
    rw [← (hsplit a rest).1, h, (hsplit b rest').1]
  have hbehind :
      paddedDigits 4 a.natAbs ++ '-' :: rest = paddedDigits 4 b.natAbs ++ '-' :: rest' := by
    rw [← (hsplit a rest).2, h, (hsplit b rest').2]
  have hdigits : paddedDigits 4 a.natAbs = paddedDigits 4 b.natAbs := by
    rw [← (hnumber _ rest).1, hbehind, (hnumber _ rest').1]
  have habs : a.natAbs = b.natAbs := by
    rw [← digitsValue_paddedDigits 4 a.natAbs, hdigits, digitsValue_paddedDigits]
  have hnegative : a < 0 ↔ b < 0 := by
    rw [← yearSign_eq_minus, hsign, yearSign_eq_minus]
  rw [hdigits] at hbehind
  injection List.append_cancel_left hbehind with _ hrest
  exact ⟨by omega, hrest⟩

/-- Fractions of a second in front of the final letter are told apart by their digits. -/
theorem fractionChars_inj {m n : Nat} (hm : m < 1000000000) (hn : n < 1000000000)
    (h : fractionChars m ++ ['Z'] = fractionChars n ++ ['Z']) : m = n := by
  have hread := congrArg takeFraction? h
  rw [takeFraction?_fractionChars hm, takeFraction?_fractionChars hn] at hread
  injection hread with hread
  injection hread

/-- The date and what the clock shows are told apart by their digits. -/
theorem printed_eq_of_chars {s t : Instant} (h : s.chars = t.chars) : s.printed = t.printed := by
  obtain ⟨hmonth, hday, hhour, hminute, hsecond⟩ := s.parts_lt
  obtain ⟨hmonth', hday', hhour', hminute', hsecond'⟩ := t.parts_lt
  have hpart : ∀ {m n : Nat} {rest rest' : List Char} {x : Char}, m < Nat.pow 10 2 →
      n < Nat.pow 10 2 → paddedDigits 2 m ++ x :: rest = paddedDigits 2 n ++ x :: rest' →
        m = n ∧ rest = rest' := by
    intro m n rest rest' x hm hn h
    obtain ⟨hmn, hrest⟩ := paddedDigits_append_inj (by decide) hm hn h
    injection hrest with _ hrest
    exact ⟨hmn, hrest⟩
  rw [chars_eq, chars_eq] at h
  obtain ⟨hyears, h⟩ := yearChars_append_inj h
  obtain ⟨hmonths, h⟩ := hpart hmonth hmonth' h
  obtain ⟨hdays, h⟩ := hpart hday hday' h
  obtain ⟨hhours, h⟩ := hpart hhour hhour' h
  obtain ⟨hminutes, h⟩ := hpart hminute hminute' h
  obtain ⟨hseconds, h⟩ := paddedDigits_append_inj (by decide) hsecond hsecond' h
  have hnanos := fractionChars_inj s.shownNanos_lt t.shownNanos_lt h
  have hdate : s.date = t.date := by
    have hs := Date.of?_eq_some_iff.mpr ⟨hyears, hmonths, hdays⟩
    exact Option.some.inj (hs.symm.trans (Date.of?_eq_some_iff.mpr ⟨rfl, rfl, rfl⟩))
  refine Option.some.inj ?_
  rw [← of?_shown, ← of?_shown, hdate, hhours, hminutes, hseconds, hnanos]

/-- The text is that of the regular instant. -/
theorem chars_printed (t : Instant) : t.printed.chars = t.chars := by
  obtain ⟨date, secondOfDay, nanos, hday, hnanos⟩ := t
  unfold printed
  split
  · rfl
  · next h =>
    have hleap : 1000000000 ≤ nanos ∧ secondOfDay % 60 ≠ 59 := Classical.not_imp.mp h
    have hhour : (secondOfDay + 1) / 3600 = secondOfDay / 3600 := by omega
    have hminute : (secondOfDay + 1) / 60 % 60 = secondOfDay / 60 % 60 := by omega
    have hsecond : (secondOfDay + 1) % 60 + (nanos - 1000000000) / 1000000000 =
        secondOfDay % 60 + nanos / 1000000000 := by omega
    have hshown : (nanos - 1000000000) % 1000000000 = nanos % 1000000000 := by omega
    simp only [chars, hour, minute, shownSecond, second, shownNanos, hhour, hminute, hsecond,
      hshown]

/-- Two instants have the same text exactly if it names the same regular instant, in all years. -/
theorem chars_eq_iff {s t : Instant} : s.chars = t.chars ↔ s.printed = t.printed :=
  ⟨printed_eq_of_chars, fun h => by rw [← chars_printed s, h, chars_printed t]⟩

/-- Different regular instants have different texts. -/
theorem chars_injOn_regular : Set.InjOn chars {t | t.Regular} := fun s hs t ht h => by
  rw [← printed_of_regular hs, ← printed_of_regular ht, chars_eq_iff.mp h]

/-- A leap second within a minute, behind 23:56:04. Its text is that of the second that follows. -/
def withinMinute : Instant :=
  ⟨⟨2015, 6, 30, by decide, by decide⟩, 86164, 1333333333, by decide, by decide⟩

example : withinMinute.chars = "2015-06-30T23:56:05.333333333Z".toList := by
  decide

end Instant

/-- A date among the values is regular. -/
def Value.Regular : Value → Prop
  | .date t => t.Regular
  | _ => True

end ClusterFilter
