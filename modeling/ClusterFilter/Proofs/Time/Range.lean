import ClusterFilter.Condition
import ClusterFilter.Literal
import ClusterFilter.Proofs.Time.Instant

/-!
# ClusterFilter — the range of instants

Which instants a literal can name, and which of these have a text that names them again. The years
of a literal reach far beyond four digits, while the text of an instant ends in the `Z` of RFC 3339,
whose years have four digits. A year outside of them is printed with a sign, and a text with a sign
and a `Z` is in none of the three notations.

An offset moves an instant by less than a day, across a year's end if need be. The first and the
last year of four digits are left in this way as well.

No notation names an instant that is not regular, that is, a leap second within a minute. The text
of such an instant names another one.

Main results:

* `readDateTime?_localChars` — the notation without an offset names every instant of the range, and
  allows nothing behind it.
* `read?_chars_eq_none` — a text with a signed year is not read.
* `readDate_chars_exact` — the instants that can be read, and the texts that are read back.
-/

namespace ClusterFilter

open Text

-- ---------------------------------------------------------------------------
-- The years that are read
-- ---------------------------------------------------------------------------

namespace Date

/-- A date that a literal can name. -/
def InRange (d : Date) : Prop :=
  Instant.yearBounds.1 ≤ d.year ∧ d.year ≤ Instant.yearBounds.2

instance (d : Date) : Decidable d.InRange :=
  inferInstanceAs (Decidable (_ ∧ _))

theorem year_next (d : Date) : d.next.year = d.year ∨ d.next.year = d.year + 1 := by
  unfold next
  split
  · exact .inl rfl
  · split
    · exact .inl rfl
    · exact .inr rfl

theorem year_previous (d : Date) : d.previous.year = d.year ∨ d.previous.year = d.year - 1 := by
  unfold previous
  split
  · exact .inl rfl
  · split
    · exact .inl rfl
    · exact .inr rfl

end Date

namespace Instant

/-- An offset moves an instant by no more than one year. -/
theorem year_minusMinutes (t : Instant) (minutes : Int) :
    t.date.year - 1 ≤ (t.minusMinutes minutes).date.year ∧
      (t.minusMinutes minutes).date.year ≤ t.date.year + 1 := by
  have hprevious := t.date.year_previous
  have hnext := t.date.year_next
  unfold minusMinutes
  dsimp only
  split
  · omega
  · split <;> omega

theorem regular_minusMinutes {t : Instant} (h : t.Regular) (minutes : Int) :
    (t.minusMinutes minutes).Regular :=
  fun hleap => (t.second_minusMinutes minutes).trans (h hleap)

/-- The year of an RFC 3339 text has four digits, and its offset may leave them by one. A leap
second remains at the end of a minute. -/
theorem bounds_of_readOffsetDateTime? {cs : List Char} {t : Instant}
    (h : readOffsetDateTime? cs = some t) :
    (-1 ≤ t.date.year ∧ t.date.year ≤ 10000) ∧ t.Regular := by
  unfold readOffsetDateTime? at h
  obtain ⟨⟨year, _⟩, hyear, h⟩ := Option.bind_eq_some_iff.mp h
  -- between the year and the offset: month, day, time of day and the signs around them
  iterate 11 obtain ⟨_, _, h⟩ := Option.bind_eq_some_iff.mp h
  obtain ⟨⟨offset, _⟩, _, h⟩ := Option.bind_eq_some_iff.mp h
  obtain ⟨-, h⟩ := Option.ite_none_right_eq_some.mp h
  obtain ⟨date, hdate, h⟩ := Option.bind_eq_some_iff.mp h
  obtain ⟨t', ht', ht⟩ := Option.bind_eq_some_iff.mp h
  have hlt : year < 10000 := takeDigits?_lt hyear
  have hshift := t'.year_minusMinutes offset
  obtain ⟨hsame, hregular⟩ := regular_of_of? ht'
  rw [hsame, (Date.of?_eq_some_iff.mp hdate).1, Option.some.inj ht] at hshift
  refine ⟨by omega, ?_⟩
  rw [← Option.some.inj ht]
  exact regular_minusMinutes hregular offset

theorem inRange_of_takeDate? {cs rest : List Char} {d : Date} (h : takeDate? cs = some (d, rest)) :
    d.InRange := by
  unfold takeDate? at h
  obtain ⟨⟨year, _⟩, _, h⟩ := Option.bind_eq_some_iff.mp h
  iterate 4 obtain ⟨_, _, h⟩ := Option.bind_eq_some_iff.mp h
  obtain ⟨hyear, h⟩ := Option.ite_none_right_eq_some.mp h
  obtain ⟨date, hdate, hd⟩ := Option.bind_eq_some_iff.mp h
  injection hd with hd
  injection hd with hd
  unfold Date.InRange
  rw [← hd, (Date.of?_eq_some_iff.mp hdate).1]
  exact hyear

/-- What is read in any notation is in the range and regular. -/
theorem inRange_of_read? {cs : List Char} {t : Instant} (h : read? cs = some t) :
    t.date.InRange ∧ t.Regular := by
  unfold read? at h
  simp only [Option.orElse_eq_orElse, Option.orElse_eq_or, Option.or_eq_some_iff] at h
  rcases h with h | ⟨-, h | ⟨-, h⟩⟩
  · obtain ⟨hyear, hregular⟩ := bounds_of_readOffsetDateTime? h
    refine ⟨?_, hregular⟩
    unfold Date.InRange yearBounds
    dsimp only
    omega
  · unfold readDateTime? at h
    obtain ⟨⟨d, _⟩, hd, h⟩ := Option.bind_eq_some_iff.mp h
    iterate 7 obtain ⟨_, _, h⟩ := Option.bind_eq_some_iff.mp h
    obtain ⟨-, ht⟩ := Option.ite_none_right_eq_some.mp h
    obtain ⟨hsame, hregular⟩ := regular_of_of? ht
    exact ⟨hsame ▸ inRange_of_takeDate? hd, hregular⟩
  · unfold readDate? at h
    obtain ⟨⟨d, _⟩, hd, h⟩ := Option.bind_eq_some_iff.mp h
    obtain ⟨-, ht⟩ := Option.ite_none_right_eq_some.mp h
    rw [← Option.some.inj ht]
    exact ⟨inRange_of_takeDate? hd, fun (hleap : 1000000000 ≤ 0) => absurd hleap (by decide)⟩

-- ---------------------------------------------------------------------------
-- Numbers of free width
-- ---------------------------------------------------------------------------

/-- No white space is in front of a number. -/
theorem dropBlanks_paddedDigits (width n : Nat) (rest : List Char) :
    dropBlanks (paddedDigits width n ++ rest) = paddedDigits width n ++ rest :=
  (takeWhile_eq_nil_of_head fun x hx =>
    isBlank_eq_false_of_isDigit (isDigit_of_head?_paddedDigits x hx)).2

/-- A number of two digits is taken off the front of the text. -/
theorem takeNumber?_bind {α : Type} {n : Nat} (hn : n < Nat.pow 10 2) {rest : List Char}
    (hrest : ∀ x ∈ rest.head?, x.isDigit = false) (next : Nat × List Char → Option α) :
    (takeNumber? 2 (paddedDigits 2 n ++ rest)).bind next = next (n, rest) := by
  have hlength := length_paddedDigits (by decide) hn
  rw [takeNumber?, dropBlanks_paddedDigits, takeDigits?_append
    (fun _ => isDigit_of_mem_paddedDigits) (by omega) (Nat.le_of_eq hlength) hrest,
    digitsValue_paddedDigits, Option.bind_some]

/-- A year is read back with its sign, whatever its size. -/
theorem takeYear?_yearChars (year : Int) (rest : List Char) :
    takeYear? (Date.yearChars year ++ '-' :: rest) = some (year, '-' :: rest) := by
  have hrest : ∀ x ∈ ('-' :: rest).head?, x.isDigit = false := forall_mem_head?_cons rfl
  have hleast := le_length_paddedDigits 4 year.natAbs
  have htake : ∀ {most : Nat}, (paddedDigits 4 year.natAbs).length ≤ most →
      takeDigits? 1 most (paddedDigits 4 year.natAbs ++ '-' :: rest) =
        some (year.natAbs, '-' :: rest) := by
    intro most hmost
    rw [takeDigits?_append (fun _ => isDigit_of_mem_paddedDigits) (by omega) hmost hrest,
      digitsValue_paddedDigits]
  have hall : (paddedDigits 4 year.natAbs).length ≤
      (paddedDigits 4 year.natAbs ++ '-' :: rest).length := by
    rw [List.length_append]
    exact Nat.le_add_right ..
  rw [yearChars_eq, List.append_assoc]
  unfold yearSign
  split
  · next hneg =>
    have hyear : -(year.natAbs : Int) = year := by omega
    refine (congrArg (Option.map _) (htake hall)).trans ?_
    exact congrArg (fun y => some (y, '-' :: rest)) hyear
  · next hneg =>
    have hyear : (year.natAbs : Int) = year := by omega
    split
    · refine (congrArg (Option.map _) (htake hall)).trans ?_
      exact congrArg (fun y => some (y, '-' :: rest)) hyear
    · next hlarge =>
      have hwidth : year.natAbs < Nat.pow 10 4 := by
        show year.natAbs < 10000
        omega
      have hlength := length_paddedDigits (by decide) hwidth
      have hhead : ∀ {x : Char} {cs : List Char}, x.isDigit = false →
          paddedDigits 4 year.natAbs ++ '-' :: rest ≠ x :: cs := by
        intro x cs hx h
        have hdigit : ∀ y ∈ (x :: cs).head?, y.isDigit = true := h ▸ isDigit_of_head?_paddedDigits
        rw [hdigit x rfl] at hx
        cases hx
      rw [List.nil_append]
      unfold takeYear?
      rw [dropBlanks_paddedDigits]
      split
      · next h => exact absurd h (hhead rfl)
      · next h => exact absurd h (hhead rfl)
      · refine (congrArg (Option.map _) (htake (Nat.le_of_eq hlength))).trans ?_
        exact congrArg (fun y => some (y, '-' :: rest)) hyear

theorem takeYear?_bind {α : Type} (year : Int) (rest : List Char)
    (next : Int × List Char → Option α) :
    (takeYear? (Date.yearChars year ++ '-' :: rest)).bind next = next (year, '-' :: rest) := by
  rw [takeYear?_yearChars, Option.bind_some]

/-- The numbers of a date are taken off one after the other. -/
theorem takeDate?_numbers (year : Int) {month day : Nat} (hmonth : month < Nat.pow 10 2)
    (hday : day < Nat.pow 10 2) {rest : List Char} (hrest : ∀ x ∈ rest.head?, x.isDigit = false) :
    takeDate? (Date.yearChars year ++ '-' :: (paddedDigits 2 month ++
      '-' :: (paddedDigits 2 day ++ rest))) =
      if yearBounds.1 ≤ year ∧ year ≤ yearBounds.2 then
        (Date.of? year month day).map fun date => (date, rest)
      else none := by
  refine (takeYear?_bind _ _ _).trans ?_
  refine (expect?_bind '-' _ _).trans ?_
  refine (takeNumber?_bind hmonth (forall_mem_head?_cons rfl) _).trans ?_
  refine (expect?_bind '-' _ _).trans ?_
  refine (takeNumber?_bind hday hrest _).trans ?_
  simp only [Option.map_eq_bind]
  rfl

/-- A date is read back if its year is one that a literal may name. -/
theorem takeDate?_chars (d : Date) {rest : List Char}
    (hrest : ∀ x ∈ rest.head?, x.isDigit = false) :
    takeDate? (d.chars ++ rest) =
      if d.InRange then some (d, rest) else none := by
  have hmonth : d.month < Nat.pow 10 2 := (midnight d).parts_lt.1
  have hday : d.day < Nat.pow 10 2 := (midnight d).parts_lt.2.1
  have hchars : d.chars ++ rest = Date.yearChars d.year ++ '-' :: (paddedDigits 2 d.month ++
      '-' :: (paddedDigits 2 d.day ++ rest)) := by
    unfold Date.chars
    simp only [List.append_assoc, List.cons_append]
  rw [hchars, takeDate?_numbers d.year hmonth hday hrest,
    Date.of?_eq_some_iff.mpr ⟨rfl, rfl, rfl⟩]
  rfl

theorem takeDate?_bind {α : Type} (d : Date) {rest : List Char}
    (hrest : ∀ x ∈ rest.head?, x.isDigit = false) (next : Date × List Char → Option α) :
    (takeDate? (d.chars ++ rest)).bind next = if d.InRange then next (d, rest) else none := by
  rw [takeDate?_chars d hrest]
  split
  · rfl
  · rfl

-- ---------------------------------------------------------------------------
-- The texts in the notations
-- ---------------------------------------------------------------------------

/-- The time of day as the text of an instant has it. -/
def clockChars (t : Instant) : List Char :=
  paddedDigits 2 t.hour ++ ':' :: (paddedDigits 2 t.minute ++
    ':' :: (paddedDigits 2 t.shownSecond ++ fractionChars t.shownNanos))

/-- The text of an instant without its final letter, which stands for the offset. -/
def localChars (t : Instant) : List Char :=
  t.date.chars ++ 'T' :: t.clockChars

theorem chars_eq_localChars (t : Instant) : t.chars = t.localChars ++ ['Z'] := by
  unfold chars localChars clockChars
  simp only [List.append_assoc, List.cons_append]

theorem localChars_append (t : Instant) (rest : List Char) :
    t.localChars ++ rest = t.date.chars ++ 'T' :: (t.clockChars ++ rest) := by
  rw [localChars, List.append_assoc, List.cons_append]

/-- A fraction begins with a point, if there is one. -/
theorem fractionChars_eq_nil_or_point (nanos : Nat) :
    fractionChars nanos = [] ∨ ∃ cs, fractionChars nanos = '.' :: cs := by
  unfold fractionChars
  split
  · exact .inl rfl
  · split
    · exact .inr ⟨_, rfl⟩
    · split
      · exact .inr ⟨_, rfl⟩
      · exact .inr ⟨_, rfl⟩

/-- The time of day is taken off behind the date. The fraction is all that may stand behind it. -/
theorem readDateTime?_numbers {date rest : List Char} {date? : Option Date}
    {hour minute second : Nat} (hhour : hour < Nat.pow 10 2) (hminute : minute < Nat.pow 10 2)
    (hsecond : second < Nat.pow 10 2) (hrest : ∀ x ∈ rest.head?, x.isDigit = false)
    (hdate : ∀ cs, takeDate? (date ++ 'T' :: cs) = date?.map fun d => (d, 'T' :: cs)) :
    readDateTime? (date ++ 'T' :: (paddedDigits 2 hour ++ ':' :: (paddedDigits 2 minute ++
      ':' :: (paddedDigits 2 second ++ rest)))) =
      date?.bind fun d => (takeFraction? rest).bind fun (nanos, cs) =>
        if cs.isEmpty then of? d hour minute second nanos else none := by
  unfold readDateTime?
  rw [hdate]
  cases date? with
  | none => rfl
  | some d =>
    simp only [Option.map_some, Option.bind_eq_bind, Option.bind_some]
    refine (expect?_bind 'T' _ _).trans ?_
    refine (takeNumber?_bind hhour (forall_mem_head?_cons rfl) _).trans ?_
    refine (expect?_bind ':' _ _).trans ?_
    refine (takeNumber?_bind hminute (forall_mem_head?_cons rfl) _).trans ?_
    refine (expect?_bind ':' _ _).trans ?_
    exact takeNumber?_bind hsecond hrest _

/-- The notation without an offset names every regular instant of the range. Nothing may stand
behind it. -/
theorem readDateTime?_localChars (t : Instant) {rest : List Char}
    (hrest : ∀ x ∈ rest.head?, x.isDigit = false ∧ x ≠ '.') :
    readDateTime? (t.localChars ++ rest) =
      if t.date.InRange ∧ rest = [] then some t.printed else none := by
  obtain ⟨-, -, hhour, hminute, hsecond⟩ := t.parts_lt
  have hfraction : ∀ x ∈ (fractionChars t.shownNanos ++ rest).head?, x.isDigit = false := by
    rcases fractionChars_eq_nil_or_point t.shownNanos with h | ⟨cs, h⟩
    · rw [h]
      exact fun x hx => (hrest x hx).1
    · rw [h]
      exact forall_mem_head?_cons rfl
  have hclock : t.clockChars ++ rest = paddedDigits 2 t.hour ++ ':' :: (paddedDigits 2 t.minute ++
      ':' :: (paddedDigits 2 t.shownSecond ++ (fractionChars t.shownNanos ++ rest))) := by
    unfold clockChars
    simp only [List.append_assoc, List.cons_append]
  have hdate : ∀ cs, takeDate? (t.date.chars ++ 'T' :: cs) =
      (if t.date.InRange then some t.date else none).map fun d => (d, 'T' :: cs) := by
    intro cs
    rw [takeDate?_chars t.date (forall_mem_head?_cons rfl)]
    split
    · rfl
    · rfl
  rw [localChars_append, hclock, readDateTime?_numbers hhour hminute hsecond hfraction hdate,
    takeFraction?_fractionChars_append t.shownNanos_lt hrest]
  by_cases hrange : t.date.InRange
  · simp only [hrange, if_true, Option.bind_some, of?_shown, List.isEmpty_iff, true_and]
  · rw [if_neg hrange, if_neg fun h => hrange h.1]
    rfl

theorem readDate?_localChars (t : Instant) (rest : List Char) :
    readDate? (t.localChars ++ rest) = none := by
  rw [localChars_append]
  refine (takeDate?_bind t.date (forall_mem_head?_cons rfl) _).trans ?_
  split
  · rfl
  · rfl

/-- RFC 3339 has no sign in front of the year. -/
theorem readOffsetDateTime?_localChars {t : Instant}
    (hyear : ¬ (0 ≤ t.date.year ∧ t.date.year ≤ 9999)) (rest : List Char) :
    readOffsetDateTime? (t.localChars ++ rest) = none := by
  have hhead : ∀ x ∈ (t.localChars ++ rest).head?, x.isDigit = false := by
    rw [localChars_append, Date.chars, Date.yearChars, if_neg hyear]
    refine forall_mem_head?_cons ?_
    split
    · rfl
    · rfl
  unfold readOffsetDateTime?
  rw [takeDigits?_eq_none (by decide) hhead]
  rfl

/-- A text with a signed year is read in the notation without an offset only. -/
theorem read?_localChars {t : Instant} (hyear : ¬ (0 ≤ t.date.year ∧ t.date.year ≤ 9999))
    {rest : List Char} (hrest : ∀ x ∈ rest.head?, x.isDigit = false ∧ x ≠ '.') :
    read? (t.localChars ++ rest) =
      if t.date.InRange ∧ rest = [] then some t.printed else none := by
  rw [read?, readOffsetDateTime?_localChars hyear, readDateTime?_localChars t hrest,
    readDate?_localChars]
  split
  · rfl
  · rfl

/-- The text of an instant whose year does not have four digits is in none of the notations. -/
theorem read?_chars_eq_none {t : Instant} (hyear : ¬ (0 ≤ t.date.year ∧ t.date.year ≤ 9999)) :
    read? t.chars = none := by
  rw [chars_eq_localChars, read?_localChars hyear (forall_mem_head?_cons ⟨rfl, by decide⟩),
    if_neg fun h => List.cons_ne_nil _ _ h.2]

/-- Every regular instant of the range has a text. -/
theorem exists_read? {t : Instant} (h : t.date.InRange) (hregular : t.Regular) :
    ∃ cs, read? cs = some t := by
  rw [← printed_of_regular hregular]
  by_cases hyear : 0 ≤ t.date.year ∧ t.date.year ≤ 9999
  · exact ⟨t.chars, read?_chars hyear.1 hyear.2⟩
  · have hread : read? (t.localChars ++ []) = _ := read?_localChars hyear nofun
    rw [if_pos ⟨h, rfl⟩] at hread
    exact ⟨_, hread⟩

end Instant

-- ---------------------------------------------------------------------------
-- The texts of values
-- ---------------------------------------------------------------------------

namespace LiteralText

theorem readDate_eq_ok_iff {cs : List Char} {t : Instant} :
    readDate cs = .ok t ↔ Instant.read? cs = some t := by
  unfold readDate
  cases Instant.read? cs with
  | some t' =>
    refine ⟨fun h => ?_, fun h => ?_⟩
    · injection h with h
      rw [h]
    · injection h with h
      rw [h]
  | none => exact ⟨nofun, nofun⟩

/--
**The dates that are read back.** The literals name exactly the regular instants of the years in
`yearBounds`. The text of an instant is read if its year has four digits, and refused otherwise. It
is read as the same instant if this one is regular, as all that literals name are, and only then.
-/
theorem readDate_chars_exact (t : Instant) :
    ((∃ cs, readDate cs = .ok t) ↔ t.date.InRange ∧ t.Regular) ∧
    readDate (Value.date t).chars =
      (if 0 ≤ t.date.year ∧ t.date.year ≤ 9999 then .ok t.printed else .error .notADate) ∧
    (t.printed = t ↔ t.Regular) := by
  refine ⟨⟨?_, ?_⟩, ?_, Instant.printed_eq_self_iff⟩
  · rintro ⟨cs, h⟩
    exact Instant.inRange_of_read? (readDate_eq_ok_iff.mp h)
  · intro h
    obtain ⟨cs, hcs⟩ := Instant.exists_read? h.1 h.2
    exact ⟨cs, readDate_eq_ok_iff.mpr hcs⟩
  · rw [Value.chars]
    split
    · next hyear => exact readDate_eq_ok_iff.mpr (Instant.read?_chars hyear.1 hyear.2)
    · next hyear =>
      unfold readDate
      rw [Instant.read?_chars_eq_none hyear]

/-- An offset leads from the last year of four digits to the first of five, whose text is not
read. -/
theorem readDate_chars_offset :
    ¬ ∀ cs t, readDate cs = .ok t → readDate (Value.date t).chars = .ok t := by
  intro hall
  have hlast : readDate "9999-12-31T23:30:00-01:00".toList =
      .ok ⟨⟨10000, 1, 1, by decide, by decide⟩, 1800, 0, by decide, by decide⟩ := by
    decide
  have hagain := hall _ _ hlast
  revert hagain
  decide

end LiteralText

end ClusterFilter
