import ClusterFilter.Proofs.Time.Instant

/-!
# ClusterFilter — the calendar as a line

The calendar goes from one day to the next by cases: within a month, into the next month, into the
next year. The day number says the same by counting. Here both are shown to agree, leap years
included, so that dates can be compared and moved by their numbers; and instants by the number of
their minute.

The second and its nanoseconds are not counted. A leap second lies behind the second it belongs to,
and a count of seconds would take it for the one that follows.

Main results:

* `Date.dayNumber_next`, `Date.dayNumber_previous` — neighbouring days have neighbouring numbers.
* `Date.dayNumber_injective` — no two dates have one number.
* `Instant.after_minusMinutes` — moving by minutes is subtraction of minutes.
-/

namespace ClusterFilter

-- ---------------------------------------------------------------------------
-- Months and years
-- ---------------------------------------------------------------------------

theorem isLeapYear_iff {year : Int} :
    isLeapYear year = true ↔ year % 4 = 0 ∧ (year % 100 ≠ 0 ∨ year % 400 = 0) := by
  simp [isLeapYear]

namespace Date

theorem daysBeforeMonth_succ (year : Int) {month : Nat} (h : 1 ≤ month) :
    daysBeforeMonth year (month + 1) =
      daysBeforeMonth year month + daysInMonth year month := by
  obtain ⟨m, rfl⟩ := Nat.exists_eq_add_of_le' h
  unfold daysBeforeMonth
  rw [Nat.add_sub_cancel, Nat.add_sub_cancel, List.range_succ, List.foldl_append]
  rfl

/-- A month ends before a later one begins. -/
theorem daysBeforeMonth_le (year : Int) {m n : Nat} (hm : 1 ≤ m) (h : m < n) :
    daysBeforeMonth year m + daysInMonth year m ≤ daysBeforeMonth year n := by
  induction h with
  | refl => exact Nat.le_of_eq (daysBeforeMonth_succ year hm).symm
  | @step n hn ih =>
    have hn : m < n := hn
    rw [daysBeforeMonth_succ year (by omega : 1 ≤ n)]
    omega

/-- The months up to December, and its 31 days, make up a year. -/
theorem daysBeforeMonth_december (year : Int) :
    daysBeforeMonth year 12 + 31 = if isLeapYear year then 366 else 365 := by
  unfold daysBeforeMonth daysInMonth
  cases isLeapYear year with
  | true => rfl
  | false => rfl

theorem daysBeforeYear_succ (year : Int) :
    daysBeforeYear (year + 1) = daysBeforeYear year + (daysBeforeMonth year 12 + 31 : Nat) := by
  rw [daysBeforeMonth_december]
  unfold daysBeforeYear
  dsimp only
  split
  · next h =>
    have hleap := isLeapYear_iff.mp h
    omega
  · next h =>
    have hcommon : ¬ (year % 4 = 0 ∧ (year % 100 ≠ 0 ∨ year % 400 = 0)) :=
      fun hleap => h (isLeapYear_iff.mpr hleap)
    omega

theorem daysBeforeYear_le {a b : Int} (h : a ≤ b) : daysBeforeYear a ≤ daysBeforeYear b := by
  unfold daysBeforeYear
  dsimp only
  omega

-- ---------------------------------------------------------------------------
-- Day numbers
-- ---------------------------------------------------------------------------

/-- The day after has the number after. -/
theorem dayNumber_next (d : Date) : d.next.dayNumber = d.dayNumber + 1 := by
  have hday := d.day_bounds
  have hmonth := d.month_bounds
  unfold next
  split
  · unfold dayNumber
    dsimp only
    omega
  · next hlast =>
    have hend : d.day = daysInMonth d.year d.month := by omega
    split
    · have hsucc := daysBeforeMonth_succ d.year hmonth.1
      unfold dayNumber
      dsimp only
      omega
    · next hdecember =>
      have hmonth : d.month = 12 := by omega
      rw [hmonth] at hend
      have hdays : daysInMonth d.year 12 = 31 := rfl
      have hsucc := daysBeforeYear_succ d.year
      have hjanuary : daysBeforeMonth (d.year + 1) 1 = 0 := rfl
      unfold dayNumber
      dsimp only
      rw [hmonth, hjanuary]
      omega

/-- The day before has the number before. -/
theorem dayNumber_previous (d : Date) : d.previous.dayNumber = d.dayNumber - 1 := by
  have hday := d.day_bounds
  have hmonth := d.month_bounds
  unfold previous
  split
  · unfold dayNumber
    dsimp only
    omega
  · next hfirst =>
    split
    · next hlater =>
      have hsucc := @daysBeforeMonth_succ d.year (d.month - 1) (by omega)
      rw [Nat.sub_add_cancel hmonth.1] at hsucc
      have hpos := daysInMonth_pos d.year (d.month - 1)
      unfold dayNumber
      dsimp only
      omega
    · next hjanuary =>
      have hmonth : d.month = 1 := by omega
      have hsucc := daysBeforeYear_succ (d.year - 1)
      rw [Int.sub_add_cancel] at hsucc
      have hbefore : daysBeforeMonth d.year 1 = 0 := rfl
      unfold dayNumber
      dsimp only
      rw [hmonth, hbefore]
      omega

/-- The days of a year lie between the first of January and the next one. -/
theorem dayNumber_bounds (d : Date) :
    daysBeforeYear d.year ≤ d.dayNumber + 719162 ∧
      d.dayNumber + 719162 < daysBeforeYear (d.year + 1) := by
  have hday := d.day_bounds
  have hmonth := d.month_bounds
  have hend : daysBeforeMonth d.year d.month + daysInMonth d.year d.month ≤
      daysBeforeMonth d.year 13 := daysBeforeMonth_le d.year hmonth.1 (by omega)
  have hyear : daysBeforeMonth d.year 13 = daysBeforeMonth d.year 12 + 31 :=
    daysBeforeMonth_succ d.year (by decide)
  rw [daysBeforeYear_succ]
  unfold dayNumber
  omega

/-- No two dates have one number: a later year has larger numbers, and so has a later month. -/
theorem dayNumber_injective : Function.Injective dayNumber := by
  intro a b h
  have hyears : ∀ {c d : Date}, c.dayNumber = d.dayNumber → ¬ c.year < d.year := by
    intro c d hsame hlt
    have hle := daysBeforeYear_le (show c.year + 1 ≤ d.year by omega)
    have hc := c.dayNumber_bounds
    have hd := d.dayNumber_bounds
    omega
  have hyear : a.year = b.year := by
    have := hyears h
    have := hyears h.symm
    omega
  have hmonths : ∀ {c d : Date}, c.dayNumber = d.dayNumber → c.year = d.year →
      ¬ c.month < d.month := by
    intro c d hsame hyear hlt
    have hle := daysBeforeMonth_le d.year c.month_bounds.1 hlt
    have hc := c.day_bounds
    have hd := d.day_bounds
    unfold dayNumber at hsame
    rw [hyear] at hsame hc
    omega
  have hmonth : a.month = b.month := by
    have := hmonths h hyear
    have := hmonths h.symm hyear.symm
    omega
  have hday : a.day = b.day := by
    have ha := a.day_bounds
    have hb := b.day_bounds
    unfold dayNumber at h
    rw [hyear, hmonth] at h
    omega
  obtain ⟨year, month, day, _, _⟩ := a
  obtain ⟨year', month', day', _, _⟩ := b
  dsimp only at hyear hmonth hday
  subst hyear hmonth hday
  rfl

end Date

-- ---------------------------------------------------------------------------
-- Minutes
-- ---------------------------------------------------------------------------

namespace Instant

/-- The number of the minute that the instant lies in, where the first one of 1970 has number 0. -/
def minuteNumber (t : Instant) : Int :=
  t.date.dayNumber * 1440 + (t.hour * 60 + t.minute : Nat)

/-- The instant lies so many minutes after the other one, at the same place in its minute. -/
structure After (minutes : Int) (t s : Instant) : Prop where
  minute : t.minuteNumber = s.minuteNumber + minutes
  second : t.second = s.second
  nanos : t.nanos = s.nanos

/-- There is one such instant only. -/
theorem After.unique {minutes : Int} {s t u : Instant} (ht : After minutes t s)
    (hu : After minutes u s) : t = u := by
  have hminutes := ht.minute.trans hu.minute.symm
  have hsecond := ht.second.trans hu.second.symm
  have hnanos := ht.nanos.trans hu.nanos.symm
  obtain ⟨date, secondOfDay, nanos, hday, _⟩ := t
  obtain ⟨date', secondOfDay', nanos', hday', _⟩ := u
  unfold minuteNumber hour Instant.minute at hminutes
  unfold Instant.second at hsecond
  dsimp only at hminutes hsecond hnanos
  have hdate : date = date' := Date.dayNumber_injective (by omega)
  subst hdate hnanos
  obtain rfl : secondOfDay = secondOfDay' := by omega
  rfl

/-- An offset of less than a day is subtracted, across the ends of days, months and years. -/
theorem after_minusMinutes (t : Instant) {minutes : Int} (hmin : -1440 < minutes)
    (hmax : minutes < 1440) : After (-minutes) (t.minusMinutes minutes) t := by
  have hday := t.secondOfDay_lt
  refine ⟨?_, t.second_minusMinutes minutes, rfl⟩
  unfold minuteNumber hour Instant.minute minusMinutes
  dsimp only
  split
  · rw [Date.dayNumber_previous]
    omega
  · split
    · omega
    · rw [Date.dayNumber_next]
      omega

end Instant

end ClusterFilter
