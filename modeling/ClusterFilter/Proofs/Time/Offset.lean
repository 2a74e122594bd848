import ClusterFilter.Proofs.Time.Calendar
import ClusterFilter.Proofs.Time.Range

/-!
# ClusterFilter — one meaning in all notations

A date and a time of day in digits of the usual widths is read in two notations: by itself, and with
an offset behind it. A date in digits is read by itself and as a part of both. The readers share no
more than the runs of digits. One of them takes fixed widths, the other numbers of free width with
white space around them; one takes the years of four digits, the other far more of them.

Which numbers such a text has is said here without a reader (`Stamp.Writes`). Each reader gives the
instant with these numbers where the calendar has one, and none where it has not. So the notations
agree, and an offset counts from the instant that they agree on.

Main results:

* `readDateTime?_stamp`, `readOffsetDateTime?_stamp` — what the readers make of the numbers.
* `read?_stamp` — a text without an offset, and what an offset behind it adds.
* `readDate_notations_agree` — the notations of a date and of a date with a time of day.
-/

namespace ClusterFilter

open Text

-- ---------------------------------------------------------------------------
-- Stamps
-- ---------------------------------------------------------------------------

/-- A run of exactly `width` digits. -/
structure Text.IsRun (width : Nat) (cs : List Char) : Prop where
  length : cs.length = width
  digits : ∀ x ∈ cs, x.isDigit = true

instance (width : Nat) (cs : List Char) : Decidable (IsRun width cs) :=
  decidable_of_iff (cs.length = width ∧ cs.all Char.isDigit = true)
    ⟨fun h => ⟨h.1, List.all_eq_true.mp h.2⟩, fun h => ⟨h.1, List.all_eq_true.mpr h.2⟩⟩

/-- A date as `YYYY-MM-DD`, with the numbers in it. -/
inductive Date.Writes : (text : List Char) → (year month day : Nat) → Prop where
  | mk {y m d : List Char} : IsRun 4 y → IsRun 2 m → IsRun 2 d →
      Writes (y ++ '-' :: (m ++ '-' :: d)) (digitsValue y) (digitsValue m) (digitsValue d)

/-- A fraction of a second behind its point, of any length; or nothing, for none. -/
inductive Instant.WritesFraction : (text : List Char) → (nanos : Nat) → Prop where
  | absent : WritesFraction [] 0
  | given {fraction : List Char} : isNumeral fraction = true →
      WritesFraction ('.' :: fraction) (nanosValue fraction)

/-- The numbers of a date and of a time of day, whether the calendar has them or not. -/
structure Stamp where
  year : Nat
  month : Nat
  day : Nat
  hour : Nat
  minute : Nat
  second : Nat
  nanos : Nat

namespace Stamp

/-- A date and a time of day as `YYYY-MM-DDThh:mm:ss`, with or without a fraction. -/
inductive Writes : (text : List Char) → Stamp → Prop where
  | mk {date h m s fraction : List Char} {year month day nanos : Nat} :
      Date.Writes date year month day → IsRun 2 h → IsRun 2 m → IsRun 2 s →
      Instant.WritesFraction fraction nanos →
      Writes (date ++ 'T' :: (h ++ ':' :: (m ++ ':' :: (s ++ fraction))))
        ⟨year, month, day, digitsValue h, digitsValue m, digitsValue s, nanos⟩

/-- The instant with these numbers in UTC, if the calendar and the clock have them. -/
def instant? (stamp : Stamp) : Option Instant :=
  (Date.of? stamp.year stamp.month stamp.day).bind fun date =>
    Instant.of? date stamp.hour stamp.minute stamp.second stamp.nanos

end Stamp

-- ---------------------------------------------------------------------------
-- Runs of digits
-- ---------------------------------------------------------------------------

/-- A run is the numeral of its value, which is not too large for the width. -/
theorem Text.IsRun.exists_paddedDigits {width : Nat} {cs : List Char} (h : IsRun width cs)
    (hwidth : 0 < width) :
    ∃ n, n < Nat.pow 10 width ∧ digitsValue cs = n ∧ cs = paddedDigits width n := by
  obtain ⟨rfl, hdigits⟩ := h
  exact ⟨digitsValue cs, digitsValue_lt hdigits, rfl,
    (paddedDigits_digitsValue (List.length_pos_iff.mp hwidth) hdigits).symm⟩

namespace Instant

variable {rest : List Char}

theorem WritesFraction.take {fraction : List Char} {nanos : Nat} (h : WritesFraction fraction nanos)
    (hrest : ∀ x ∈ rest.head?, x.isDigit = false ∧ x ≠ '.') :
    takeFraction? (fraction ++ rest) = some (nanos, rest) ∧
      ∀ x ∈ (fraction ++ rest).head?, x.isDigit = false := by
  have hdigit : ∀ x ∈ rest.head?, x.isDigit = false := fun x hx => (hrest x hx).1
  cases h with
  | absent =>
    refine ⟨?_, hdigit⟩
    unfold takeFraction?
    split
    · next h =>
      rw [List.nil_append] at h
      exact absurd rfl (hrest '.' (h ▸ rfl)).2
    · rfl
  | given hnumeral => exact ⟨takeFraction?_given hnumeral hdigit, forall_mem_head?_cons rfl⟩

-- ---------------------------------------------------------------------------
-- The readers on stamps
-- ---------------------------------------------------------------------------

/-- A date in digits is taken off the front of the text, if the calendar has it. -/
theorem takeDate?_written {date : List Char} {year month day : Nat}
    (h : Date.Writes date year month day) (hrest : ∀ x ∈ rest.head?, x.isDigit = false) :
    takeDate? (date ++ rest) = (Date.of? year month day).map fun date => (date, rest) := by
  obtain ⟨hy, hm, hd⟩ := h
  obtain ⟨year, hyear, hvalueYear, rfl⟩ := hy.exists_paddedDigits (by decide)
  obtain ⟨month, hmonth, hvalueMonth, rfl⟩ := hm.exists_paddedDigits (by decide)
  obtain ⟨day, hday, hvalueDay, rfl⟩ := hd.exists_paddedDigits (by decide)
  have hyear : year < 10000 := hyear
  have hyears : 0 ≤ (year : Int) ∧ (year : Int) ≤ 9999 := by omega
  have hchars : (paddedDigits 4 year ++ '-' :: (paddedDigits 2 month ++ '-' ::
      paddedDigits 2 day)) ++ rest = Date.yearChars year ++ '-' :: (paddedDigits 2 month ++
        '-' :: (paddedDigits 2 day ++ rest)) := by
    rw [Date.yearChars, if_pos hyears, Int.toNat_natCast]
    simp only [List.append_assoc, List.cons_append]
  have hrange : yearBounds.1 ≤ (year : Int) ∧ (year : Int) ≤ yearBounds.2 := by
    unfold yearBounds
    dsimp only
    omega
  rw [hchars, takeDate?_numbers year hmonth hday hrest, if_pos hrange, hvalueYear, hvalueMonth,
    hvalueDay]

section

variable {text : List Char} {stamp : Stamp} (h : stamp.Writes text)
  (hrest : ∀ x ∈ rest.head?, x.isDigit = false ∧ x ≠ '.')

include h hrest

/-- The notation without an offset: the instant of the numbers, with nothing behind them. -/
theorem readDateTime?_stamp :
    readDateTime? (text ++ rest) = if rest = [] then stamp.instant? else none := by
  obtain ⟨hdate, hh, hm, hs, hf⟩ := h
  obtain ⟨hour, hhour, hvalueHour, rfl⟩ := hh.exists_paddedDigits (by decide)
  obtain ⟨minute, hminute, hvalueMinute, rfl⟩ := hm.exists_paddedDigits (by decide)
  obtain ⟨second, hsecond, hvalueSecond, rfl⟩ := hs.exists_paddedDigits (by decide)
  obtain ⟨hfraction, hhead⟩ := hf.take hrest
  simp only [List.append_assoc, List.cons_append]
  rw [readDateTime?_numbers hhour hminute hsecond hhead fun _ =>
      takeDate?_written hdate (forall_mem_head?_cons rfl), hfraction, hvalueHour, hvalueMinute,
    hvalueSecond, Stamp.instant?]
  simp only [Option.bind_some, List.isEmpty_iff]
  split
  · rfl
  · exact Option.bind_fun_none _

/-- The notation with an offset: the instant of the numbers, moved by the offset. -/
theorem readOffsetDateTime?_stamp :
    readOffsetDateTime? (text ++ rest) = (takeOffset? rest).bind fun (offset, behind) =>
      if behind = [] then stamp.instant?.map fun t => t.minusMinutes offset else none := by
  obtain ⟨⟨hy, hmo, hd⟩, hh, hm, hs, hf⟩ := h
  obtain ⟨year, hyear, hvalueYear, rfl⟩ := hy.exists_paddedDigits (by decide)
  obtain ⟨month, hmonth, hvalueMonth, rfl⟩ := hmo.exists_paddedDigits (by decide)
  obtain ⟨day, hday, hvalueDay, rfl⟩ := hd.exists_paddedDigits (by decide)
  obtain ⟨hour, hhour, hvalueHour, rfl⟩ := hh.exists_paddedDigits (by decide)
  obtain ⟨minute, hminute, hvalueMinute, rfl⟩ := hm.exists_paddedDigits (by decide)
  obtain ⟨second, hsecond, hvalueSecond, rfl⟩ := hs.exists_paddedDigits (by decide)
  obtain ⟨hfraction, -⟩ := hf.take hrest
  simp only [List.append_assoc, List.cons_append]
  rw [readOffsetDateTime?_numbers hyear hmonth hday hhour hminute hsecond, hfraction, hvalueYear,
    hvalueMonth, hvalueDay, hvalueHour, hvalueMinute, hvalueSecond, Stamp.instant?]
  simp only [Option.bind_some, Option.map_bind, List.isEmpty_iff]
  rfl

omit hrest in
/-- A time of day is no part of a date alone. -/
theorem readDate?_stamp : readDate? (text ++ rest) = none := by
  obtain ⟨hdate, -, -, -, -⟩ := h
  rw [List.append_assoc, List.cons_append]
  unfold readDate?
  rw [takeDate?_written hdate (forall_mem_head?_cons rfl)]
  cases Date.of? _ _ _ with
  | none => rfl
  | some date => rfl

/-- An offset that is all that stands behind the numbers counts from the instant of the numbers. -/
theorem read?_offset {offset : Int} (hoffset : takeOffset? rest = some (offset, [])) :
    read? (text ++ rest) = stamp.instant?.map fun t => t.minusMinutes offset := by
  have hne : rest ≠ [] := by
    rintro rfl
    cases hoffset
  rw [read?, readOffsetDateTime?_stamp h hrest, readDateTime?_stamp h hrest, readDate?_stamp h,
    hoffset, if_neg hne, Option.bind_some]
  cases stamp.instant? with
  | none => rfl
  | some t => rfl

omit hrest in
/-- Without an offset the numbers are those of the instant in UTC. -/
theorem read?_stamp : read? text = stamp.instant? := by
  have hnone : ∀ x ∈ ([] : List Char).head?, x.isDigit = false ∧ x ≠ '.' := nofun
  have hoffset := readOffsetDateTime?_stamp h hnone
  have hlocal := readDateTime?_stamp h hnone
  have hdate := @readDate?_stamp [] _ _ h
  rw [List.append_nil] at hoffset hlocal hdate
  rw [read?, hoffset, hlocal, hdate, if_pos rfl]
  cases stamp.instant? with
  | none => rfl
  | some t => rfl

end

-- ---------------------------------------------------------------------------
-- Offsets and dates alone
-- ---------------------------------------------------------------------------

/-- The hours and minutes of an offset with its sign, read as minutes. -/
theorem takeOffset?_signed {sign : Char} {negative : Bool} {h m : List Char} (hh : IsRun 2 h)
    (hm : IsRun 2 m) (hhours : digitsValue h ≤ 23) (hminutes : digitsValue m ≤ 59)
    (hsign : (sign = '+' ∧ negative = false) ∨ (sign = '-' ∧ negative = true)) :
    takeOffset? (sign :: (h ++ ':' :: m)) =
      some (if negative then -((digitsValue h * 60 + digitsValue m : Nat) : Int)
        else (digitsValue h * 60 + digitsValue m : Nat), []) := by
  obtain ⟨hour, hhour, hvalue, rfl⟩ := hh.exists_paddedDigits (by decide)
  obtain ⟨minute, hminute, hvalue', rfl⟩ := hm.exists_paddedDigits (by decide)
  rw [hvalue] at hhours ⊢
  rw [hvalue'] at hminutes ⊢
  have hbounds : hour < 24 ∧ minute < 60 := by omega
  rw [← List.append_nil (paddedDigits 2 minute)]
  rcases hsign with ⟨rfl, rfl⟩ | ⟨rfl, rfl⟩
  · refine (takeDigits?_bind (by decide) hhour _ _).trans ?_
    refine (expect?_bind ':' _ _).trans ?_
    refine (takeDigits?_bind (by decide) hminute _ _).trans ?_
    exact if_pos hbounds
  · refine (takeDigits?_bind (by decide) hhour _ _).trans ?_
    refine (expect?_bind ':' _ _).trans ?_
    refine (takeDigits?_bind (by decide) hminute _ _).trans ?_
    exact if_pos hbounds

/-- A date alone is its midnight. -/
theorem read?_date {date : List Char} {year month day : Nat}
    (h : Date.Writes date year month day) :
    read? date = (Date.of? year month day).map midnight := by
  have hend : ∀ x ∈ ([] : List Char).head?, x.isDigit = false := nofun
  have htake := takeDate?_written h hend
  rw [List.append_nil] at htake
  have hoffset : readOffsetDateTime? date = none := by
    obtain ⟨hy, hm, hd⟩ := h
    obtain ⟨year, hyear, -, rfl⟩ := hy.exists_paddedDigits (by decide)
    obtain ⟨month, hmonth, -, rfl⟩ := hm.exists_paddedDigits (by decide)
    obtain ⟨day, hday, -, rfl⟩ := hd.exists_paddedDigits (by decide)
    rw [← List.append_nil (paddedDigits 2 day)]
    refine (takeDigits?_bind (by decide) hyear _ _).trans ?_
    refine (expect?_bind '-' _ _).trans ?_
    refine (takeDigits?_bind (by decide) hmonth _ _).trans ?_
    refine (expect?_bind '-' _ _).trans ?_
    exact takeDigits?_bind (by decide) hday _ _
  have hlocal : readDateTime? date = none := by
    unfold readDateTime?
    rw [htake]
    cases Date.of? year month day with
    | none => rfl
    | some date => rfl
  have halone : readDate? date = (Date.of? year month day).map midnight := by
    unfold readDate?
    rw [htake]
    cases Date.of? year month day with
    | none => rfl
    | some date => rfl
  rw [read?, hoffset, hlocal, halone]
  rfl

theorem of?_zero (date : Date) : of? date 0 0 0 0 = some (midnight date) :=
  dif_pos (by decide)

/-- Midnight, written out behind a date. -/
theorem stamp_midnight {date : List Char} {year month day : Nat}
    (h : Date.Writes date year month day) :
    Stamp.Writes (date ++ "T00:00:00".toList) ⟨year, month, day, 0, 0, 0, 0⟩ := by
  have hzeros : IsRun 2 ['0', '0'] := by decide
  exact .mk h hzeros hzeros hzeros .absent

end Instant

-- ---------------------------------------------------------------------------
-- The notations
-- ---------------------------------------------------------------------------

namespace LiteralText

open Instant

theorem readDate_congr {cs ds : List Char} (h : read? cs = read? ds) :
    readDate cs = readDate ds := by
  rw [readDate, h, readDate]

section

variable {text offset : List Char} {stamp : Stamp} (h : stamp.Writes text)
  (hhead : ∀ x ∈ offset.head?, x.isDigit = false ∧ x ≠ '.')

include h hhead

/-- The offset of UTC itself changes nothing. -/
theorem readDate_utc (htake : takeOffset? offset = some (0, [])) :
    readDate (text ++ offset) = readDate text := by
  refine readDate_congr ((read?_offset h hhead htake).trans ?_)
  rw [read?_stamp h]
  simp only [minusMinutes_zero, Option.map_id']

/-- Any other offset leads to the one instant that lies so many minutes away. -/
theorem readDate_offset {minutes : Int} {t : Instant}
    (htake : takeOffset? offset = some (minutes, []))
    (hmin : -1440 < minutes) (hmax : minutes < 1440) (ht : readDate text = .ok t) :
    ∃ s, readDate (text ++ offset) = .ok s ∧ ∀ u : Instant, u.After (-minutes) t ↔ u = s := by
  have hstamp : stamp.instant? = some t := (read?_stamp h).symm.trans (readDate_eq_ok_iff.mp ht)
  have hread := read?_offset h hhead htake
  rw [hstamp, Option.map_some] at hread
  have hafter := after_minusMinutes t hmin hmax
  refine ⟨t.minusMinutes minutes, readDate_eq_ok_iff.mpr hread, fun u => ⟨?_, ?_⟩⟩
  · exact fun hu => hu.unique hafter
  · exact fun hu => hu ▸ hafter

end

/--
**One meaning in all notations.** A date and a time of day in digits name the instant with these
numbers, and none if the calendar or the clock has no such numbers. A `Z` or the offset `+00:00`
behind them changes nothing. Any other offset leads to the one instant that lies so many minutes
before this one, or after it where the offset has a minus, at the same second and fraction. A date
alone is its midnight.
-/
theorem readDate_notations_agree :
    (∀ (text : List Char) (stamp : Stamp), stamp.Writes text →
      readDate text = stamp.instant?.elim (.error .notADate) .ok ∧
      readDate (text ++ "Z".toList) = readDate text ∧
      readDate (text ++ "+00:00".toList) = readDate text ∧
      ∀ (t : Instant) (h m : List Char), readDate text = .ok t → IsRun 2 h → IsRun 2 m →
        digitsValue h ≤ 23 → digitsValue m ≤ 59 →
        (∃ s, readDate (text ++ '+' :: (h ++ ':' :: m)) = .ok s ∧
          ∀ u : Instant, u.After (-(digitsValue h * 60 + digitsValue m)) t ↔ u = s) ∧
        ∃ s, readDate (text ++ '-' :: (h ++ ':' :: m)) = .ok s ∧
          ∀ u : Instant, u.After (digitsValue h * 60 + digitsValue m) t ↔ u = s) ∧
    ∀ (date : List Char) (year month day : Nat), Date.Writes date year month day →
      readDate date = readDate (date ++ "T00:00:00".toList) := by
  refine ⟨fun text stamp hwrites => ⟨?_, ?_, ?_, ?_⟩, ?_⟩
  · rw [readDate, read?_stamp hwrites]
    cases stamp.instant? with
    | none => rfl
    | some t => rfl
  · exact readDate_utc hwrites (forall_mem_head?_cons ⟨rfl, by decide⟩) rfl
  · exact readDate_utc hwrites (forall_mem_head?_cons ⟨rfl, by decide⟩) rfl
  · intro t h m ht hh hm hhours hminutes
    have hplus : takeOffset? ('+' :: (h ++ ':' :: m)) =
        some (((digitsValue h * 60 + digitsValue m : Nat) : Int), []) :=
      takeOffset?_signed hh hm hhours hminutes (.inl ⟨rfl, rfl⟩)
    have hminus : takeOffset? ('-' :: (h ++ ':' :: m)) =
        some (-((digitsValue h * 60 + digitsValue m : Nat) : Int), []) :=
      takeOffset?_signed hh hm hhours hminutes (.inr ⟨rfl, rfl⟩)
    have hearlier := readDate_offset hwrites (forall_mem_head?_cons ⟨rfl, by decide⟩) hplus
      (by omega) (by omega) ht
    have hlater := readDate_offset hwrites (forall_mem_head?_cons ⟨rfl, by decide⟩) hminus
      (by omega) (by omega) ht
    rw [Int.neg_neg] at hlater
    exact ⟨hearlier, hlater⟩
  · intro date year month day hdate
    refine readDate_congr ?_
    rw [read?_date hdate, read?_stamp (stamp_midnight hdate), Stamp.instant?]
    cases Date.of? year month day with
    | none => rfl
    | some date => exact (of?_zero date).symm

/-- The leap second at the end of a year is one in the next year, too, an hour and a half to the
west. -/
theorem readDate_notations_agree_leapSecond :
    readDate "2016-12-31T23:59:60-01:30".toList =
      .ok ⟨⟨2017, 1, 1, by decide, by decide⟩, 5399, 1000000000, by decide, by decide⟩ ∧
    readDate "2016-12-31T23:59:60Z".toList = readDate "2016-12-31T23:59:60".toList ∧
    readDate "2016-12-31".toList = readDate "2016-12-31T00:00:00".toList := by
  have hdate : Date.Writes "2016-12-31".toList 2016 12 31 :=
    @Date.Writes.mk "2016".toList "12".toList "31".toList (by decide) (by decide) (by decide)
  have htext : Stamp.Writes "2016-12-31T23:59:60".toList ⟨2016, 12, 31, 23, 59, 60, 0⟩ :=
    @Stamp.Writes.mk _ "23".toList "59".toList "60".toList _ _ _ _ _ hdate (by decide) (by decide)
      (by decide) .absent
  obtain ⟨hstamps, hdates⟩ := readDate_notations_agree
  obtain ⟨hvalue, hz, -, hoffset⟩ := hstamps _ _ htext
  obtain ⟨-, s, hs, hafter⟩ := hoffset _ "01".toList "30".toList hvalue (by decide) (by decide)
    (by decide) (by decide)
  have hlater := (hafter ⟨⟨2017, 1, 1, by decide, by decide⟩, 5399, 1000000000, by decide,
    by decide⟩).mp ⟨by decide, rfl, rfl⟩
  exact ⟨hlater ▸ hs, hz, hdates _ _ _ _ hdate⟩

end LiteralText

end ClusterFilter
