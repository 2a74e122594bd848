import ClusterFilter.Proofs.Time.Notation

/-!
# ClusterFilter — which clock durations are read

A clock text is cut at points and colons. In a text that is put together of its parts, digits stand
between these, so it is cut back into the same parts; and what it is cut into makes the text again.

Main result:

* `readClock_eq_ok_iff` — a text is read exactly if it is of the notation.
-/

namespace ClusterFilter.Duration

open Text

variable {cs : List Char} {n : Nat}

-- ---------------------------------------------------------------------------
-- Days
-- ---------------------------------------------------------------------------

theorem drop_days (days clock : List Char) :
    (days ++ '.' :: clock).drop (days.length + 1) = clock := by
  rw [List.append_cons]
  exact List.drop_left' (by rw [List.length_append, List.length_singleton])

/-- What is split off is put in front again. -/
theorem splitDays_eq_some {days clock : List Char} (h : splitDays cs = (some days, clock)) :
    cs = days ++ '.' :: clock := by
  unfold splitDays at h
  split at h
  · next days' rest hsplit =>
    obtain ⟨hhead, -⟩ := splitFirst?_eq_some_iff.mp hsplit
    have hcs := List.takeWhile_append_dropWhile (p := (· != ':')) (l := cs)
    rw [hhead, List.append_assoc, List.cons_append] at hcs
    obtain ⟨hdays, hclock⟩ := Prod.mk.inj h
    obtain rfl := Option.some.inj hdays
    rw [← hcs, drop_days] at hclock
    rw [← hclock]
    exact hcs.symm
  · cases (Prod.mk.inj h).1

theorem splitDays_eq_none {clock : List Char} (h : splitDays cs = (none, clock)) : cs = clock := by
  unfold splitDays at h
  split at h
  · cases (Prod.mk.inj h).1
  · exact (Prod.mk.inj h).2

theorem splitDays_of_days {days clock : List Char} (h : isNumeral days = true) :
    splitDays (days ++ '.' :: clock) = (some days, clock) := by
  have hdays : ∀ x ∈ days, (x != ':') = true :=
    fun x hx => bne_iff_ne.mpr (ne_of_isNumeral rfl h x hx)
  have hhead : (days ++ '.' :: clock).takeWhile (· != ':') =
      days ++ '.' :: clock.takeWhile (· != ':') := by
    rw [List.takeWhile_append_of_pos hdays, List.takeWhile_cons_of_pos (by decide)]
  unfold splitDays
  rw [hhead, splitFirst?_eq_some_iff.mpr ⟨rfl, ne_of_isNumeral rfl h⟩]
  dsimp only
  rw [drop_days]

theorem splitDays_of_hours {hours rest : List Char} (h : isNumeral hours = true) :
    splitDays (hours ++ ':' :: rest) = (none, hours ++ ':' :: rest) := by
  have hhead : (hours ++ ':' :: rest).takeWhile (· != ':') = hours :=
    (takeWhile_append_of_head (fun x hx => bne_iff_ne.mpr (ne_of_isNumeral rfl h x hx))
      (forall_mem_head?_cons (by decide))).1
  unfold splitDays
  rw [hhead, splitFirst?_eq_none_iff.mpr (ne_of_isNumeral rfl h)]

/-- The days that are split off stand in front of the clock. -/
theorem daysPart_of_readDays {days? : Option (List Char)} {clock : List Char}
    (hsplit : splitDays cs = (days?, clock)) (h : readDays days? = .ok n) :
    ∃ text, cs = text ++ clock ∧ DaysPart text n := by
  cases days? with
  | none =>
    obtain rfl := Except.ok.inj h
    exact ⟨[], splitDays_eq_none hsplit, .absent⟩
  | some days =>
    obtain ⟨hnumeral, rfl, -⟩ := readNumber_eq_ok_iff.mp h
    refine ⟨days ++ ['.'], ?_, .given hnumeral⟩
    rw [← List.append_cons]
    exact splitDays_eq_some hsplit

theorem DaysPart.readDays_eq {text hours rest : List Char} {days : Nat} (h : DaysPart text days)
    (hlt : days < 1 <<< 127) (hhours : isNumeral hours = true) :
    ∃ days?, splitDays (text ++ (hours ++ ':' :: rest)) = (days?, hours ++ ':' :: rest) ∧
      readDays days? = .ok days := by
  cases h with
  | absent => exact ⟨none, splitDays_of_hours hhours, rfl⟩
  | @given number hnumeral =>
    rw [← List.append_cons]
    exact ⟨some number, splitDays_of_days hnumeral, readNumber_eq_ok_iff.mpr ⟨hnumeral, rfl, hlt⟩⟩

-- ---------------------------------------------------------------------------
-- The whole text
-- ---------------------------------------------------------------------------

theorem readSeconds_eq_ok_iff {s nanos : Nat} :
    readSeconds cs = .ok (s, nanos) ↔ Seconds cs s nanos ∧ s ≤ 59 := by
  unfold readSeconds
  constructor
  · intro h
    split at h
    · next whole fraction hsplit =>
      obtain ⟨rfl, -⟩ := splitFirst?_eq_some_iff.mp hsplit
      obtain ⟨_, hread, h⟩ := bind_eq_ok.mp h
      obtain ⟨hwhole, rfl, hle⟩ := (readBounded_eq_ok_iff (by decide)).mp hread
      obtain ⟨_, hfraction, h⟩ := bind_eq_ok.mp h
      obtain ⟨hnumeral, hlength, rfl⟩ := readFraction_eq_ok_iff.mp hfraction
      obtain ⟨rfl, rfl⟩ := Prod.mk.inj (Except.ok.inj h)
      exact ⟨.fractional hwhole hnumeral hlength, hle⟩
    · obtain ⟨_, hread, h⟩ := bind_eq_ok.mp h
      obtain ⟨hnumeral, rfl, hle⟩ := (readBounded_eq_ok_iff (by decide)).mp hread
      obtain ⟨rfl, rfl⟩ := Prod.mk.inj (Except.ok.inj h)
      exact ⟨.whole hnumeral, hle⟩
  · rintro ⟨hseconds, hle⟩
    cases hseconds with
    | whole hnumeral =>
      have hread : readBounded "seconds" 59 cs = .ok (digitsValue cs) :=
        (readBounded_eq_ok_iff (by decide)).mpr ⟨hnumeral, rfl, hle⟩
      rw [splitFirst?_eq_none_iff.mpr (ne_of_isNumeral rfl hnumeral)]
      exact bind_eq_ok.mpr ⟨_, hread, rfl⟩
    | @fractional number fraction hwhole hnumeral hlength =>
      have hread : readBounded "seconds" 59 number = .ok (digitsValue number) :=
        (readBounded_eq_ok_iff (by decide)).mpr ⟨hwhole, rfl, hle⟩
      have hfraction := readFraction_eq_ok_iff.mpr ⟨hnumeral, hlength, rfl⟩
      rw [splitFirst?_eq_some_iff.mpr ⟨rfl, ne_of_isNumeral rfl hwhole⟩]
      exact bind_eq_ok.mpr ⟨_, hread, bind_eq_ok.mpr ⟨_, hfraction, rfl⟩⟩

/-- The sum of a clock, hours and minutes first. -/
theorem totalNanos_clock (days hours minutes seconds nanos : Nat) :
    totalNanos days (3600 * hours + 60 * minutes + seconds) nanos =
      days * 86400000000000 + ((hours * 3600 + minutes * 60 + seconds) * 1000000000 + nanos) := by
  rw [totalNanos_eq, Nat.mul_comm 3600, Nat.mul_comm 60]

theorem clock_of_readClock (h : readClock cs = .ok n) : Clock cs n ∧ n < 1 <<< 127 := by
  unfold readClock at h
  rcases hsplit : splitDays cs with ⟨days?, clock⟩
  rw [hsplit] at h
  obtain ⟨days, hdays, h⟩ := bind_eq_ok.mp h
  obtain ⟨d, rfl, hd⟩ := daysPart_of_readDays hsplit hdays
  split at h
  · next hours minutes seconds hparts =>
    -- the three parts make the clock again
    obtain ⟨_, rfl, -, hparts⟩ := splitAll_eq_cons_iff.mp hparts
    obtain ⟨_, rfl, -, hparts⟩ := splitAll_eq_cons_iff.mp hparts
    obtain ⟨rfl, -⟩ := splitAll_eq_singleton_iff.mp hparts
    obtain ⟨_, hread, h⟩ := bind_eq_ok.mp h
    obtain ⟨hhours, rfl, hhoursLe⟩ := (readBounded_eq_ok_iff (by decide)).mp hread
    obtain ⟨_, hread, h⟩ := bind_eq_ok.mp h
    obtain ⟨hminutes, rfl, hminutesLe⟩ := (readBounded_eq_ok_iff (by decide)).mp hread
    obtain ⟨⟨s, nanos⟩, hread, h⟩ := bind_eq_ok.mp h
    obtain ⟨hseconds, hsecondsLe⟩ := readSeconds_eq_ok_iff.mp hread
    obtain ⟨_, hchecked, h⟩ := bind_eq_ok.mp h
    obtain ⟨rfl, -⟩ := checked_eq_ok_iff.mp hchecked
    obtain ⟨rfl, hn⟩ := checked_eq_ok_iff.mp h
    have hclock := Clock.mk hd hhours hhoursLe hminutes hminutesLe hseconds hsecondsLe
    rw [totalNanos_clock] at hclock
    exact ⟨hclock, hn⟩
  · cases h

theorem Clock.readClock_eq (h : Clock cs n) (hn : n < 1 <<< 127) : readClock cs = .ok n := by
  cases h with
  | @mk d h m s days seconds nanos hd hhours hhoursLe hminutes hminutesLe hseconds hsecondsLe =>
    rw [totalNanos_clock] at hn ⊢
    have hdays : days * 86400000000000 < 1 <<< 127 :=
      Nat.lt_of_le_of_lt (Nat.le_add_right _ _) hn
    have hlt : days < 1 <<< 127 :=
      Nat.lt_of_le_of_lt (Nat.le_mul_of_pos_right _ (by decide)) hdays
    obtain ⟨days?, hsplit, hreadDays⟩ := hd.readDays_eq hlt hhours
    have hparts : splitAll ':' (h ++ ':' :: (m ++ ':' :: s)) = [h, m, s] :=
      splitAll_eq_cons_iff.mpr ⟨_, rfl, ne_of_isNumeral rfl hhours,
        splitAll_eq_cons_iff.mpr ⟨_, rfl, ne_of_isNumeral rfl hminutes,
          splitAll_eq_singleton_iff.mpr ⟨rfl, hseconds.ne_colon⟩⟩⟩
    have hreadHours : readBounded "hours" 23 h = .ok (digitsValue h) :=
      (readBounded_eq_ok_iff (by decide)).mpr ⟨hhours, rfl, hhoursLe⟩
    have hreadMinutes : readBounded "minutes" 59 m = .ok (digitsValue m) :=
      (readBounded_eq_ok_iff (by decide)).mpr ⟨hminutes, rfl, hminutesLe⟩
    have hreadSeconds := readSeconds_eq_ok_iff.mpr ⟨hseconds, hsecondsLe⟩
    unfold readClock
    rw [hsplit]
    refine bind_eq_ok.mpr ⟨days, hreadDays, ?_⟩
    rw [hparts]
    exact bind_eq_ok.mpr ⟨_, hreadHours, bind_eq_ok.mpr ⟨_, hreadMinutes, bind_eq_ok.mpr
      ⟨_, hreadSeconds, bind_eq_ok.mpr ⟨_, checked_of_lt hdays, checked_of_lt hn⟩⟩⟩⟩

/-- A clock is read as far as it is not too large. -/
theorem readClock_eq_ok_iff : readClock cs = .ok n ↔ Clock cs n ∧ n < 1 <<< 127 :=
  ⟨clock_of_readClock, fun ⟨h, hn⟩ => h.readClock_eq hn⟩

/-- No sum of a clock is left without a check. -/
theorem readClock_ne_overflow : readClock cs ≠ .error .overflow := by
  have hdays : ∀ days?, readDays days? ≠ .error .overflow := by
    rintro (_ | days)
    · nofun
    · exact readNumber_ne_overflow
  have hseconds : ∀ text, readSeconds text ≠ .error .overflow := by
    intro text
    unfold readSeconds
    split
    · exact bind_ne_overflow readBounded_ne_overflow fun _ =>
        bind_ne_overflow readFraction_ne_overflow fun _ => nofun
    · exact bind_ne_overflow readBounded_ne_overflow fun _ => nofun
  unfold readClock
  refine bind_ne_overflow (hdays _) fun days => ?_
  split
  · exact bind_ne_overflow readBounded_ne_overflow fun _ =>
      bind_ne_overflow readBounded_ne_overflow fun _ => bind_ne_overflow (hseconds _) fun _ =>
        bind_ne_overflow checked_ne_overflow fun _ => checked_ne_overflow
  · nofun

end ClusterFilter.Duration
