import ClusterFilter.Proofs.Time.Notation

/-!
# ClusterFilter — the normal text of a duration

Many texts denote the same duration. One of them is written, and which one is said here without the
writer (`Normal`): capital letters, days and the parts of a day, no part of zero and no zeros in
front of a number or at the end of a fraction, and hours, minutes and seconds that do not make up a
larger unit. The seconds are the exception, for there have to be some where nothing else is.

A text of this kind can be told from its numbers, and the numbers from their sum. So it is the only
one that denotes the sum.

Main results:

* `Normal.denotes` — the normal texts are of the notation, with the same lengths.
* `normal_iff` — the normal text of a duration is the text that is written.
-/

namespace ClusterFilter.Duration

open Text

-- ---------------------------------------------------------------------------
-- Normal texts
-- ---------------------------------------------------------------------------

/-- A number before its letter where it is not zero, and nothing where it is. -/
inductive NormalPart (letter : Char) : (text : List Char) → (count : Nat) → Prop where
  | absent : NormalPart letter [] 0
  | given {n : Nat} : 0 < n → NormalPart letter (digits n ++ [letter]) n

/-- The seconds, with a fraction that does not end in zeros if they are not whole. Zero seconds are
written where they are `alone`. -/
inductive NormalSeconds (alone : Prop) : (text : List Char) → (seconds nanos : Nat) → Prop where
  | absent : ¬ alone → NormalSeconds alone [] 0 0
  | whole {n : Nat} : 0 < n ∨ alone → NormalSeconds alone (digits n ++ ['S']) n 0
  | fractional {n : Nat} {fraction : List Char} : isNumeral fraction = true →
      fraction.length ≤ 9 → fraction.getLast? ≠ some '0' →
      NormalSeconds alone (digits n ++ '.' :: fraction ++ ['S']) n
        (digitsValue fraction * Nat.pow 10 (9 - fraction.length))

/-- Days, or days and the parts of a day, of which there is at least one. -/
inductive NormalMagnitude : (text : List Char) → (nanos : Nat) → Prop where
  | days {n : Nat} : 0 < n → NormalMagnitude ('P' :: (digits n ++ ['D'])) (totalNanos n 0 0)
  | clock {d h m s : List Char} {days hours minutes seconds nanos : Nat} :
      NormalPart 'D' d days → NormalPart 'H' h hours → NormalPart 'M' m minutes →
      NormalSeconds (d = [] ∧ h = [] ∧ m = []) s seconds nanos →
      hours < 24 → minutes < 60 → seconds < 60 → h ++ m ++ s ≠ [] →
      NormalMagnitude ('P' :: (d ++ 'T' :: (h ++ m ++ s)))
        (totalNanos days (3600 * hours + 60 * minutes + seconds) nanos)

/-- A normal text, with a minus sign before what is not zero. -/
inductive Normal : (text : List Char) → (nanos : Int) → Prop where
  | plain {text : List Char} {nanos : Nat} : NormalMagnitude text nanos → Normal text nanos
  | negated {text : List Char} {nanos : Nat} : NormalMagnitude text nanos → 0 < nanos →
      Normal ('-' :: text) (-nanos)

-- ---------------------------------------------------------------------------
-- Normal texts are of the notation
-- ---------------------------------------------------------------------------

section

variable {text : List Char} {n : Nat}

theorem NormalPart.part {letter : Char} (h : NormalPart letter text n) : Part letter text n := by
  cases h with
  | absent => exact .absent
  | given _ =>
    have hpart : Part letter (digits n ++ [letter]) (digitsValue (digits n)) :=
      .given (isNumeral_digits n) (.inl rfl)
    rwa [digitsValue_digits] at hpart

theorem NormalSeconds.part {alone : Prop} {seconds nanos : Nat}
    (h : NormalSeconds alone text seconds nanos) : SecondsPart text seconds nanos := by
  cases h with
  | absent _ => exact .absent
  | whole _ =>
    have hnumber := Seconds.whole (isNumeral_digits seconds)
    rw [digitsValue_digits] at hnumber
    exact .given hnumber (.inl rfl)
  | fractional hfraction hlength _ =>
    have hnumber := Seconds.fractional (isNumeral_digits seconds) hfraction hlength
    rw [digitsValue_digits] at hnumber
    exact .given hnumber (.inl rfl)

theorem NormalPart.dateText {days : Nat} (h : NormalPart 'D' text days) : DateText text days := by
  have hdate := DateText.mk .absent .absent .absent h.part
  rwa [show 365 * 0 + 30 * 0 + 7 * 0 + days = days by omega] at hdate

theorem NormalMagnitude.iso (h : NormalMagnitude text n) : Iso text n := by
  cases h with
  | days hpos =>
    exact .date (.inl rfl) (NormalPart.given hpos).dateText
      (List.append_ne_nil_of_right_ne_nil _ (List.cons_ne_nil _ _))
  | clock hd hh hm hs _ _ _ hne =>
    exact .dateAndTime (.inl rfl) (.inl rfl) hd.dateText (.mk hh.part hm.part hs.part) hne

/-- A normal text denotes its duration. -/
theorem Normal.denotes {nanos : Int} (h : Normal text nanos) : Denotes text nanos := by
  cases h with
  | plain hmagnitude => exact .plain (.iso hmagnitude.iso)
  | negated hmagnitude _ => exact .negated (.iso hmagnitude.iso)

end

-- ---------------------------------------------------------------------------
-- Fractions
-- ---------------------------------------------------------------------------

/-- The fraction is the numeral of nine digits without the zeros at its end. -/
theorem fractionChars_append (nanos : Nat) :
    ∃ zeros, paddedDigits 9 nanos = fractionChars nanos ++ List.replicate zeros '0' := by
  have hsplit : (paddedDigits 9 nanos).reverse.takeWhile (· == '0') ++
      (paddedDigits 9 nanos).reverse.dropWhile (· == '0') = (paddedDigits 9 nanos).reverse :=
    List.takeWhile_append_dropWhile
  have hzeros : ∀ x ∈ ((paddedDigits 9 nanos).reverse.takeWhile (· == '0')).reverse, x = '0' :=
    fun x hx => eq_of_beq (List.mem_takeWhile_imp (p := (· == '0')) (List.mem_reverse.mp hx))
  have hreverse := congrArg List.reverse hsplit
  rw [List.reverse_append, List.reverse_reverse, List.eq_replicate_of_mem hzeros] at hreverse
  exact ⟨_, hreverse.symm⟩

theorem isDigit_of_mem_fractionChars {nanos : Nat} {x : Char} (h : x ∈ fractionChars nanos) :
    x.isDigit = true := by
  obtain ⟨zeros, hzeros⟩ := fractionChars_append nanos
  apply isDigit_of_mem_paddedDigits
  rw [hzeros]
  exact List.mem_append_left _ h

/-- A fraction that is written has the value of the nanoseconds. -/
theorem fractionChars_value {nanos : Nat} (hpos : 0 < nanos) (hlt : nanos < 1000000000) :
    isNumeral (fractionChars nanos) = true ∧ (fractionChars nanos).length ≤ 9 ∧
      digitsValue (fractionChars nanos) * Nat.pow 10 (9 - (fractionChars nanos).length) =
        nanos := by
  obtain ⟨zeros, h⟩ := fractionChars_append nanos
  have hlength : (fractionChars nanos).length + zeros = 9 := by
    have := length_paddedDigits (show 0 < 9 by decide) hlt
    rwa [h, List.length_append, List.length_replicate] at this
  have hvalue : digitsValue (fractionChars nanos) * Nat.pow 10 zeros = nanos := by
    have := digitsValue_paddedDigits 9 nanos
    rw [h, digitsValue, Nat.ofDigitChars_append, Nat.ofDigitChars_replicate_zero] at this
    rwa [Nat.mul_comm]
  have hne : fractionChars nanos ≠ [] := by
    intro hnil
    rw [hnil, show digitsValue [] = 0 from rfl, Nat.zero_mul] at hvalue
    omega
  refine ⟨isNumeral_iff.mpr ⟨hne, fun _ => isDigit_of_mem_fractionChars⟩, by omega, ?_⟩
  rwa [show 9 - (fractionChars nanos).length = zeros by omega]

/-- No zero is written at the end. -/
theorem getLast?_fractionChars (nanos : Nat) : (fractionChars nanos).getLast? ≠ some '0' := by
  rw [fractionChars, List.getLast?_reverse]
  intro hzero
  have hkept := head?_dropWhile_eq_false '0' hzero
  cases hkept

/-- A fraction that does not end in a zero is the one that is written for its value. -/
theorem eq_fractionChars {fraction : List Char} (hfraction : isNumeral fraction = true)
    (hlength : fraction.length ≤ 9) (hlast : fraction.getLast? ≠ some '0') :
    fraction = fractionChars (digitsValue fraction * Nat.pow 10 (9 - fraction.length)) := by
  obtain ⟨hne, hdigits⟩ := isNumeral_iff.mp hfraction
  generalize hzeros : 9 - fraction.length = zeros
  have hvalue : digitsValue (fraction ++ List.replicate zeros '0') =
      digitsValue fraction * Nat.pow 10 zeros := by
    rw [digitsValue, Nat.ofDigitChars_append, Nat.ofDigitChars_replicate_zero, Nat.mul_comm]
    rfl
  have hpadded : paddedDigits 9 (digitsValue fraction * Nat.pow 10 zeros) =
      fraction ++ List.replicate zeros '0' := by
    have hwidth : (fraction ++ List.replicate zeros '0').length = 9 := by
      rw [List.length_append, List.length_replicate]
      omega
    rw [← hvalue, ← hwidth]
    refine paddedDigits_digitsValue (List.append_ne_nil_of_left_ne_nil hne _) ?_
    refine List.forall_mem_append.mpr ⟨hdigits, fun x hx => ?_⟩
    rw [(List.mem_replicate.mp hx).2]
    rfl
  have hkept : (List.replicate zeros '0' ++ fraction.reverse).dropWhile (· == '0') =
      fraction.reverse := by
    refine (takeWhile_append_of_head (fun x hx => ?_) fun x hx => ?_).2
    · rw [(List.mem_replicate.mp hx).2]
      rfl
    · rw [List.head?_reverse] at hx
      exact beq_false_of_ne fun hzero => hlast (hzero ▸ hx)
  rw [fractionChars, hpadded, List.reverse_append, List.reverse_replicate, hkept,
    List.reverse_reverse]

/-- A fraction that does not end in a zero is not zero. -/
theorem fraction_pos {fraction : List Char} (hfraction : isNumeral fraction = true)
    (hlength : fraction.length ≤ 9) (hlast : fraction.getLast? ≠ some '0') :
    0 < digitsValue fraction * Nat.pow 10 (9 - fraction.length) := by
  refine Nat.pos_of_ne_zero fun hzero => (isNumeral_iff.mp hfraction).1 ?_
  rw [eq_fractionChars hfraction hlength hlast, hzero]
  rfl

-- ---------------------------------------------------------------------------
-- Parts
-- ---------------------------------------------------------------------------

theorem normalPart_iff {letter : Char} {text : List Char} {n : Nat} :
    NormalPart letter text n ↔ text = partChars n letter := by
  unfold partChars
  constructor
  · intro h
    cases h with
    | absent => rfl
    | given hpos => rw [if_neg (Nat.ne_of_gt hpos)]
  · rintro rfl
    split
    · next hzero => exact hzero ▸ .absent
    · next hne => exact .given (Nat.pos_of_ne_zero hne)

theorem partChars_eq_nil_iff {n : Nat} {unit : Char} : partChars n unit = [] ↔ n = 0 := by
  unfold partChars
  split
  · next hzero => exact ⟨fun _ => hzero, fun _ => rfl⟩
  · next hne =>
    refine ⟨fun hnil => ?_, fun hzero => absurd hzero hne⟩
    cases (List.append_eq_nil_iff.mp hnil).2

theorem normalSeconds_iff {alone : Prop} [Decidable alone] {text : List Char}
    {seconds nanos : Nat} (hnanos : nanos < 1000000000) :
    NormalSeconds alone text seconds nanos ↔ text = secondsChars alone seconds nanos := by
  unfold secondsChars
  simp only [decide_eq_true_eq]
  constructor
  · intro h
    cases h with
    | absent halone => rw [if_neg (Decidable.not_not.mpr rfl), if_neg (not_or.mpr ⟨nofun, halone⟩)]
    | whole hwritten =>
      rw [if_neg (Decidable.not_not.mpr rfl), if_pos (hwritten.imp_left Nat.ne_of_gt)]
    | fractional hfraction hlength hlast =>
      rw [if_pos (Nat.ne_of_gt (fraction_pos hfraction hlength hlast)),
        ← eq_fractionChars hfraction hlength hlast]
  · rintro rfl
    split
    · next hne =>
      obtain ⟨hfraction, hlength, hvalue⟩ := fractionChars_value (Nat.pos_of_ne_zero hne) hnanos
      have hseconds := @NormalSeconds.fractional alone seconds _ hfraction hlength
        (getLast?_fractionChars nanos)
      rwa [hvalue] at hseconds
    · next hzero =>
      obtain rfl := Decidable.not_not.mp hzero
      split
      · next hwritten => exact .whole (hwritten.imp_left Nat.pos_of_ne_zero)
      · next hnone =>
        obtain ⟨hseconds, halone⟩ := not_or.mp hnone
        obtain rfl := Decidable.not_not.mp hseconds
        exact .absent halone

/-- Where there are any seconds, it does not matter whether they are required. -/
theorem secondsChars_congr {required required' : Bool} {seconds nanos : Nat}
    (h : (required = true ↔ required' = true) ∨ seconds ≠ 0 ∨ nanos ≠ 0) :
    secondsChars required seconds nanos = secondsChars required' seconds nanos := by
  rcases h with hsame | hne | hne
  · rw [Bool.eq_iff_iff.mpr hsame]
  · unfold secondsChars
    split
    · rfl
    · rw [if_pos (.inl hne), if_pos (.inl hne)]
  · unfold secondsChars
    rw [if_pos hne, if_pos hne]

theorem secondsChars_eq_nil_iff {required : Bool} {seconds nanos : Nat} :
    secondsChars required seconds nanos = [] ↔ required = false ∧ seconds = 0 ∧ nanos = 0 := by
  unfold secondsChars
  split
  · next hne => simp [hne]
  · next hzero =>
    obtain rfl := Decidable.not_not.mp hzero
    cases required <;> simp

-- ---------------------------------------------------------------------------
-- Magnitudes
-- ---------------------------------------------------------------------------

/-- The text of a magnitude by its numbers. -/
def magnitudeChars (days hours minutes seconds nanos : Nat) : List Char :=
  'P' :: (partChars days 'D' ++
    if hours = 0 ∧ minutes = 0 ∧ seconds = 0 ∧ nanos = 0 ∧ days ≠ 0 then []
    else 'T' :: (partChars hours 'H' ++ partChars minutes 'M' ++
      secondsChars (hours = 0 ∧ minutes = 0) seconds nanos))

section

variable {text : List Char} {n : Nat}

theorem magnitudeChars_of_normal (h : NormalMagnitude text n) :
    ∃ days hours minutes seconds nanos, hours < 24 ∧ minutes < 60 ∧ seconds < 60 ∧
      nanos < 1000000000 ∧ n = totalNanos days (3600 * hours + 60 * minutes + seconds) nanos ∧
      text = magnitudeChars days hours minutes seconds nanos := by
  cases h with
  | @days n hpos =>
    refine ⟨n, 0, 0, 0, 0, by decide, by decide, by decide, by decide, rfl, ?_⟩
    rw [magnitudeChars, if_pos ⟨rfl, rfl, rfl, rfl, Nat.ne_of_gt hpos⟩, List.append_nil,
      ← normalPart_iff.mp (.given hpos)]
  | @clock d h m s days hours minutes seconds nanos hd hh hm hs hhours hminutes hseconds hne =>
    have hnanos : nanos < 1000000000 := by
      cases hs with
      | absent _ => decide
      | whole _ => decide
      | fractional hfraction hlength => exact fraction_lt hfraction hlength
    rw [normalPart_iff] at hd hh hm
    subst hd hh hm
    simp only [partChars_eq_nil_iff] at hs
    rw [normalSeconds_iff hnanos] at hs
    subst hs
    refine ⟨days, hours, minutes, seconds, nanos, hhours, hminutes, hseconds, hnanos, rfl, ?_⟩
    -- what stands behind the `T` keeps the time from being zero beside days
    have htime : ¬ (hours = 0 ∧ minutes = 0 ∧ seconds = 0 ∧ nanos = 0 ∧ days ≠ 0) := by
      rintro ⟨rfl, rfl, rfl, rfl, hdays⟩
      refine hne ?_
      rw [partChars_eq_nil_iff.mpr rfl, partChars_eq_nil_iff.mpr rfl, List.append_nil,
        List.nil_append, secondsChars_eq_nil_iff]
      exact ⟨decide_eq_false fun hzero => hdays hzero.1, rfl, rfl⟩
    have hrequired : secondsChars (decide (days = 0 ∧ hours = 0 ∧ minutes = 0)) seconds nanos =
        secondsChars (decide (hours = 0 ∧ minutes = 0)) seconds nanos := by
      refine secondsChars_congr ?_
      simp only [decide_eq_true_eq]
      omega
    rw [magnitudeChars, if_neg htime, hrequired]

theorem normalMagnitude_magnitudeChars {days hours minutes seconds nanos : Nat}
    (hhours : hours < 24) (hminutes : minutes < 60) (hseconds : seconds < 60)
    (hnanos : nanos < 1000000000) :
    NormalMagnitude (magnitudeChars days hours minutes seconds nanos)
      (totalNanos days (3600 * hours + 60 * minutes + seconds) nanos) := by
  unfold magnitudeChars
  split
  · next hwhole =>
    obtain ⟨rfl, rfl, rfl, rfl, hdays⟩ := hwhole
    have hpos := Nat.pos_of_ne_zero hdays
    rw [List.append_nil, ← normalPart_iff.mp (.given hpos)]
    exact .days hpos
  · next htime =>
    refine .clock (normalPart_iff.mpr rfl) (normalPart_iff.mpr rfl) (normalPart_iff.mpr rfl) ?_
      hhours hminutes hseconds ?_
    · simp only [partChars_eq_nil_iff]
      rw [normalSeconds_iff hnanos]
      refine secondsChars_congr ?_
      simp only [decide_eq_true_eq]
      omega
    · intro hnil
      obtain ⟨hfirst, hlast⟩ := List.append_eq_nil_iff.mp hnil
      obtain ⟨hzeroHours, hzeroMinutes⟩ := List.append_eq_nil_iff.mp hfirst
      rw [partChars_eq_nil_iff] at hzeroHours hzeroMinutes
      rw [secondsChars_eq_nil_iff, decide_eq_false_iff_not] at hlast
      exact hlast.1 ⟨hzeroHours, hzeroMinutes⟩

end

-- ---------------------------------------------------------------------------
-- Durations
-- ---------------------------------------------------------------------------

/-- The text of a duration by the numbers that make it up. -/
theorem chars_eq_magnitudeChars {d : Duration} {days hours minutes seconds nanos : Nat}
    (hhours : hours < 24) (hminutes : minutes < 60) (hseconds : seconds < 60)
    (hnanos : nanos < 1000000000)
    (h : d.nanos.natAbs = totalNanos days (3600 * hours + 60 * minutes + seconds) nanos) :
    d.chars = (if d.nanos < 0 then ['-'] else []) ++
      magnitudeChars days hours minutes seconds nanos := by
  unfold totalNanos at h
  have htotal : d.nanos.natAbs / 1000000000 =
      86400 * days + (3600 * hours + 60 * minutes + seconds) := by omega
  have hrest : d.nanos.natAbs % 1000000000 = nanos := by omega
  have hclock : (86400 * days + (3600 * hours + 60 * minutes + seconds)) % 86400 =
      3600 * hours + 60 * minutes + seconds := by omega
  unfold chars magnitudeChars
  dsimp only
  rw [htotal, hrest, hclock,
    show (86400 * days + (3600 * hours + 60 * minutes + seconds)) / 86400 = days by omega,
    show (3600 * hours + 60 * minutes + seconds) / 3600 = hours by omega,
    show (3600 * hours + 60 * minutes + seconds) / 60 % 60 = minutes by omega,
    show (3600 * hours + 60 * minutes + seconds) % 60 = seconds by omega,
    List.append_assoc, List.cons_append]
  have hwhole : (3600 * hours + 60 * minutes + seconds = 0 ∧ nanos = 0 ∧ days ≠ 0) ↔
      (hours = 0 ∧ minutes = 0 ∧ seconds = 0 ∧ nanos = 0 ∧ days ≠ 0) := by omega
  simp only [hwhole, List.cons_append]

/-- Every duration has a normal text, and it is the text that is written. -/
theorem normal_iff {text : List Char} {d : Duration} : Normal text d.nanos ↔ text = d.chars := by
  constructor
  · intro h
    generalize hnanos : d.nanos = n at h
    cases h with
    | @plain _ n hmagnitude =>
      obtain ⟨days, hours, minutes, seconds, nanos, hh, hm, hs, hn, hsum, rfl⟩ :=
        magnitudeChars_of_normal hmagnitude
      have habs : d.nanos.natAbs = _ := (congrArg Int.natAbs hnanos).trans hsum
      rw [chars_eq_magnitudeChars hh hm hs hn habs, if_neg (by omega), List.nil_append]
    | @negated _ n hmagnitude hpos =>
      obtain ⟨days, hours, minutes, seconds, nanos, hh, hm, hs, hn, hsum, rfl⟩ :=
        magnitudeChars_of_normal hmagnitude
      have habs : d.nanos.natAbs = n := by omega
      rw [chars_eq_magnitudeChars hh hm hs hn (habs.trans hsum), if_pos (by omega)]
      rfl
  · rintro rfl
    have hsum : d.nanos.natAbs = totalNanos (d.nanos.natAbs / 86400000000000)
        (3600 * (d.nanos.natAbs / 3600000000000 % 24) + 60 * (d.nanos.natAbs / 60000000000 % 60) +
          d.nanos.natAbs / 1000000000 % 60) (d.nanos.natAbs % 1000000000) := by
      unfold totalNanos
      omega
    have hmagnitude := @normalMagnitude_magnitudeChars (d.nanos.natAbs / 86400000000000) _ _ _ _
      (Nat.mod_lt (d.nanos.natAbs / 3600000000000) (show 24 > 0 by decide))
      (Nat.mod_lt (d.nanos.natAbs / 60000000000) (show 60 > 0 by decide))
      (Nat.mod_lt (d.nanos.natAbs / 1000000000) (show 60 > 0 by decide))
      (Nat.mod_lt d.nanos.natAbs (show 1000000000 > 0 by decide))
    rw [chars_eq_magnitudeChars (Nat.mod_lt _ (by decide)) (Nat.mod_lt _ (by decide))
      (Nat.mod_lt _ (by decide)) (Nat.mod_lt _ (by decide)) hsum]
    rw [← hsum] at hmagnitude
    split
    · next hneg =>
      have hnormal := Normal.negated hmagnitude (by omega)
      rwa [show -(d.nanos.natAbs : Int) = d.nanos by omega] at hnormal
    · next hneg =>
      have hnormal := Normal.plain hmagnitude
      rwa [show (d.nanos.natAbs : Int) = d.nanos by omega] at hnormal

end ClusterFilter.Duration
