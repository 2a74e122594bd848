import Mathlib
import ClusterFilter.Proofs.Time.Notation

/-!
# ClusterFilter — which ISO 8601 durations are read

The reader runs over pairs of a number and a unit, with the units that may still come; the notation
lists its parts by name, each of which may be missing. Between the two stands a relation: the texts
that a list of units allows, with what they add up to (`Components`). A list of units allows exactly
the parts in its order (`components_dateUnits_iff`, `components_clockUnits_iff`), and the loop reads
the texts of the relation with their sums.

Numbers, products and sums are kept below `2 ^ 127` on the way. Each is part of the whole sum, so
this refuses nothing but a sum that is as large. The sum of seconds and their fraction is the only
one that is not refused. Where it is too large, the text must end there to be read at all, for the
seconds come last (`Table`).

Main results:

* `Iso.readIso_eq` — what follows a `P` is read if it is of the notation, in every build.
* `iso_of_readIso` — what is read is of the notation, or it overflows at its end in a build without
  checks.
* `overflows_of_readIso` — where the program stops, there are seconds that overflow.
-/

namespace ClusterFilter.Duration

open Text

variable {cs : List Char} {n m : Nat}

/-- An upper-case letter is that of two characters. -/
theorem toUpper_eq_iff {c letter : Char} (h : letter.toUpper = letter) :
    c.toUpper = letter ↔ c = letter ∨ c = letter.toLower := by
  constructor
  · rintro rfl
    by_cases hlow : c.isLower = true
    · rw [Char.toLower_toUpper_eq_toLower,
        Char.toLower_eq_of_not_isUpper (Char.not_isUpper_of_isLower hlow)]
      exact .inr rfl
    · exact .inl (Char.toUpper_eq_of_not_isLower hlow).symm
  · rintro (rfl | rfl)
    · exact h
    · rw [Char.toUpper_toLower_eq_toUpper, h]

-- ---------------------------------------------------------------------------
-- A number and its unit
-- ---------------------------------------------------------------------------

/-- A number before the letter of a unit, and the nanoseconds that both stand for. Only the number
of a unit that is divided may have a fraction. -/
inductive Amount (d : Designator) : (number : List Char) → (nanos : Nat) → Prop where
  | whole {number : List Char} : isNumeral number = true →
      Amount d number (digitsValue number * d.nanos)
  | divided {number : List Char} {seconds nanos : Nat} : d.fractional = true →
      Seconds number seconds nanos → Amount d number (seconds * d.nanos + nanos)

/-- A list of units of the reader: their letters differ, and seconds are the only unit that is
divided and the last one. -/
structure Table (units : List Designator) : Prop where
  letters : (units.map Designator.letter).Nodup
  positive : ∀ d ∈ units, 0 < d.nanos
  divided : ∀ d ∈ units, d.fractional = true → d.letter = 'S' ∧ d.nanos = 1000000000
  last : units.Pairwise fun d _ => d.fractional = false

theorem table_dateUnits : Table dateUnits :=
  ⟨by decide, by decide, by decide, by decide⟩

theorem table_clockUnits : Table clockUnits :=
  ⟨by decide, by decide, by decide, by decide⟩

theorem whole_dateUnits : ¬ ∃ d ∈ dateUnits, d.fractional = true := by
  decide

section

variable {d : Designator} {number : List Char} {unit : Char}

theorem Amount.chars (h : Amount d number m) : ∀ x ∈ number, x.isDigit = true ∨ x = '.' := by
  cases h with
  | whole hnumeral => exact fun x hx => .inl (isDigit_of_isNumeral hnumeral x hx)
  | divided _ hseconds => exact hseconds.chars

variable [Build]

theorem readComponent_of_isNumeral (hnumeral : isNumeral number = true) (hpos : 0 < d.nanos)
    (hlt : digitsValue number * d.nanos < 1 <<< 127) :
    readComponent d number unit = .ok (digitsValue number * d.nanos : Nat) := by
  have hnumber : digitsValue number < 1 <<< 127 :=
    Nat.lt_of_le_of_lt (Nat.le_mul_of_pos_right _ hpos) hlt
  unfold readComponent
  rw [splitFirst?_eq_none_iff.mpr (ne_of_isNumeral rfl hnumeral)]
  exact bind_eq_ok.mpr ⟨_, readNumber_eq_ok_iff.mpr ⟨hnumeral, rfl, hnumber⟩,
    bind_eq_ok.mpr ⟨_, checked_of_lt hlt, rfl⟩⟩

/-- An amount that is not too large is read, in every build. -/
theorem Amount.readComponent_eq (h : Amount d number m) (hpos : 0 < d.nanos)
    (hm : m < 1 <<< 127) : readComponent d number unit = .ok m := by
  cases h with
  | whole hnumeral => exact readComponent_of_isNumeral hnumeral hpos hm
  | divided hd hseconds =>
    cases hseconds with
    | whole hnumeral => exact readComponent_of_isNumeral hnumeral hpos hm
    | @fractional whole fraction hwhole hnumeral hlength =>
      have hlt : digitsValue whole * d.nanos < 1 <<< 127 :=
        Nat.lt_of_le_of_lt (Nat.le_add_right _ _) hm
      have hnumber : digitsValue whole < 1 <<< 127 :=
        Nat.lt_of_le_of_lt (Nat.le_mul_of_pos_right _ hpos) hlt
      unfold readComponent
      rw [splitFirst?_eq_some_iff.mpr ⟨rfl, ne_of_isNumeral rfl hwhole⟩]
      simp only [hd, if_true]
      exact bind_eq_ok.mpr ⟨_, readNumber_eq_ok_iff.mpr ⟨hwhole, rfl, hnumber⟩, bind_eq_ok.mpr
        ⟨_, checked_of_lt hlt, bind_eq_ok.mpr
          ⟨_, readFraction_eq_ok_iff.mpr ⟨hnumeral, hlength, rfl⟩, uncheckedSum_of_lt hm⟩⟩⟩

/-- What is read is an amount, or a fraction was added to seconds that had no room for it. -/
theorem amount_of_readComponent {k : Int} (h : readComponent d number unit = .ok k) :
    (∃ m : Nat, Amount d number m ∧ k = m) ∨
      Build.overflowChecks = false ∧ d.fractional = true ∧ Overflowing d.nanos number := by
  unfold readComponent at h
  split at h
  · next whole fraction hsplit =>
    split at h
    · next hd =>
      obtain ⟨rfl, -⟩ := splitFirst?_eq_some_iff.mp hsplit
      obtain ⟨_, hread, h⟩ := bind_eq_ok.mp h
      obtain ⟨hwhole, rfl, -⟩ := readNumber_eq_ok_iff.mp hread
      obtain ⟨_, hchecked, h⟩ := bind_eq_ok.mp h
      obtain ⟨rfl, hlt⟩ := checked_eq_ok_iff.mp hchecked
      obtain ⟨_, hfraction, h⟩ := bind_eq_ok.mp h
      obtain ⟨hnumeral, hlength, rfl⟩ := readFraction_eq_ok_iff.mp hfraction
      have hseconds := Seconds.fractional hwhole hnumeral hlength
      rcases uncheckedSum_eq_ok h with rfl | ⟨hchecks, hlarge⟩
      · exact .inl ⟨_, .divided hd hseconds, rfl⟩
      · exact .inr ⟨hchecks, hd, _, _, hseconds, hlt, hlarge⟩
    · cases h
  · obtain ⟨_, hread, h⟩ := bind_eq_ok.mp h
    obtain ⟨hnumeral, rfl, -⟩ := readNumber_eq_ok_iff.mp hread
    obtain ⟨_, hchecked, h⟩ := bind_eq_ok.mp h
    obtain ⟨rfl, -⟩ := checked_eq_ok_iff.mp hchecked
    exact .inl ⟨_, .whole hnumeral, (Except.ok.inj h).symm⟩

omit [Build] in
theorem follows_readComponent {build checking : Build} (h : checking.overflowChecks = true) :
    Follows (@readComponent build d number unit) (@readComponent checking d number unit) := by
  unfold readComponent
  split
  · split
    · exact (Follows.refl _).bind fun _ => (Follows.refl _).bind fun _ =>
        (Follows.refl _).bind fun _ => follows_uncheckedSum h _
    · exact .refl _
  · exact .refl _

theorem overflowing_of_readComponent (h : readComponent d number unit = .error .overflow) :
    Build.overflowChecks = true ∧ d.fractional = true ∧ Overflowing d.nanos number := by
  unfold readComponent at h
  split at h
  · next whole fraction hsplit =>
    split at h
    · next hd =>
      obtain ⟨rfl, -⟩ := splitFirst?_eq_some_iff.mp hsplit
      obtain ⟨_, hread, h⟩ := (bind_eq_error.mp h).resolve_left readNumber_ne_overflow
      obtain ⟨hwhole, rfl, -⟩ := readNumber_eq_ok_iff.mp hread
      obtain ⟨_, hchecked, h⟩ := (bind_eq_error.mp h).resolve_left checked_ne_overflow
      obtain ⟨rfl, hlt⟩ := checked_eq_ok_iff.mp hchecked
      obtain ⟨_, hfraction, h⟩ := (bind_eq_error.mp h).resolve_left readFraction_ne_overflow
      obtain ⟨hnumeral, hlength, rfl⟩ := readFraction_eq_ok_iff.mp hfraction
      obtain ⟨hchecks, hlarge⟩ := uncheckedSum_eq_overflow_iff.mp h
      exact ⟨hchecks, hd, _, _, .fractional hwhole hnumeral hlength, hlt, hlarge⟩
    · cases h
  · exact absurd h (bind_ne_overflow readNumber_ne_overflow fun _ =>
      bind_ne_overflow checked_ne_overflow fun _ => nofun)

end

-- ---------------------------------------------------------------------------
-- The loop over the pairs
-- ---------------------------------------------------------------------------

/-- The texts of numbers with their units, where each unit comes at most once and in the order of
the list, and what the numbers add up to. -/
inductive Components : (units : List Designator) → (cs : List Char) → (nanos : Nat) → Prop where
  | nil : Components [] [] 0
  | skip {d : Designator} {units : List Designator} {cs : List Char} {n : Nat} :
      Components units cs n → Components (d :: units) cs n
  | take {d : Designator} {units : List Designator} {number cs : List Char} {unit : Char}
      {m n : Nat} : Amount d number m → (unit.isDigit || unit == '.') = false →
      unit.toUpper = d.letter → Components units cs n →
      Components (d :: units) (number ++ unit :: cs) (m + n)

/-- The units behind those that a pair has passed are a table again. -/
theorem Table.sublist {units later : List Designator} (h : Table units)
    (hlater : later.Sublist units) : Table later where
  letters := h.letters.sublist (hlater.map _)
  positive d hd := h.positive d (hlater.subset hd)
  divided d hd := h.divided d (hlater.subset hd)
  last := h.last.sublist hlater

section

variable [Build]

/-- A call of the loop that finds a unit in its list reads one pair, and the rest with the units
behind this one. -/
theorem sumComponents_found {units later : List Designator} {d : Designator} {rest : List Char}
    {unit : Char} (total : Int)
    (hdrop : cs.dropWhile (fun c => c.isDigit || c == '.') = unit :: rest)
    (hfound : units.dropWhile (fun d => d.letter != unit.toUpper) = d :: later) :
    sumComponents units total cs = (do
      let n ← readComponent d (cs.takeWhile fun c => c.isDigit || c == '.') unit
      let total ← checkedSum (total + n)
      sumComponents later total rest) := by
  have hne : ¬ cs.isEmpty = true := by
    rw [List.isEmpty_iff]
    rintro rfl
    cases hdrop
  rw [sumComponents, if_neg hne]
  simp only [hdrop]
  split
  · next hnil =>
    rw [hfound] at hnil
    cases hnil
  · next hnext =>
    rw [hfound] at hnext
    injection hnext with hd hlater
    subst hd hlater
    rfl

/-- One pair of a number and a unit is added, and the units up to this one do not come any more. -/
theorem sumComponents_step {units later : List Designator} {d : Designator}
    {number cs : List Char} {unit : Char} {total m : Nat} (hamount : Amount d number m)
    (hpos : 0 < d.nanos) (hunit : (unit.isDigit || unit == '.') = false)
    (hfound : units.dropWhile (fun d => d.letter != unit.toUpper) = d :: later)
    (hsum : total + m < 1 <<< 127) :
    sumComponents units total (number ++ unit :: cs) =
      sumComponents later (total + m : Nat) cs := by
  obtain ⟨htake, hdrop⟩ :
      (number ++ unit :: cs).takeWhile (fun c => c.isDigit || c == '.') = number ∧
        (number ++ unit :: cs).dropWhile (fun c => c.isDigit || c == '.') = unit :: cs := by
    refine takeWhile_append_of_head (fun x hx => ?_) (forall_mem_head?_cons hunit)
    rw [Bool.or_eq_true, beq_iff_eq]
    exact hamount.chars x hx
  have hread : readComponent d number unit = .ok m := hamount.readComponent_eq hpos (by omega)
  have hchecked : checkedSum ((total : Int) + m) = .ok (total + m : Nat) := by
    rw [← Int.natCast_add, checkedSum_of_lt hsum]
  rw [sumComponents_found total hdrop hfound, htake, hread, ok_bind, hchecked, ok_bind]

/-- What the relation allows is added up, also where units that do not come any more stand in front
of the list. -/
theorem sumComponents_of_components {units : List Designator} {cs : List Char} {n : Nat}
    (h : Components units cs n) (hunits : Table units)
    {passed : List Designator} (hpassed : ∀ d ∈ passed, d.letter ∉ units.map Designator.letter)
    {total : Nat} (htotal : total + n < 1 <<< 127) :
    sumComponents (passed ++ units) total cs = .ok (total + n : Nat) := by
  -- the loop searches from the start of its list, so a unit that is skipped joins those in front
  induction h generalizing passed total with
  | nil =>
    rw [sumComponents]
    rfl
  | @skip d units cs n _ ih =>
    have hletters := hunits.letters
    rw [List.map_cons, List.nodup_cons] at hletters
    have hnext : ∀ d' ∈ passed ++ [d], d'.letter ∉ units.map Designator.letter := by
      intro d' hd'
      rcases List.mem_append.mp hd' with hd' | hd'
      · exact fun hmem => hpassed d' hd' (List.mem_cons_of_mem _ hmem)
      · rw [List.mem_singleton.mp hd']
        exact hletters.1
    have := ih (hunits.sublist (List.sublist_cons_self d units)) hnext htotal
    rwa [List.append_assoc] at this
  | @take d units number cs unit m n hamount hunit hletter _ ih =>
    have hfound : (passed ++ d :: units).dropWhile (fun d => d.letter != unit.toUpper) =
        d :: units := by
      rw [List.dropWhile_append_of_pos, List.dropWhile_cons_of_neg]
      · rw [hletter, bne_self_eq_false]
        exact Bool.false_ne_true
      · intro d' hd'
        rw [hletter, bne_iff_ne]
        exact fun heq => hpassed d' hd' (heq ▸ List.mem_cons_self ..)
    have hrest : sumComponents ([] ++ units) (total + m : Nat) cs = .ok (total + m + n : Nat) :=
      ih (hunits.sublist (List.sublist_cons_self d units))
        (fun _ hd => absurd hd List.not_mem_nil) (by omega)
    rw [sumComponents_step hamount (hunits.positive d (List.mem_cons_self ..)) hunit hfound
      (by omega), ← Nat.add_assoc]
    exact hrest

/-- From no sum at all the loop gives what the relation says. -/
theorem sumComponents_zero {units : List Designator} {cs : List Char} {n : Nat}
    (h : Components units cs n) (hunits : Table units) (hn : n < 1 <<< 127) :
    sumComponents units 0 cs = .ok n := by
  have hsum : sumComponents ([] ++ units) (0 : Nat) cs = .ok (0 + n : Nat) :=
    sumComponents_of_components h hunits (fun _ hd => absurd hd List.not_mem_nil) (by omega)
  rwa [Nat.zero_add] at hsum

omit [Build] in
/-- Units that do not come may stand in front. -/
theorem components_passed {units : List Designator} (h : Components units cs n)
    (passed : List Designator) : Components (passed ++ units) cs n := by
  induction passed with
  | nil => exact h
  | cons d passed ih => exact .skip ih

omit [Build] in
theorem components_nil (units : List Designator) : Components units [] 0 := by
  have h := components_passed .nil units
  rwa [List.append_nil] at h

/-- Behind the last unit nothing is read. -/
theorem sumComponents_nil {total k : Int} (h : sumComponents [] total cs = .ok k) : cs = [] := by
  generalize hunits : [] = units at h
  fun_induction sumComponents units total cs with
  | case1 _ _ _ hempty => exact List.isEmpty_iff.mp hempty
  | case2 => cases h
  | case3 => cases h
  | case4 _ _ _ _ _ _ _ _ _ _ _ hfound =>
    rw [← hunits] at hfound
    cases hfound

omit [Build] in
/-- What a call of the loop has found: a unit of the list behind what may be a number. -/
theorem found_pair {units later : List Designator} {d : Designator} {unit : Char}
    {rest : List Char} (hdrop : cs.dropWhile (fun c => c.isDigit || c == '.') = unit :: rest)
    (hfound : units.dropWhile (fun d => d.letter != unit.toUpper) = d :: later) :
    cs = cs.takeWhile (fun c => c.isDigit || c == '.') ++ unit :: rest ∧
      (unit.isDigit || unit == '.') = false ∧ unit.toUpper = d.letter ∧
      (d :: later).Sublist units := by
  refine ⟨?_, head?_dropWhile_eq_false unit (by rw [hdrop]; rfl), ?_, ?_⟩
  · rw [← hdrop]
    exact List.takeWhile_append_dropWhile.symm
  · have hhead := List.head?_dropWhile_not (fun d : Designator => d.letter != unit.toUpper) units
    rw [hfound] at hhead
    exact (bne_eq_false_iff_eq.mp (by simpa using hhead)).symm
  · exact hfound ▸ (List.dropWhile_suffix _).sublist

omit [Build] in
/-- Seconds without room for their fraction, with their letter, are an overflow. -/
theorem Table.overflows {units : List Designator} (h : Table units) {d : Designator}
    (hd : d ∈ units) (hfractional : d.fractional = true) {number rest : List Char} {unit : Char}
    (hletter : unit.toUpper = d.letter) (hnumber : Overflowing d.nanos number) :
    Overflows (number ++ unit :: rest) rest := by
  obtain ⟨hS, hscale⟩ := h.divided d hd hfractional
  rw [hscale] at hnumber
  rw [hS] at hletter
  exact @Overflows.mk [] _ _ _ nofun hnumber ((toUpper_eq_iff rfl).mp hletter)

/-- What the loop has added up is what the relation says, or the text ends in an overflow that is
not checked. -/
theorem components_of_sumComponents {units : List Designator} (hunits : Table units) {total : Nat}
    {k : Int} (htotal : total < 1 <<< 127) (h : sumComponents units total cs = .ok k) :
    (∃ m, Components units cs m ∧ k = (total + m : Nat) ∧ total + m < 1 <<< 127) ∨
      Build.overflowChecks = false ∧ (∃ d ∈ units, d.fractional = true) ∧ Overflows cs [] := by
  generalize hsum : (total : Int) = sum at h
  -- over the calls of the loop: the units that a call drops are skipped in the relation
  fun_induction sumComponents units sum cs generalizing total with
  | case1 units sum cs hempty =>
    subst hsum
    obtain rfl := List.isEmpty_iff.mp hempty
    exact .inl ⟨0, components_nil units, (Except.ok.inj h).symm, htotal⟩
  | case2 => cases h
  | case3 => cases h
  | case4 units sum cs _ isNumberChar number unit rest hdrop d later hfound =>
    rename_i ih
    subst hsum
    obtain ⟨hcs, hunit, hletter, hlater⟩ := found_pair hdrop hfound
    have hmem : d ∈ units := hlater.subset (List.mem_cons_self ..)
    obtain ⟨k', hread, h⟩ := bind_eq_ok.mp h
    obtain ⟨_, hchecked, h⟩ := bind_eq_ok.mp h
    obtain ⟨rfl, hfits⟩ := checkedSum_eq_ok_iff.mp hchecked
    rcases amount_of_readComponent hread with ⟨m, hamount, rfl⟩ | ⟨hchecks, hd, hnumber⟩
    · have hlt : total + m < 1 <<< 127 := fits_natCast.mp (by exact_mod_cast hfits)
      rcases ih _ (hunits.sublist ((List.sublist_cons_self ..).trans hlater)) hlt
        (by push_cast; rfl) h with
        ⟨n, hcomponents, hk, hn⟩ | ⟨hchecks, ⟨d', hd', hdivided⟩, hoverflow⟩
      · refine .inl ⟨m + n, ?_, by rw [hk, Nat.add_assoc], by omega⟩
        rw [hcs,
          ← List.takeWhile_append_dropWhile (p := fun d => d.letter != unit.toUpper) (l := units),
          hfound]
        exact components_passed (.take hamount hunit hletter hcomponents) _
      · exact .inr ⟨hchecks, ⟨d', hlater.subset (List.mem_cons_of_mem _ hd'), hdivided⟩,
          hcs ▸ hoverflow.append number hunit⟩
    · -- no unit is left behind seconds, and so the text has to end
      obtain rfl : later = [] := by
        cases later with
        | nil => rfl
        | cons d' later =>
          have := List.rel_of_pairwise_cons (hunits.last.sublist hlater) (List.mem_cons_self ..)
          rw [hd] at this
          cases this
      obtain rfl := sumComponents_nil h
      exact .inr ⟨hchecks, ⟨d, hmem, hd⟩, hcs ▸ hunits.overflows hmem hd hletter hnumber⟩

omit [Build] in
/-- A build with checks has the same sum, or it stops on the way to it. -/
theorem follows_sumComponents {build checking : Build} (h : checking.overflowChecks = true)
    {units : List Designator} {sum : Int} {cs : List Char} :
    Follows (@sumComponents build units sum cs) (@sumComponents checking units sum cs) := by
  fun_induction @sumComponents build units sum cs with
  | case1 units sum cs hempty =>
    rw [sumComponents, if_pos hempty]
    exact .refl _
  | case2 units sum cs hne isNumberChar number hdrop =>
    have hdrop : cs.dropWhile (fun c => c.isDigit || c == '.') = [] := hdrop
    rw [sumComponents, if_neg hne]
    simp only [hdrop]
    exact .refl _
  | case3 units sum cs hne isNumberChar unit rest hdrop hfound =>
    have hdrop : cs.dropWhile (fun c => c.isDigit || c == '.') = unit :: rest := hdrop
    rw [sumComponents, if_neg hne]
    simp only [hdrop]
    split
    · exact .refl _
    · next hnext =>
      rw [hfound] at hnext
      cases hnext
  | case4 units sum cs hne isNumberChar number unit rest hdrop d later hfound ih =>
    rw [@sumComponents_found _ checking _ _ _ _ _ sum hdrop hfound]
    exact (follows_readComponent h).bind fun _ => (Follows.refl _).bind fun total => ih total

/-- The loop stops at seconds that overflow and nowhere else. -/
theorem overflows_of_sumComponents {units : List Designator} (hunits : Table units) {sum : Int}
    (h : sumComponents units sum cs = .error .overflow) :
    Build.overflowChecks = true ∧ (∃ d ∈ units, d.fractional = true) ∧
      ∃ rest, Overflows cs rest := by
  fun_induction sumComponents units sum cs with
  | case1 => cases h
  | case2 => cases h
  | case3 => cases h
  | case4 units sum cs _ isNumberChar number unit rest hdrop d later hfound ih =>
    obtain ⟨hcs, hunit, hletter, hlater⟩ := found_pair hdrop hfound
    have hmem : d ∈ units := hlater.subset (List.mem_cons_self ..)
    rcases bind_eq_error.mp h with hread | ⟨k, -, h⟩
    · obtain ⟨hchecks, hd, hnumber⟩ := overflowing_of_readComponent hread
      exact ⟨hchecks, ⟨d, hmem, hd⟩, rest, hcs ▸ hunits.overflows hmem hd hletter hnumber⟩
    · rcases bind_eq_error.mp h with hsum | ⟨sum', -, h⟩
      · exact absurd hsum checkedSum_ne_overflow
      · obtain ⟨hchecks, ⟨d', hd', hdivided⟩, rest', hoverflow⟩ :=
          ih _ (hunits.sublist ((List.sublist_cons_self ..).trans hlater)) h
        exact ⟨hchecks, ⟨d', hlater.subset (List.mem_cons_of_mem _ hd'), hdivided⟩, rest',
          hcs ▸ hoverflow.append number hunit⟩

end

-- ---------------------------------------------------------------------------
-- Parts by name
-- ---------------------------------------------------------------------------

/-- The letter can be told from the characters of numbers, in either case. -/
structure IsUnitLetter (letter : Char) : Prop where
  upper : letter.toUpper = letter
  apart : (letter.isDigit || letter == '.') = false
  apartLower : (letter.toLower.isDigit || letter.toLower == '.') = false

theorem IsUnitLetter.apart_of_toUpper {letter unit : Char} (h : IsUnitLetter letter)
    (hunit : unit.toUpper = letter) : (unit.isDigit || unit == '.') = false := by
  rcases (toUpper_eq_iff h.upper).mp hunit with rfl | rfl
  · exact h.apart
  · exact h.apartLower

section

variable {letter : Char} {scale : Nat} {units : List Designator} (hletter : IsUnitLetter letter)

include hletter

/-- The first unit comes with a whole number or not at all, if it is not divided. -/
theorem part_of_components (h : Components (⟨letter, scale, false⟩ :: units) cs n) :
    ∃ text rest count m, cs = text ++ rest ∧ Part letter text count ∧
      Components units rest m ∧ count * scale + m = n := by
  cases h with
  | skip h => exact ⟨[], cs, 0, n, rfl, .absent, h, by omega⟩
  | @take _ _ number rest unit m k hamount _ hunit h =>
    cases hamount with
    | whole hnumeral =>
      exact ⟨number ++ [unit], rest, _, k, List.append_cons ..,
        .given hnumeral ((toUpper_eq_iff hletter.upper).mp hunit), h, rfl⟩
    | divided hdivided => cases hdivided

theorem Part.components {text rest : List Char} {count : Nat} (hpart : Part letter text count)
    (h : Components units rest m) :
    Components (⟨letter, scale, false⟩ :: units) (text ++ rest) (count * scale + m) := by
  cases hpart with
  | absent =>
    rw [Nat.zero_mul, Nat.zero_add]
    exact .skip h
  | @given number unit hnumeral hunit =>
    have hupper := (toUpper_eq_iff hletter.upper).mpr hunit
    rw [List.append_assoc]
    exact .take (.whole hnumeral) (hletter.apart_of_toUpper hupper) hupper h

end

section

variable {scale : Nat}

/-- Seconds come with a number that may have a fraction, or not at all. -/
theorem secondsPart_of_components (h : Components [⟨'S', scale, true⟩] cs n) :
    ∃ seconds nanos, SecondsPart cs seconds nanos ∧ seconds * scale + nanos = n := by
  have hletter : Char.toUpper 'S' = 'S' := rfl
  cases h with
  | skip h =>
    cases h
    exact ⟨0, 0, .absent, by omega⟩
  | take hamount _ hunit h =>
    cases h
    have hunit := (toUpper_eq_iff hletter).mp hunit
    cases hamount with
    | whole hnumeral => exact ⟨_, 0, .given (.whole hnumeral) hunit, rfl⟩
    | divided _ hseconds => exact ⟨_, _, .given hseconds hunit, rfl⟩

theorem SecondsPart.components {seconds nanos : Nat} (hpart : SecondsPart cs seconds nanos) :
    Components [⟨'S', scale, true⟩] cs (seconds * scale + nanos) := by
  have hletter : Char.toUpper 'S' = 'S' := rfl
  cases hpart with
  | absent =>
    rw [Nat.zero_mul]
    exact .skip .nil
  | @given number unit _ _ hseconds hunit =>
    have hapart : (unit.isDigit || unit == '.') = false := by
      rcases hunit with rfl | rfl <;> rfl
    rw [← Nat.add_zero (seconds * scale + nanos)]
    exact .take (.divided rfl hseconds) hapart ((toUpper_eq_iff hletter).mpr hunit) .nil

end

/-- The units before the `T` allow the parts of a date. -/
theorem components_dateUnits_iff :
    Components dateUnits cs n ↔ ∃ days, DateText cs days ∧ days * 86400000000000 = n := by
  have hyear : IsUnitLetter 'Y' := ⟨rfl, rfl, rfl⟩
  have hmonth : IsUnitLetter 'M' := ⟨rfl, rfl, rfl⟩
  have hweek : IsUnitLetter 'W' := ⟨rfl, rfl, rfl⟩
  have hday : IsUnitLetter 'D' := ⟨rfl, rfl, rfl⟩
  unfold dateUnits
  constructor
  · intro h
    obtain ⟨y, _, years, _, rfl, hy, hmwd, rfl⟩ := part_of_components hyear h
    obtain ⟨m, _, months, _, rfl, hm, hwd, rfl⟩ := part_of_components hmonth hmwd
    obtain ⟨w, _, weeks, _, rfl, hw, hlast, rfl⟩ := part_of_components hweek hwd
    obtain ⟨d, _, days, _, rfl, hd, hnil, rfl⟩ := part_of_components hday hlast
    cases hnil
    refine ⟨365 * years + 30 * months + 7 * weeks + days, ?_, by omega⟩
    rw [List.append_nil, ← List.append_assoc, ← List.append_assoc]
    exact .mk hy hm hw hd
  · rintro ⟨_, hdate, rfl⟩
    obtain @⟨y, m, w, d, years, months, weeks, days, hy, hm, hw, hd⟩ := hdate
    have htext : y ++ m ++ w ++ d = y ++ (m ++ (w ++ (d ++ []))) := by
      simp only [List.append_assoc, List.append_nil]
    have hsum : (365 * years + 30 * months + 7 * weeks + days) * 86400000000000 =
        years * (365 * 86400000000000) + (months * (30 * 86400000000000) +
          (weeks * (7 * 86400000000000) + (days * 86400000000000 + 0))) := by
      omega
    rw [htext, hsum]
    exact hy.components hyear (hm.components hmonth
      (hw.components hweek (hd.components hday .nil)))

/-- The units behind the `T` allow the parts of a time. -/
theorem components_clockUnits_iff :
    Components clockUnits cs n ↔
      ∃ seconds nanos, TimeText cs seconds nanos ∧ seconds * 1000000000 + nanos = n := by
  have hhour : IsUnitLetter 'H' := ⟨rfl, rfl, rfl⟩
  have hminute : IsUnitLetter 'M' := ⟨rfl, rfl, rfl⟩
  unfold clockUnits
  constructor
  · intro h
    obtain ⟨h, _, hours, _, rfl, hh, hms, rfl⟩ := part_of_components hhour h
    obtain ⟨m, s, minutes, _, rfl, hm, hlast, rfl⟩ := part_of_components hminute hms
    obtain ⟨seconds, nanos, hs, rfl⟩ := secondsPart_of_components hlast
    refine ⟨3600 * hours + 60 * minutes + seconds, nanos, ?_, by omega⟩
    rw [← List.append_assoc]
    exact .mk hh hm hs
  · rintro ⟨_, nanos, htime, rfl⟩
    obtain @⟨h, m, s, hours, minutes, seconds, _, hh, hm, hs⟩ := htime
    have hsum : (3600 * hours + 60 * minutes + seconds) * 1000000000 + nanos =
        hours * 3600000000000 + (minutes * 60000000000 + (seconds * 1000000000 + nanos)) := by
      omega
    rw [List.append_assoc, hsum]
    exact hh.components hhour (hm.components hminute hs.components)

-- ---------------------------------------------------------------------------
-- The whole text
-- ---------------------------------------------------------------------------

theorem isClockMark_iff {c : Char} : isClockMark c = true ↔ c = 'T' ∨ c = 't' := by
  rw [isClockMark, Bool.or_eq_true, beq_iff_eq, beq_iff_eq]

/-- No number reaches over the mark of a time. -/
theorem apart_of_isClockMark {c : Char} (h : isClockMark c = true) :
    (c.isDigit || c == '.') = false := by
  rcases isClockMark_iff.mp h with rfl | rfl <;> rfl

/-- No mark of a time stands among parts of which none has its letter. -/
theorem isClockMark_of_components {units : List Designator} (h : Components units cs n)
    (hunits : ∀ d ∈ units, d.letter ≠ 'T') : ∀ x ∈ cs, isClockMark x = false := by
  induction h with
  | nil => exact nofun
  | skip _ ih => exact ih (List.forall_mem_cons.mp hunits).2
  | @take d units number cs unit _ _ hamount _ hletter _ ih =>
    obtain ⟨hd, hunits⟩ := List.forall_mem_cons.mp hunits
    rw [List.forall_mem_append, List.forall_mem_cons]
    refine ⟨fun x hx => ?_, ?_, ih hunits⟩
    · rw [Bool.eq_false_iff]
      intro hmark
      rcases isClockMark_iff.mp hmark with rfl | rfl
      · exact absurd (hamount.chars _ hx) (by decide)
      · exact absurd (hamount.chars _ hx) (by decide)
    · rw [Bool.eq_false_iff]
      intro hmark
      rcases isClockMark_iff.mp hmark with rfl | rfl
      · exact hd (hletter.symm.trans rfl)
      · exact hd (hletter.symm.trans rfl)

variable [Build]

section

variable {date clock : List Char} {m n : Nat} (hdate : Components dateUnits date m)
  (hmark : ∀ x ∈ date, isClockMark x = false)

include hdate hmark

theorem readIso_date (hne : date ≠ []) (hm : m < 1 <<< 127) : readIso date = .ok m := by
  obtain ⟨htake, hdrop⟩ : date.takeWhile (fun c => !isClockMark c) = date ∧
      date.dropWhile (fun c => !isClockMark c) = [] :=
    takeWhile_eq_self fun x hx => by rw [hmark x hx]; rfl
  unfold readIso
  simp only [htake, hdrop]
  rw [if_neg (by rwa [List.isEmpty_iff])]
  exact sumComponents_zero hdate table_dateUnits hm

theorem readIso_clock {mark : Char} (hclockMark : isClockMark mark = true)
    (hclock : Components clockUnits clock n) (hne : clock ≠ []) (hsum : m + n < 1 <<< 127) :
    readIso (date ++ mark :: clock) = .ok (m + n : Nat) := by
  obtain ⟨htake, hdrop⟩ : (date ++ mark :: clock).takeWhile (fun c => !isClockMark c) = date ∧
      (date ++ mark :: clock).dropWhile (fun c => !isClockMark c) = mark :: clock :=
    takeWhile_append_of_head (fun x hx => by rw [hmark x hx]; rfl)
      (forall_mem_head?_cons (by rw [hclockMark]; rfl))
  have hdays : sumComponents dateUnits 0 date = .ok m :=
    sumComponents_zero hdate table_dateUnits (by omega)
  have hrest : sumComponents clockUnits 0 clock = .ok n :=
    sumComponents_zero hclock table_clockUnits (by omega)
  obtain ⟨x, xs, rfl⟩ := List.exists_cons_of_ne_nil hne
  unfold readIso
  simp only [htake, hdrop]
  exact bind_eq_ok.mpr ⟨m, hdays, bind_eq_ok.mpr ⟨n, hrest, checkedSum_of_lt hsum⟩⟩

end

/-- What is summed up before the `T` is exact, for there are no seconds among it. -/
theorem dateText_of_sumComponents {k : Int} (h : sumComponents dateUnits 0 cs = .ok k) :
    ∃ days, DateText cs days ∧ k = (days * 86400000000000 : Nat) ∧
      days * 86400000000000 < 1 <<< 127 := by
  have hnothing : 0 < 1 <<< 127 := by decide
  rcases components_of_sumComponents table_dateUnits hnothing h with
    ⟨m, hcomponents, hk, hm⟩ | ⟨-, hdivided, -⟩
  · obtain ⟨days, hdate, rfl⟩ := components_dateUnits_iff.mp hcomponents
    rw [Nat.zero_add] at hk hm
    exact ⟨days, hdate, hk, hm⟩
  · exact absurd hdivided whole_dateUnits

/-- A text is refused where a part is missing, or it is a date alone, or it is cut at its first
mark and both parts are added up. -/
theorem readIso_cases (cs : List Char) :
    (readIso cs = .error .empty ∨ readIso cs = .error .emptyClock) ∨
      cs ≠ [] ∧ readIso cs = sumComponents dateUnits 0 cs ∨
      ∃ date mark clock, cs = date ++ mark :: clock ∧ isClockMark mark = true ∧ clock ≠ [] ∧
        readIso cs = (do
          let days ← sumComponents dateUnits 0 date
          let rest ← sumComponents clockUnits 0 clock
          checkedSum (days + rest)) := by
  have hcut := List.takeWhile_append_dropWhile (p := fun c => !isClockMark c) (l := cs)
  have hmark : ∀ x ∈ (cs.dropWhile fun c => !isClockMark c).head?, (!isClockMark x) = false :=
    head?_dropWhile_eq_false
  unfold readIso
  dsimp only
  generalize cs.takeWhile (fun c => !isClockMark c) = date at hcut ⊢
  generalize cs.dropWhile (fun c => !isClockMark c) = rest at hcut hmark ⊢
  subst hcut
  split
  · rw [List.append_nil]
    split
    · exact .inl (.inl rfl)
    · next hne => exact .inr (.inl ⟨fun hnil => hne (List.isEmpty_iff.mpr hnil), rfl⟩)
  · exact .inl (.inr rfl)
  · next mark clock hne =>
    exact .inr (.inr ⟨date, mark, clock, rfl, by simpa using hmark mark rfl,
      fun hnil => hne (hnil ▸ rfl), rfl⟩)

theorem iso_of_readIso {p : Char} {k : Int} (hp : p = 'P' ∨ p = 'p') (h : readIso cs = .ok k) :
    (∃ n : Nat, Iso (p :: cs) n ∧ k = n ∧ n < 1 <<< 127) ∨
      Build.overflowChecks = false ∧ Overflows cs [] := by
  rcases readIso_cases cs with
    (hread | hread) | ⟨hne, hread⟩ | ⟨date, t, clock, rfl, ht, hne, hread⟩
  · rw [hread] at h
    cases h
  · rw [hread] at h
    cases h
  · rw [hread] at h
    obtain ⟨days, hdate, rfl, hn⟩ := dateText_of_sumComponents h
    have hiso := Iso.date hp hdate hne
    rw [totalNanos_eq, Nat.zero_mul, Nat.add_zero] at hiso
    exact .inl ⟨_, hiso, rfl, hn⟩
  · rw [hread] at h
    obtain ⟨_, hdays, h⟩ := bind_eq_ok.mp h
    obtain ⟨days, hdate, rfl, -⟩ := dateText_of_sumComponents hdays
    obtain ⟨k', hrest, h⟩ := bind_eq_ok.mp h
    have hnothing : 0 < 1 <<< 127 := by decide
    rcases components_of_sumComponents table_clockUnits hnothing hrest with
      ⟨m, hcomponents, hm, -⟩ | ⟨hchecks, -, hoverflow⟩
    · obtain ⟨seconds, nanos, htime, rfl⟩ := components_clockUnits_iff.mp hcomponents
      rw [Nat.zero_add] at hm
      obtain ⟨rfl, hfits⟩ := checkedSum_eq_ok_iff.mp h
      rw [hm, ← Int.natCast_add] at hfits ⊢
      have hiso := Iso.dateAndTime hp (isClockMark_iff.mp ht) hdate htime hne
      rw [totalNanos_eq] at hiso
      exact .inl ⟨_, hiso, rfl, fits_natCast.mp hfits⟩
    · exact .inr ⟨hchecks, hoverflow.append date (apart_of_isClockMark ht)⟩

theorem Iso.readIso_eq {p : Char} (h : Iso (p :: cs) n) (hn : n < 1 <<< 127) :
    readIso cs = .ok n := by
  have hletters : ∀ d ∈ dateUnits, d.letter ≠ 'T' := by decide
  cases h with
  | @date _ _ days hp hdate hne =>
    rw [totalNanos_eq, Nat.zero_mul, Nat.add_zero] at hn ⊢
    have hcomponents := components_dateUnits_iff.mpr ⟨days, hdate, rfl⟩
    exact readIso_date hcomponents (isClockMark_of_components hcomponents hletters) hne hn
  | @dateAndTime _ t date time days seconds nanos hp ht hdate htime hne =>
    rw [totalNanos_eq] at hn ⊢
    have hfirst := components_dateUnits_iff.mpr ⟨days, hdate, rfl⟩
    have hsecond := components_clockUnits_iff.mpr ⟨seconds, nanos, htime, rfl⟩
    exact readIso_clock hfirst (isClockMark_of_components hfirst hletters) (isClockMark_iff.mpr ht)
      hsecond hne hn

omit [Build] in
theorem follows_readIso {build checking : Build} (h : checking.overflowChecks = true)
    {cs : List Char} : Follows (@readIso build cs) (@readIso checking cs) := by
  unfold readIso
  dsimp only
  split
  · split
    · exact .refl _
    · exact follows_sumComponents h
  · exact .refl _
  · exact (follows_sumComponents h).bind fun _ => (follows_sumComponents h).bind fun _ =>
      .refl _

theorem overflows_of_readIso (h : readIso cs = .error .overflow) :
    Build.overflowChecks = true ∧ ∃ rest, Overflows cs rest := by
  rcases readIso_cases cs with
    (hread | hread) | ⟨-, hread⟩ | ⟨date, t, clock, rfl, ht, -, hread⟩
  · rw [hread] at h
    cases h
  · rw [hread] at h
    cases h
  · rw [hread] at h
    exact absurd (overflows_of_sumComponents table_dateUnits h).2.1 whole_dateUnits
  · rw [hread] at h
    rcases bind_eq_error.mp h with hdate | ⟨_, -, h⟩
    · exact absurd (overflows_of_sumComponents table_dateUnits hdate).2.1 whole_dateUnits
    · rcases bind_eq_error.mp h with hclock | ⟨_, -, h⟩
      · obtain ⟨hchecks, -, rest, hoverflow⟩ := overflows_of_sumComponents table_clockUnits hclock
        exact ⟨hchecks, rest, hoverflow.append date (apart_of_isClockMark ht)⟩
      · exact absurd h checkedSum_ne_overflow

end ClusterFilter.Duration
