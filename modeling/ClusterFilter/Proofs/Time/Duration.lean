import ClusterFilter.Proofs.Time.Clock
import ClusterFilter.Proofs.Time.Iso
import ClusterFilter.Proofs.Time.NormalForm

/-!
# ClusterFilter — durations and their texts

The texts that are read as durations are those that denote one (`Notation`), in either notation and
behind a minus sign or not. A duration is bounded far below the sums that the reader refuses, so
nothing is lost on the way to it.

Texts that end in seconds which overflow denote no duration, for they are far too long. What becomes
of them depends on the build: the program stops, or it goes on with a sum that is too small by
`2 ^ 128`, and may take it for a duration. All other texts are read in the same way by every build
(`follows_read`).

What is written is one of the texts that are read, the normal one. So every duration is read back
from its text.

Main results:

* `read_eq_ok_iff_denotes` — exactly the texts of durations are read, with their exact lengths, if
  no sum overflows that is not checked.
* `overflows_of_read` — nothing but an overflow stops the program, in a build with checks.
* `denotes_chars`, `read_chars` — what is written denotes the duration, and is read back.
-/

namespace ClusterFilter.Duration

open Text

variable {cs : List Char} {n : Nat}

-- ---------------------------------------------------------------------------
-- What is read
-- ---------------------------------------------------------------------------

/-- A clock starts with a digit. -/
theorem Clock.exists_head (h : Clock cs n) : ∃ c rest, cs = c :: rest ∧ c.isDigit = true := by
  have hdigit : ∀ number rest : List Char, isNumeral number = true →
      ∃ c rest', number ++ rest = c :: rest' ∧ c.isDigit = true := by
    intro number rest hnumeral
    obtain ⟨hne, hdigits⟩ := isNumeral_iff.mp hnumeral
    cases number with
    | nil => exact absurd rfl hne
    | cons c number => exact ⟨c, number ++ rest, rfl, hdigits c (List.mem_cons_self ..)⟩
  cases h with
  | mk hd hhours =>
    cases hd with
    | absent =>
      rw [List.nil_append]
      exact hdigit _ _ hhours
    | given hnumeral =>
      rw [List.append_assoc]
      exact hdigit _ _ hnumeral

theorem Clock.mem_colon (h : Clock cs n) : ':' ∈ cs := by
  cases h
  simp

theorem Iso.exists_head (h : Iso cs n) : ∃ p rest, cs = p :: rest ∧ (p = 'P' ∨ p = 'p') := by
  cases h with
  | date hp => exact ⟨_, _, rfl, hp⟩
  | dateAndTime hp => exact ⟨_, _, rfl, hp⟩

theorem readMagnitude_letter {p : Char} [Build] (hp : p = 'P' ∨ p = 'p') :
    readMagnitude (p :: cs) = readIso cs := by
  rcases hp with rfl | rfl
  · rfl
  · rfl

/-- A magnitude that is not too large is read, in every build. -/
theorem Magnitude.readMagnitude_eq [Build] (h : Magnitude cs n) (hn : n < 1 <<< 127) :
    readMagnitude cs = .ok n := by
  cases h with
  | iso hiso =>
    obtain ⟨p, rest, rfl, hp⟩ := hiso.exists_head
    rw [readMagnitude_letter hp]
    exact hiso.readIso_eq hn
  | clock hclock =>
    obtain ⟨c, rest, rfl, hdigit⟩ := hclock.exists_head
    have hcolon : (c :: rest).contains ':' = true := List.contains_iff_mem.mpr hclock.mem_colon
    unfold readMagnitude
    split
    · next heq =>
      obtain ⟨rfl, -⟩ := List.cons.inj heq
      cases hdigit
    · next heq =>
      obtain ⟨rfl, -⟩ := List.cons.inj heq
      cases hdigit
    · rw [if_pos hcolon]
      exact bind_eq_ok.mpr ⟨n, readClock_eq_ok_iff.mpr ⟨hclock, hn⟩, rfl⟩

/-- The letter in front of the notation is no part of a number. -/
theorem Overflows.cons {text rest : List Char} (h : Overflows text rest) {p : Char}
    (hp : (p.isDigit || p == '.') = false) : Overflows (p :: text) rest :=
  h.append [] hp

/-- What is read is a magnitude, or it ends in an overflow that is not checked. -/
theorem magnitude_of_readMagnitude [Build] {k : Int} (h : readMagnitude cs = .ok k) :
    (∃ n : Nat, Magnitude cs n ∧ k = n) ∨ Build.overflowChecks = false ∧ Overflows cs [] := by
  unfold readMagnitude at h
  split at h
  · rcases iso_of_readIso (.inl rfl) h with ⟨n, hiso, hk, -⟩ | ⟨hchecks, hoverflow⟩
    · exact .inl ⟨n, .iso hiso, hk⟩
    · exact .inr ⟨hchecks, hoverflow.cons rfl⟩
  · rcases iso_of_readIso (.inr rfl) h with ⟨n, hiso, hk, -⟩ | ⟨hchecks, hoverflow⟩
    · exact .inl ⟨n, .iso hiso, hk⟩
    · exact .inr ⟨hchecks, hoverflow.cons rfl⟩
  · split at h
    · obtain ⟨n, hread, h⟩ := bind_eq_ok.mp h
      exact .inl ⟨n, .clock (readClock_eq_ok_iff.mp hread).1, (Except.ok.inj h).symm⟩
    · cases h

theorem follows_readMagnitude {build checking : Build} (h : checking.overflowChecks = true)
    {cs : List Char} : Follows (@readMagnitude build cs) (@readMagnitude checking cs) := by
  unfold readMagnitude
  split
  · exact follows_readIso h
  · exact follows_readIso h
  · exact .refl _

theorem overflows_of_readMagnitude [Build] (h : readMagnitude cs = .error .overflow) :
    Build.overflowChecks = true ∧ ∃ rest, Overflows cs rest := by
  unfold readMagnitude at h
  split at h
  · obtain ⟨hchecks, rest, hoverflow⟩ := overflows_of_readIso h
    exact ⟨hchecks, rest, hoverflow.cons rfl⟩
  · obtain ⟨hchecks, rest, hoverflow⟩ := overflows_of_readIso h
    exact ⟨hchecks, rest, hoverflow.cons rfl⟩
  · split at h
    · exact absurd h (bind_ne_overflow readClock_ne_overflow fun _ => nofun)
    · cases h

/-- The sign stands in front of a magnitude, and is none of it. -/
theorem Magnitude.ne_minus (h : Magnitude ('-' :: cs) n) : False := by
  cases h with
  | iso hiso =>
    obtain ⟨p, rest, heq, hp⟩ := hiso.exists_head
    obtain ⟨rfl, -⟩ := List.cons.inj heq
    rcases hp with hp | hp <;> cases hp
  | clock hclock =>
    obtain ⟨c, rest, heq, hdigit⟩ := hclock.exists_head
    obtain ⟨rfl, -⟩ := List.cons.inj heq
    cases hdigit

theorem ofNanos?_eq_some_iff {n : Int} {d : Duration} :
    ofNanos? n = some d ↔ n.natAbs ≤ maxNanos ∧ d.nanos = n := by
  unfold ofNanos?
  split
  · next h =>
    rw [Option.some.injEq, and_iff_right h]
    constructor
    · rintro rfl
      rfl
    · intro heq
      cases d
      subst heq
      rfl
  · next h => exact ⟨nofun, fun h' => absurd h'.1 h⟩

/-- A sum of nanoseconds that is a natural number is a duration up to the bound. -/
theorem ofTotal?_natCast (n : Nat) : ofTotal? n = ofNanos? n := by
  have hrest : ¬ (n : Int).tmod 1000000000 < 0 :=
    Int.not_lt.mpr (Int.tmod_nonneg _ (Int.natCast_nonneg n))
  rw [ofTotal?, if_neg hrest]

/-- Reading without a sign, and behind one. -/
theorem read_unsigned [Build] (h : cs.head? ≠ some '-') :
    read cs = (readMagnitude cs >>= fun n =>
      match ofTotal? n with
      | some d => .ok d
      | none => .error .outOfRange) := by
  unfold read
  split
  next negative body hsign =>
  split at hsign
  · exact absurd rfl h
  · obtain ⟨rfl, rfl⟩ := Prod.mk.inj hsign
    rfl

theorem read_minus [Build] (cs : List Char) :
    read ('-' :: cs) = (readMagnitude cs >>= fun n =>
      match ofTotal? n with
      | some d => .ok d.neg
      | none => .error .outOfRange) :=
  rfl

section

variable [Build]

/-- A duration is read from the texts that denote its length, in every build. -/
theorem read_of_denotes {d : Duration} (h : Denotes cs d.nanos) : read cs = .ok d := by
  -- the bound of the duration is what keeps the sums from being refused
  have hle := d.bounded
  generalize hnanos : d.nanos = n at h hle
  cases h with
  | @plain _ k hmagnitude =>
    have hsign : cs.head? ≠ some '-' := by
      intro hhead
      obtain ⟨rest, rfl⟩ := List.head?_eq_some_iff.mp hhead
      exact hmagnitude.ne_minus
    have hlt : k < 1 <<< 127 := Nat.lt_of_le_of_lt hle (by decide)
    have hof : ofTotal? k = some d :=
      (ofTotal?_natCast k).trans (ofNanos?_eq_some_iff.mpr ⟨hle, hnanos⟩)
    rw [read_unsigned hsign, hmagnitude.readMagnitude_eq hlt, ok_bind, hof]
  | @negated text k hmagnitude =>
    rw [Int.natAbs_neg] at hle
    have hlt : k < 1 <<< 127 := Nat.lt_of_le_of_lt hle (by decide)
    have hof : ofTotal? k = some ⟨k, hle⟩ :=
      (ofTotal?_natCast k).trans (ofNanos?_eq_some_iff.mpr ⟨hle, rfl⟩)
    rw [read_minus, hmagnitude.readMagnitude_eq hlt, ok_bind, hof]
    cases d
    subst hnanos
    rfl

/-- What is read denotes the duration, or it ends in an overflow that is not checked. -/
theorem denotes_of_read {d : Duration} (h : read cs = .ok d) :
    Denotes cs d.nanos ∨ Build.overflowChecks = false ∧ Overflows cs [] := by
  have htotal : ∀ {n : Nat} {d : Duration}, ofTotal? n = some d → d.nanos = n := by
    intro n d hof
    exact (ofNanos?_eq_some_iff.mp ((ofTotal?_natCast n).symm.trans hof)).2
  by_cases hsign : cs.head? = some '-'
  · obtain ⟨body, rfl⟩ := List.head?_eq_some_iff.mp hsign
    rw [read_minus] at h
    obtain ⟨k, hread, h⟩ := bind_eq_ok.mp h
    rcases magnitude_of_readMagnitude hread with ⟨n, hmagnitude, rfl⟩ | ⟨hchecks, hoverflow⟩
    · split at h
      · next d' hof =>
        obtain rfl := Except.ok.inj h
        have hnanos : d'.neg.nanos = -n := congrArg Neg.neg (htotal hof)
        rw [hnanos]
        exact .inl (.negated hmagnitude)
      · cases h
    · exact .inr ⟨hchecks, hoverflow.cons rfl⟩
  · rw [read_unsigned hsign] at h
    obtain ⟨k, hread, h⟩ := bind_eq_ok.mp h
    rcases magnitude_of_readMagnitude hread with ⟨n, hmagnitude, rfl⟩ | ⟨hchecks, hoverflow⟩
    · split at h
      · next d' hof =>
        obtain rfl := Except.ok.inj h
        rw [htotal hof]
        exact .inl (.plain hmagnitude)
      · cases h
    · exact .inr ⟨hchecks, hoverflow⟩

omit [Build] in
/-- What a build with checks does not stop at, every build reads in the same way. -/
theorem follows_read {build checking : Build} (h : checking.overflowChecks = true)
    {cs : List Char} : Follows (@read build cs) (@read checking cs) := by
  unfold read
  split
  exact (follows_readMagnitude h).bind fun _ => .refl _

/-- The text ends in seconds that overflow, and the reader comes to add their fraction: a build with
checks stops at the sum. -/
def SumOverflows (cs : List Char) : Prop :=
  Overflows cs [] ∧ @read .checked cs = .error .overflow

/-- What is read denotes the duration, but for an overflow. -/
theorem denotes_of_read_of_not_sumOverflows {d : Duration} (h : ¬ SumOverflows cs)
    (hread : read cs = .ok d) : Denotes cs d.nanos := by
  by_cases hstop : @read .checked cs = .error .overflow
  · exact (denotes_of_read hread).resolve_right fun ⟨_, hoverflow⟩ => h ⟨hoverflow, hstop⟩
  · rw [follows_read rfl hstop] at hread
    exact (@denotes_of_read _ .checked _ hread).resolve_right fun ⟨hchecks, _⟩ => nomatch hchecks

/-- A text is read as a duration exactly if it denotes a number of nanoseconds within the bounds,
and then as the duration of these. Seconds that overflow are left out. -/
theorem read_eq_ok_iff_denotes {cs : List Char} (h : ¬ SumOverflows cs) (d : Duration) :
    read cs = .ok d ↔
      ∃ n, Denotes cs n ∧ n.natAbs ≤ (2 ^ 63 - 1) * 1000000 ∧ d.nanos = n := by
  constructor
  · exact fun hread => ⟨d.nanos, denotes_of_read_of_not_sumOverflows h hread, d.bounded, rfl⟩
  · rintro ⟨_, hdenotes, -, rfl⟩
    exact read_of_denotes hdenotes

end

/-- A negative duration with a fraction of a second is read. -/
theorem read_eq_ok_iff_denotes_fraction :
    ∃ d, read "-P1DT2.5S".toList = .ok d ∧ d.nanos = -86402500000000 := by
  have hshort : ¬ SumOverflows "-P1DT2.5S".toList :=
    fun h => absurd h.1.le_length (by decide)
  have hday : Part 'D' ['1', 'D'] 1 := @Part.given _ ['1'] _ rfl (.inl rfl)
  have hseconds : SecondsPart "2.5S".toList 2 500000000 :=
    .given (@Seconds.fractional ['2'] ['5'] rfl rfl (by decide)) (.inl rfl)
  have hdenotes : Denotes "-P1DT2.5S".toList (-86402500000000) :=
    .negated (.iso (.dateAndTime (.inl rfl) (.inl rfl) (.mk .absent .absent .absent hday)
      (.mk .absent .absent hseconds) nofun))
  exact ⟨⟨-86402500000000, by decide⟩,
    (read_eq_ok_iff_denotes hshort _).mpr ⟨_, hdenotes, by decide, rfl⟩, rfl⟩

/-- The program stops only in a build with checks, and only at seconds that overflow. -/
theorem overflows_of_read [Build] (h : read cs = .error .overflow) :
    Build.overflowChecks = true ∧ ∃ rest, Overflows cs rest := by
  have hno : ∀ {k : Int} (f : Duration → Duration),
      (match ofTotal? k with
        | some d => Except.ok (f d)
        | none => .error Fault.outOfRange) ≠ .error .overflow := by
    intro k f
    split <;> nofun
  by_cases hsign : cs.head? = some '-'
  · obtain ⟨body, rfl⟩ := List.head?_eq_some_iff.mp hsign
    rcases bind_eq_error.mp h with hread | ⟨k, -, h⟩
    · obtain ⟨hchecks, rest, hoverflow⟩ := overflows_of_readMagnitude hread
      exact ⟨hchecks, rest, hoverflow.cons rfl⟩
    · exact absurd h (hno neg)
  · rw [read_unsigned hsign] at h
    rcases bind_eq_error.mp h with hread | ⟨k, -, h⟩
    · exact overflows_of_readMagnitude hread
    · exact absurd h (hno id)

/-- A text whose seconds overflow. The minutes are chosen so that the sum comes back into the bounds
where it wraps around. -/
def wrapping : String :=
  "P1DT2835686391007820528861455061M170141183460469231731687303715.9S"

theorem denotes_wrapping :
    Denotes wrapping.toList 340282366920938463463374693775900000000 := by
  have hday : Part 'D' ['1', 'D'] 1 := @Part.given _ ['1'] _ rfl (.inl rfl)
  have hminutes : Part 'M' "2835686391007820528861455061M".toList 2835686391007820528861455061 :=
    @Part.given _ "2835686391007820528861455061".toList _ rfl (.inl rfl)
  have hseconds : SecondsPart "170141183460469231731687303715.9S".toList
      170141183460469231731687303715 900000000 :=
    .given (@Seconds.fractional "170141183460469231731687303715".toList ['9'] rfl rfl
      (by decide)) (.inl rfl)
  exact .plain (.iso (.dateAndTime (.inl rfl) (.inl rfl) (.mk .absent .absent .absent hday)
    (.mk .absent hminutes hseconds) nofun))

example : (read wrapping.toList).map nanos = .ok 86344131788544 := by
  decide +kernel

example : @read .checked wrapping.toList = .error .overflow := by
  decide +kernel

-- ---------------------------------------------------------------------------
-- What is written
-- ---------------------------------------------------------------------------

/-- The text of a duration denotes it. -/
theorem denotes_chars (d : Duration) : Denotes d.chars d.nanos :=
  (normal_iff.mpr rfl).denotes

/-- Every duration is read back from its text. -/
theorem read_chars [Build] (d : Duration) : read d.chars = .ok d :=
  read_of_denotes (denotes_chars d)

end ClusterFilter.Duration
