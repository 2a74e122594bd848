import ClusterFilter.Proofs.Text.Run
import ClusterFilter.Text.Decimal

/-!
# ClusterFilter — numerals read back

What the readers of numerals accept, and that they give back the numbers that were written.
-/

namespace ClusterFilter.Text

-- ---------------------------------------------------------------------------
-- What is read
-- ---------------------------------------------------------------------------

theorem isNumeral_iff {cs : List Char} :
    isNumeral cs = true ↔ cs ≠ [] ∧ ∀ x ∈ cs, x.isDigit = true := by
  rw [isNumeral, Bool.and_eq_true, Bool.not_eq_true', List.isEmpty_eq_false_iff,
    List.all_eq_true]

theorem readNumeral?_of_isNumeral {cs : List Char} (h : isNumeral cs = true) :
    readNumeral? cs = some (digitsValue cs) :=
  if_pos h

theorem readNumeral?_isSome {cs : List Char} :
    (readNumeral? cs).isSome = true ↔ isNumeral cs = true := by
  unfold readNumeral?
  split
  · next h => exact ⟨fun _ => h, fun _ => rfl⟩
  · next h => exact ⟨nofun, fun h' => absurd h' h⟩

theorem toNat_of_isDigit {c : Char} (h : c.isDigit = true) : 48 ≤ c.toNat ∧ c.toNat ≤ 57 := by
  unfold Char.isDigit at h
  rw [Bool.and_eq_true, decide_eq_true_eq, decide_eq_true_eq] at h
  exact h

/-- The first digit counts as often as the digits behind it make a power of ten. -/
theorem digitsValue_cons (c : Char) (cs : List Char) :
    digitsValue (c :: cs) = Nat.pow 10 cs.length * (c.toNat - 48) + digitsValue cs := by
  rw [digitsValue, Nat.ofDigitChars_cons, Nat.ofDigitChars_eq_ofDigitChars_zero, digitsValue,
    Nat.mul_zero, Nat.zero_add]
  rfl

/-- A numeral is less than the power of ten with as many zeros as the numeral has digits. -/
theorem digitsValue_lt {cs : List Char} (h : ∀ x ∈ cs, x.isDigit = true) :
    digitsValue cs < Nat.pow 10 cs.length := by
  induction cs with
  | nil => exact Nat.one_pos
  | cons c cs ih =>
    obtain ⟨hc, hcs⟩ := List.forall_mem_cons.mp h
    have hrest := ih hcs
    have hdigit : c.toNat - 48 ≤ 9 := by
      have := (toNat_of_isDigit hc).2
      omega
    have hhead := Nat.mul_le_mul_left (Nat.pow 10 cs.length) hdigit
    have hpow : Nat.pow 10 (cs.length + 1) = Nat.pow 10 cs.length * 10 := rfl
    rw [digitsValue_cons, List.length_cons, hpow]
    omega

/-- Runs of digits of one length and one value are the same. -/
theorem digitsValue_inj {as bs : List Char} (ha : ∀ x ∈ as, x.isDigit = true)
    (hb : ∀ x ∈ bs, x.isDigit = true) (hlength : as.length = bs.length)
    (h : digitsValue as = digitsValue bs) : as = bs := by
  induction as generalizing bs with
  | nil => exact (List.eq_nil_of_length_eq_zero hlength.symm).symm
  | cons a as ih =>
    obtain ⟨b, bs, rfl⟩ := List.exists_cons_of_length_eq_add_one hlength.symm
    obtain ⟨ha, has⟩ := List.forall_mem_cons.mp ha
    obtain ⟨hb, hbs⟩ := List.forall_mem_cons.mp hb
    have hlength : as.length = bs.length := Nat.succ.inj hlength
    -- the digits behind the first are the remainder of the value by their power of ten
    have hsplit : ∀ {c : Char} {cs : List Char}, (∀ x ∈ cs, x.isDigit = true) →
        digitsValue (c :: cs) / Nat.pow 10 cs.length = c.toNat - 48 ∧
          digitsValue (c :: cs) % Nat.pow 10 cs.length = digitsValue cs := by
      intro c cs hcs
      have hlt := digitsValue_lt hcs
      rw [digitsValue_cons, Nat.mul_add_div (Nat.pos_of_ne_zero (by omega)), Nat.div_eq_of_lt hlt,
        Nat.mul_add_mod, Nat.mod_eq_of_lt hlt]
      exact ⟨rfl, rfl⟩
    obtain ⟨hhead, htail⟩ := hsplit (c := a) has
    obtain ⟨hhead', htail'⟩ := hsplit (c := b) hbs
    rw [h, hlength, hhead'] at hhead
    rw [h, hlength, htail'] at htail
    have hcode : a.toNat = b.toNat := by
      have := toNat_of_isDigit ha
      have := toNat_of_isDigit hb
      omega
    rw [Char.toNat_inj.mp hcode, ih has hbs hlength htail.symm]

theorem readInteger?_minus (cs : List Char) :
    readInteger? ('-' :: cs) = (readNumeral? cs).map fun n => -Int.ofNat n := by
  cases h : readNumeral? cs <;> simp [readInteger?, h]

theorem readInteger?_plus (cs : List Char) :
    readInteger? ('+' :: cs) = (readNumeral? cs).map Int.ofNat := by
  cases h : readNumeral? cs <;> simp [readInteger?, h]

theorem readInteger?_plain {cs : List Char} (hminus : cs.head? ≠ some '-')
    (hplus : cs.head? ≠ some '+') : readInteger? cs = (readNumeral? cs).map Int.ofNat := by
  unfold readInteger?
  split
  · exact absurd rfl hminus
  · exact absurd rfl hplus
  · cases h : readNumeral? cs <;> simp

/-- A text is read as an integer if a numeral is left behind an optional sign. -/
theorem readInteger?_isSome {cs : List Char} :
    (readInteger? cs).isSome = true ↔
      ∃ sign numeral, cs = sign ++ numeral ∧ (sign = [] ∨ sign = ['+'] ∨ sign = ['-']) ∧
        isNumeral numeral = true := by
  have hdigit : ∀ {x : Char} {numeral tail : List Char}, x.isDigit = false →
      x :: tail = numeral → ¬ isNumeral numeral = true := by
    rintro x _ tail hx rfl hnum
    rw [(isNumeral_iff.mp hnum).2 x (List.mem_cons_self ..)] at hx
    cases hx
  by_cases hminus : cs.head? = some '-'
  · obtain ⟨ds, rfl⟩ := List.head?_eq_some_iff.mp hminus
    rw [readInteger?_minus, Option.isSome_map, readNumeral?_isSome]
    constructor
    · exact fun h => ⟨['-'], ds, rfl, .inr (.inr rfl), h⟩
    · rintro ⟨sign, numeral, hsplit, rfl | rfl | rfl, hnum⟩
      · exact absurd hnum (hdigit rfl hsplit)
      · cases hsplit
      · injection hsplit with _ h
        exact h ▸ hnum
  · by_cases hplus : cs.head? = some '+'
    · obtain ⟨ds, rfl⟩ := List.head?_eq_some_iff.mp hplus
      rw [readInteger?_plus, Option.isSome_map, readNumeral?_isSome]
      constructor
      · exact fun h => ⟨['+'], ds, rfl, .inr (.inl rfl), h⟩
      · rintro ⟨sign, numeral, hsplit, rfl | rfl | rfl, hnum⟩
        · exact absurd hnum (hdigit rfl hsplit)
        · injection hsplit with _ h
          exact h ▸ hnum
        · cases hsplit
    · rw [readInteger?_plain hminus hplus, Option.isSome_map, readNumeral?_isSome]
      constructor
      · exact fun h => ⟨[], cs, rfl, .inl rfl, h⟩
      · rintro ⟨sign, numeral, rfl, rfl | rfl | rfl, hnum⟩
        · exact hnum
        · exact absurd rfl hplus
        · exact absurd rfl hminus

-- ---------------------------------------------------------------------------
-- What is written is read back
-- ---------------------------------------------------------------------------

theorem isDigit_of_mem_digits {n : Nat} {x : Char} (h : x ∈ digits n) : x.isDigit = true :=
  Nat.isDigit_of_mem_toDigits (by decide) (by decide) h

theorem digits_ne_nil (n : Nat) : digits n ≠ [] :=
  Nat.toDigits_ne_nil

theorem isNumeral_digits (n : Nat) : isNumeral (digits n) = true :=
  isNumeral_iff.mpr ⟨digits_ne_nil n, fun _ => isDigit_of_mem_digits⟩

theorem digitsValue_digits (n : Nat) : digitsValue (digits n) = n :=
  Nat.ofDigitChars_ten_toDigits

theorem readNumeral?_digits (n : Nat) : readNumeral? (digits n) = some n := by
  rw [readNumeral?_of_isNumeral (isNumeral_digits n), digitsValue_digits]

/-- Every integer is read back from its numeral. -/
theorem readInteger?_signedDigits (n : Int) : readInteger? (signedDigits n) = some n := by
  cases n with
  | ofNat n =>
    have hhead : ∀ {x : Char}, x.isDigit = false → (digits n).head? ≠ some x := by
      intro x hx h
      rw [isDigit_of_mem_digits (List.mem_of_mem_head? h)] at hx
      cases hx
    rw [signedDigits, readInteger?_plain (hhead rfl) (hhead rfl), readNumeral?_digits]
    rfl
  | negSucc n =>
    rw [signedDigits, readInteger?_minus, readNumeral?_digits]
    rfl

-- ---------------------------------------------------------------------------
-- Numerals of fixed width
-- ---------------------------------------------------------------------------

theorem isDigit_of_mem_paddedDigits {width n : Nat} {x : Char} (h : x ∈ paddedDigits width n) :
    x.isDigit = true := by
  rcases List.mem_append.mp h with h | h
  · rw [(List.mem_replicate.mp h).2]
    rfl
  · exact isDigit_of_mem_digits h

/-- Zeros in front do not count. -/
theorem digitsValue_paddedDigits (width n : Nat) : digitsValue (paddedDigits width n) = n := by
  unfold digitsValue paddedDigits
  rw [Nat.ofDigitChars_append, Nat.ofDigitChars_replicate_zero, Nat.mul_zero]
  exact digitsValue_digits n

/-- A number below `10 ^ width` fits the width exactly. -/
theorem length_paddedDigits {width n : Nat} (hwidth : 0 < width) (hn : n < Nat.pow 10 width) :
    (paddedDigits width n).length = width := by
  have hlength : (digits n).length ≤ width :=
    (Nat.length_toDigits_le_iff (by decide) hwidth).mpr hn
  rw [paddedDigits, List.length_append, List.length_replicate]
  omega

theorem le_length_paddedDigits (width n : Nat) : width ≤ (paddedDigits width n).length := by
  rw [paddedDigits, List.length_append, List.length_replicate]
  omega

/-- A run of digits is the numeral of its value in its own width. -/
theorem paddedDigits_digitsValue {cs : List Char} (hne : cs ≠ [])
    (h : ∀ x ∈ cs, x.isDigit = true) : paddedDigits cs.length (digitsValue cs) = cs :=
  digitsValue_inj (fun _ => isDigit_of_mem_paddedDigits) h
    (length_paddedDigits (List.length_pos_iff.mpr hne) (digitsValue_lt h))
    (digitsValue_paddedDigits _ _)

theorem isDigit_of_head?_paddedDigits {width n : Nat} {rest : List Char} :
    ∀ x ∈ (paddedDigits width n ++ rest).head?, x.isDigit = true := by
  intro x hx
  obtain ⟨y, ys, hy⟩ : ∃ y ys, paddedDigits width n = y :: ys :=
    List.exists_cons_of_ne_nil (List.append_ne_nil_of_right_ne_nil _ (digits_ne_nil n))
  have hdigit : y ∈ paddedDigits width n := hy ▸ List.mem_cons_self ..
  rw [hy, List.cons_append, List.head?_cons, Option.mem_some_iff] at hx
  exact hx ▸ isDigit_of_mem_paddedDigits hdigit

/-- A numeral of fixed width is taken off the front of a text. -/
theorem takeDigits?_paddedDigits {width n : Nat} (hwidth : 0 < width) (hn : n < Nat.pow 10 width)
    (rest : List Char) :
    takeDigits? width width (paddedDigits width n ++ rest) = some (n, rest) := by
  have hlength := length_paddedDigits hwidth hn
  have htake : (paddedDigits width n ++ rest).take width = paddedDigits width n :=
    List.take_left' hlength
  have hrun : (paddedDigits width n).takeWhile Char.isDigit = paddedDigits width n :=
    (takeWhile_eq_self fun _ => isDigit_of_mem_paddedDigits).1
  unfold takeDigits?
  dsimp only
  rw [htake, hrun, hlength, if_neg (Nat.lt_irrefl width), digitsValue_paddedDigits,
    List.drop_left' hlength]

/-- Numerals of one width that begin the same text are numerals of one number. -/
theorem paddedDigits_append_inj {width n m : Nat} {rest rest' : List Char} (hwidth : 0 < width)
    (hn : n < Nat.pow 10 width) (hm : m < Nat.pow 10 width)
    (h : paddedDigits width n ++ rest = paddedDigits width m ++ rest') : n = m ∧ rest = rest' := by
  have hread := congrArg (takeDigits? width width) h
  rw [takeDigits?_paddedDigits hwidth hn, takeDigits?_paddedDigits hwidth hm] at hread
  injection hread with hread
  injection hread with hnumber hrest
  exact ⟨hnumber, hrest⟩

-- ---------------------------------------------------------------------------
-- Numerals at the front of a text
-- ---------------------------------------------------------------------------

theorem isBlank_eq_false_of_isDigit {x : Char} (h : x.isDigit = true) : isBlank x = false := by
  obtain ⟨hmin, hmax⟩ := toNat_of_isDigit h
  unfold isBlank
  simp only [Bool.or_eq_false_iff, Bool.and_eq_false_iff, decide_eq_false_iff_not,
    beq_eq_false_iff_ne]
  omega

/-- The digits that are taken do not go beyond the digits at the front. -/
theorem takeWhile_take_append {most : Nat} {run rest : List Char}
    (hrun : ∀ x ∈ run, x.isDigit = true) (hmost : run.length ≤ most)
    (hrest : ∀ x ∈ rest.head?, x.isDigit = false) :
    ((run ++ rest).take most).takeWhile Char.isDigit = run := by
  rw [List.take_append, List.take_of_length_le hmost]
  refine (takeWhile_append_of_head hrun fun x hx => ?_).1
  rw [List.head?_take] at hx
  split at hx
  · cases hx
  · exact hrest x hx

/-- A run of digits is taken off the front of a text, if its length is allowed. -/
theorem takeDigits?_append {least most : Nat} {run rest : List Char}
    (hrun : ∀ x ∈ run, x.isDigit = true) (hleast : least ≤ run.length) (hmost : run.length ≤ most)
    (hrest : ∀ x ∈ rest.head?, x.isDigit = false) :
    takeDigits? least most (run ++ rest) = some (digitsValue run, rest) := by
  unfold takeDigits?
  dsimp only
  rw [takeWhile_take_append hrun hmost hrest, if_neg (Nat.not_lt.mpr hleast), List.drop_left' rfl]

theorem takeDigits?_eq_none {least most : Nat} {cs : List Char} (hleast : 0 < least)
    (h : ∀ x ∈ cs.head?, x.isDigit = false) : takeDigits? least most cs = none := by
  have htake : (([] ++ cs).take most).takeWhile Char.isDigit = [] :=
    takeWhile_take_append nofun (Nat.zero_le _) h
  unfold takeDigits?
  dsimp only
  rw [List.nil_append] at htake
  rw [htake]
  exact if_pos hleast

/-- What is taken is less than the power of ten with as many zeros as there may be digits. -/
theorem takeDigits?_lt {least most n : Nat} {cs rest : List Char}
    (h : takeDigits? least most cs = some (n, rest)) : n < Nat.pow 10 most := by
  unfold takeDigits? at h
  dsimp only at h
  split at h
  · cases h
  · injection h with h
    injection h with hn
    rw [← hn]
    have hrun : ∀ x ∈ (cs.take most).takeWhile Char.isDigit, x.isDigit = true := fun _ =>
      List.mem_takeWhile_imp
    have hlength : ((cs.take most).takeWhile Char.isDigit).length ≤ most :=
      Nat.le_trans (List.takeWhile_sublist _).length_le (List.length_take_le ..)
    exact Nat.lt_of_lt_of_le (digitsValue_lt hrun) (Nat.pow_le_pow_right (by decide) hlength)

-- ---------------------------------------------------------------------------
-- Where a numeral ends
-- ---------------------------------------------------------------------------

/-- Characters of the numeral of an integer. -/
def isSignedChar (x : Char) : Bool :=
  x.isDigit || x == '-'

/-- No character follows that could belong to a numeral. -/
def EndsNumeral (rest : List Char) : Prop :=
  ∀ x ∈ rest.head?, isSignedChar x = false

theorem endsNumeral_nil : EndsNumeral [] :=
  fun _ hx => nomatch hx

theorem isSignedChar_of_mem_signedDigits {n : Int} {x : Char} (h : x ∈ signedDigits n) :
    isSignedChar x = true := by
  have hdigits : ∀ {n : Nat}, x ∈ digits n → isSignedChar x = true := by
    intro n hx
    rw [isSignedChar, isDigit_of_mem_digits hx, Bool.true_or]
  cases n with
  | ofNat n => exact hdigits h
  | negSucc n =>
    rcases List.mem_cons.mp h with rfl | h
    · rfl
    · exact hdigits h

/-- Numerals that begin the same text are numerals of one integer, if they end where they stop. -/
theorem signedDigits_append_inj {n m : Int} {rest rest' : List Char} (hrest : EndsNumeral rest)
    (hrest' : EndsNumeral rest') (h : signedDigits n ++ rest = signedDigits m ++ rest') :
    n = m ∧ rest = rest' := by
  obtain ⟨htake, hdrop⟩ :=
    takeWhile_append_of_head (fun _ => isSignedChar_of_mem_signedDigits (n := n)) hrest
  obtain ⟨htake', hdrop'⟩ :=
    takeWhile_append_of_head (fun _ => isSignedChar_of_mem_signedDigits (n := m)) hrest'
  have hdigits : signedDigits n = signedDigits m := by
    rw [← htake, h, htake']
  have hread := congrArg readInteger? hdigits
  rw [readInteger?_signedDigits, readInteger?_signedDigits] at hread
  refine ⟨Option.some.inj hread, ?_⟩
  rw [← hdrop, h, hdrop']

end ClusterFilter.Text
