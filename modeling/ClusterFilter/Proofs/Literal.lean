import ClusterFilter.Literal
import ClusterFilter.Proofs.Expression.Comparison
import ClusterFilter.Proofs.Time.Duration
import ClusterFilter.Proofs.Time.Instant

/-!
# ClusterFilter — values read back

The text of a value stands in an expression as a literal of the value's kind, and has the value.
A string stands bare or quoted; the texts of all other values are bare, whatever the value. Bare
texts have no end of their own, so that a literal is one only where a character follows that ends
it, or none.

Main results:

* `Value.literal_chars` — the text of a value is a literal, and the literal is read as the value.
-/

namespace ClusterFilter

open Grammar Token

-- ---------------------------------------------------------------------------
-- Bare texts
-- ---------------------------------------------------------------------------

theorem Text.isBareChar_of_isDigit {x : Char} (h : x.isDigit = true) : isBareChar x = true := by
  apply isBareChar_of_isWordChar
  rw [isWordChar, Char.isAlphanum, h, Bool.or_true, Bool.true_or]

namespace Value

/-- The text consists of characters of bare texts. -/
def AllBare (cs : List Char) : Prop :=
  ∀ x ∈ cs, Text.isBareChar x = true

theorem allBare_nil : AllBare [] :=
  nofun

theorem allBare_append {a b : List Char} : AllBare (a ++ b) ↔ AllBare a ∧ AllBare b :=
  List.forall_mem_append

theorem allBare_cons {x : Char} {cs : List Char} :
    AllBare (x :: cs) ↔ Text.isBareChar x = true ∧ AllBare cs :=
  List.forall_mem_cons

theorem allBare_digits (n : Nat) : AllBare (Text.digits n) :=
  fun _ hx => Text.isBareChar_of_isDigit (Text.isDigit_of_mem_digits hx)

theorem allBare_paddedDigits (width n : Nat) : AllBare (Text.paddedDigits width n) :=
  fun _ hx => Text.isBareChar_of_isDigit (Text.isDigit_of_mem_paddedDigits hx)

theorem allBare_signedDigits (n : Int) : AllBare (Text.signedDigits n) := by
  cases n with
  | ofNat n => exact allBare_digits n
  | negSucc n => exact allBare_cons.mpr ⟨by decide, allBare_digits (n + 1)⟩

theorem allBare_date (d : Date) : AllBare d.chars := by
  have hyear : AllBare (Date.yearChars d.year) := by
    unfold Date.yearChars
    split
    · exact allBare_paddedDigits _ _
    · refine allBare_cons.mpr ⟨?_, allBare_paddedDigits _ _⟩
      split <;> decide
  unfold Date.chars
  simp only [allBare_append, allBare_cons, allBare_paddedDigits, hyear, and_true, true_and]
  decide

theorem allBare_instant (t : Instant) : AllBare t.chars := by
  have hfraction : AllBare (Instant.fractionChars t.shownNanos) := by
    unfold Instant.fractionChars
    split
    · exact allBare_nil
    · split
      · exact allBare_cons.mpr ⟨by decide, allBare_paddedDigits _ _⟩
      · split
        · exact allBare_cons.mpr ⟨by decide, allBare_paddedDigits _ _⟩
        · exact allBare_cons.mpr ⟨by decide, allBare_paddedDigits _ _⟩
  unfold Instant.chars
  simp only [allBare_append, allBare_cons, allBare_nil, allBare_paddedDigits, allBare_date,
    hfraction, and_true, true_and]
  decide

theorem allBare_duration (d : Duration) : AllBare d.chars := by
  have hpart : ∀ (n : Nat) {unit : Char}, Text.isBareChar unit = true →
      AllBare (Duration.partChars n unit) := by
    intro n unit hunit
    unfold Duration.partChars
    split
    · exact allBare_nil
    · exact allBare_append.mpr ⟨allBare_digits n, allBare_cons.mpr ⟨hunit, allBare_nil⟩⟩
  have hseconds : ∀ required seconds nanos,
      AllBare (Duration.secondsChars required seconds nanos) := by
    intro required seconds nanos
    have hfraction : AllBare (Duration.fractionChars nanos) :=
      fun _ hx => Text.isBareChar_of_isDigit (Duration.isDigit_of_mem_fractionChars hx)
    unfold Duration.secondsChars
    split
    · simp only [allBare_append, allBare_cons, allBare_nil, allBare_digits, hfraction, and_true,
        true_and]
      decide
    · split
      · exact allBare_append.mpr ⟨allBare_digits seconds, allBare_cons.mpr ⟨by decide, allBare_nil⟩⟩
      · exact allBare_nil
  unfold Duration.chars
  dsimp only
  refine allBare_append.mpr ⟨allBare_append.mpr ⟨?_, ?_⟩, ?_⟩
  · split
    · exact allBare_cons.mpr ⟨by decide, allBare_nil⟩
    · exact allBare_nil
  · exact allBare_cons.mpr ⟨by decide, hpart _ (by decide)⟩
  · split
    · exact allBare_nil
    · exact allBare_append.mpr ⟨allBare_append.mpr ⟨allBare_cons.mpr ⟨by decide,
        hpart _ (by decide)⟩, hpart _ (by decide)⟩, hseconds _ _ _⟩

-- ---------------------------------------------------------------------------
-- Literals
-- ---------------------------------------------------------------------------

/-- A date is within the years of four digits, and a status within the vocabulary. -/
def InRange (schema : Schema) : Value → Prop
  | .date t => 0 ≤ t.date.year ∧ t.date.year ≤ 9999
  | .status s => s ∈ schema.statuses.getD []
  | _ => True

/-- A character that ends a bare text follows, or none. -/
def EndsBare (rest : List Char) : Prop :=
  ∀ x ∈ rest.head?, Text.isBareChar x = false

theorem run_of_allBare {cs rest : List Char} (hne : cs ≠ []) (hbare : AllBare cs)
    (hrest : EndsBare rest) : Run Text.isBareChar cs (cs ++ rest) rest :=
  ⟨rfl, hne, hbare, hrest⟩

/-- A string stands bare where it can, and quoted otherwise. -/
theorem literal_bareOrQuoted (s : String) {rest : List Char} (hrest : EndsBare rest) :
    ∃ l : Literal, LiteralToken .string l (Text.bareOrQuoted s.toList ++ rest) rest ∧
      l.text = s := by
  unfold Text.bareOrQuoted
  split
  · next hbare =>
    rw [Text.isBare, Bool.and_eq_true, Bool.not_eq_true', List.isEmpty_eq_false_iff,
      List.all_eq_true] at hbare
    exact ⟨⟨.string, s, false, ⟨0, 0⟩⟩,
      .bare rfl rfl (run_of_allBare hbare.1 hbare.2 hrest) trivial, rfl⟩
  · exact ⟨⟨.string, s, true, ⟨0, 0⟩⟩, .quoted rfl rfl rfl (quoted_quote s.toList rest), rfl⟩

section

variable [Build]

theorem read_number (schema : Schema) (n : Int64) :
    LiteralText.read schema .number (String.ofList (Text.signedDigits n.toInt)) = .ok n := by
  rw [LiteralText.read, String.toList_ofList, LiteralText.readNumber,
    Text.readInteger?_signedDigits]
  dsimp only
  rw [if_pos ⟨Int64.minValue_le_toInt n, Int64.toInt_le n⟩, Int64.ofInt_toInt]

theorem read_date (schema : Schema) {t : Instant} (hyear : 0 ≤ t.date.year ∧ t.date.year ≤ 9999)
    (hregular : t.Regular) :
    LiteralText.read schema .date (String.ofList t.chars) = .ok t := by
  rw [LiteralText.read, String.toList_ofList, LiteralText.readDate,
    Instant.read?_chars hyear.1 hyear.2, Instant.printed_of_regular hregular]

theorem read_duration (schema : Schema) (d : Duration) :
    LiteralText.read schema .duration (String.ofList d.chars) = .ok d := by
  rw [LiteralText.read, String.toList_ofList, LiteralText.readDuration, Duration.read_chars]
  rfl

/-- A status of a resource is found again by its name in lower case, which is a bare text. -/
theorem read_status {r : Resource} {s : Status} (h : s ∈ r.schema.statuses.getD []) :
    LiteralText.read r.schema .status (String.ofList s.chars) = .ok s ∧ AllBare s.chars := by
  have hall : ∀ r : Resource, ∀ s ∈ r.schema.statuses.getD [],
      r.schema.status? (String.ofList s.chars) = some s ∧ s.chars.all Text.isBareChar = true := by
    intro r
    cases r <;> decide +kernel
  obtain ⟨hfound, hbare⟩ := hall r s h
  rw [LiteralText.read, LiteralText.readStatus, hfound]
  exact ⟨rfl, List.all_eq_true.mp hbare⟩

theorem read_status_empty (r : Resource) (s : Status) :
    LiteralText.read r.schema .status (String.ofList []) ≠ .ok s := by
  have hall : ∀ r : Resource, r.schema.status? (String.ofList []) = none := by
    intro r
    cases r <;> decide
  rw [LiteralText.read, LiteralText.readStatus, hall r]
  exact nofun

/-- A bare text of the right shape is a literal. Where it is read as a value it is not empty,
because the empty text is not. -/
theorem literal_of_read {schema : Schema} {kind : ValueKind} {value : kind.Carrier}
    {cs rest : List Char} (hread : LiteralText.read schema kind (String.ofList cs) = .ok value)
    (hempty : LiteralText.read schema kind (String.ofList []) ≠ .ok value) (hbare : AllBare cs)
    (hshape : IsShape kind cs) (hrest : EndsBare rest) :
    ∃ l : Literal, LiteralToken kind l (cs ++ rest) rest ∧
      LiteralText.read schema kind l.text = .ok value := by
  have hne : cs ≠ [] := by
    rintro rfl
    exact hempty hread
  have hrun := run_of_allBare hne hbare hrest
  exact ⟨⟨kind, String.ofList cs, false, ⟨0, 0⟩⟩,
    .bare rfl rfl (by rwa [String.toList_ofList]) (by rwa [String.toList_ofList]), hread⟩

/-- The text of a value is a literal of the value's kind, and the literal is read as the value. -/
theorem literal_chars {r : Resource} {kind : ValueKind} (value : kind.Carrier)
    (hvalue : (ofCarrier kind value).InRange r.schema) (hregular : (ofCarrier kind value).Regular)
    {rest : List Char} (hrest : EndsBare rest) :
    ∃ l : Literal, LiteralToken kind l ((ofCarrier kind value).chars ++ rest) rest ∧
      LiteralText.read r.schema kind l.text = .ok value := by
  cases kind with
  | string =>
    obtain ⟨l, hl, htext⟩ := literal_bareOrQuoted value hrest
    exact ⟨l, hl, congrArg Except.ok htext⟩
  | boolean =>
    cases value with
    | false => exact literal_of_read rfl nofun (List.all_eq_true.mp (by decide)) (.inr rfl) hrest
    | true => exact literal_of_read rfl nofun (List.all_eq_true.mp (by decide)) (.inl rfl) hrest
  | number =>
    have hshape : isShaped .number (Text.signedDigits (Int64.toInt value)) = true := by
      rw [isShaped, Text.readInteger?_signedDigits]
      rfl
    exact literal_of_read (read_number r.schema value) nofun
      (allBare_signedDigits (Int64.toInt value)) (isShaped_iff.mp hshape) hrest
  | date =>
    exact literal_of_read (read_date r.schema hvalue hregular) nofun
      (allBare_instant value) trivial hrest
  | duration =>
    exact literal_of_read (read_duration r.schema value) nofun (allBare_duration value) trivial
      hrest
  | status =>
    obtain ⟨hread, hbare⟩ := read_status hvalue
    exact literal_of_read hread (read_status_empty r value) hbare trivial hrest

end

end Value

end ClusterFilter
