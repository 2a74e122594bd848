import ClusterFilter.Proofs.Expression.Completion

/-!
# ClusterFilter — where field names stand

An expression needs a field name wherever a factor begins that is no group. Which places of a text
these are is said without a reader: the first one is the start of the text, and from each one the
next is reached past an opening parenthesis, or past a whole factor and the keyword behind it
(`NextFactor`). A text may break off behind such a place, or go on in any way.

A name that no field has is an error exactly at such a place. Two gaps are bridged:

* **Places vs loops** — the reader goes through a text in loops within loops, and a place deep in a
  text is behind many rounds of them. A failure at a place is a failure at the place before
  (`Fails.of_next`), so that the way to a place carries it back to the start of the text.
* **Rounds** — the loops are bounded by the length of the text that is left where they start. Any
  larger bound gives the same (`readFactors_rounds`).

Main results:

* `readFactor_unknownField` — where a name is rejected, a factor begins.
* `parse_eq_unknownField_iff` — a text is rejected for a name exactly if it has the name where a
  factor begins, and the grammar does not have it.
-/

namespace ClusterFilter.Grammar

open Token Cursor Relation

-- ---------------------------------------------------------------------------
-- Places of factors
-- ---------------------------------------------------------------------------

/-- From a place where a factor begins, and as many parentheses may be opened as the number says, to
the next one: past an opening parenthesis, or past a factor and a keyword. -/
inductive NextFactor (g : Grammar) : Nat × List Char → Nat × List Char → Prop where
  | opened {room : Nat} {cs rest : List Char} : Blanks cs ('(' :: rest) →
      NextFactor g (room + 1, cs) (room, rest)
  | joined {room : Nat} {f : Factor} {word : String} {cs a b rest : List Char} :
      DerivesFactor g f cs a → f.nesting ≤ room → Blanks a b → word = "and" ∨ word = "or" →
      Keyword word b rest → NextFactor g (room, cs) (room, rest)

/-- The text leads to a place where a factor begins, and behind any white space the name stands
there. -/
def BeginsFactorWithin (g : Grammar) (room : Nat) (cs name : List Char) : Prop :=
  ∃ room' rest place after, ReflTransGen g.NextFactor (room, cs) (room', rest) ∧
    Blanks rest place ∧ Identifier name place after

/-- The name stands in the text at a place where a factor begins. -/
def BeginsFactor (g : Grammar) (text name : String) : Prop :=
  g.BeginsFactorWithin maxNesting text.toList name.toList

variable {g : Grammar} {room room' : Nat} {cs rest name : List Char}

theorem BeginsFactorWithin.of_steps (hsteps : ReflTransGen g.NextFactor (room, cs) (room', rest))
    (h : g.BeginsFactorWithin room' rest name) : g.BeginsFactorWithin room cs name := by
  obtain ⟨room'', rest', place, after, hsteps', hplace⟩ := h
  exact ⟨room'', rest', place, after, hsteps.trans hsteps', hplace⟩

/-- Past the factors of a term and an `or` there is the next place. -/
theorem steps_of_derivesTerm {a b rest : List Char} (hb : Blanks a b)
    (hword : Keyword "or" b rest) : ∀ {t : Term} {cs : List Char}, DerivesTerm g t cs a →
      t.nesting ≤ room → ReflTransGen g.NextFactor (room, cs) (room, rest)
  | .one _, _, .one hf, hdepth => .single (.joined hf hdepth hb (.inr rfl) hword)
  | .more _ _, _, .more hf hb' hword' ht, hdepth =>
    .head (.joined hf (Nat.max_le.mp hdepth).1 hb' (.inl rfl) hword')
      (steps_of_derivesTerm hb hword ht (Nat.max_le.mp hdepth).2)

-- ---------------------------------------------------------------------------
-- Rounds of the loops
-- ---------------------------------------------------------------------------

/-- A part, and with a keyword behind it more parts: either the first part fails, or the others
do. -/
theorem bind_keyword_eq_error {α β γ : Type} {part : Except Failure (α × Cursor)}
    {others : Reader β} {word : String} {one : α → γ} {more : α → β → γ} {failure : Failure} :
    (do
      let (a, c) ← part
      match c.skipBlanks.keyword? word with
      | some c => do
        let (b, c) ← others c
        Except.ok (more a b, c)
      | none => .ok (one a, c)) = .error failure ↔
      part = .error failure ∨ ∃ a c₁ c₂, part = .ok (a, c₁) ∧
        c₁.skipBlanks.keyword? word = some c₂ ∧ others c₂ = .error failure := by
  rw [bind_eq_error]
  refine or_congr_right ⟨?_, ?_⟩
  · rintro ⟨⟨a, c₁⟩, hpart, h⟩
    dsimp only at h
    split at h
    · next c₂ hword => exact ⟨a, c₁, c₂, hpart, hword, bind_ok_eq_error.mp h⟩
    · cases h
  · rintro ⟨a, c₁, c₂, hpart, hword, hothers⟩
    refine ⟨(a, c₁), hpart, ?_⟩
    dsimp only
    rw [hword]
    exact bind_ok_eq_error.mpr hothers

section

variable {factor : Reader Factor} {c : Cursor} {failure : Failure}

theorem readFactors_zero_eq_error :
    readFactors factor 0 c = .error failure ↔ factor c = .error failure :=
  bind_ok_eq_error

theorem readFactors_succ_eq_error {more : Nat} :
    readFactors factor (more + 1) c = .error failure ↔ factor c = .error failure ∨
      ∃ f c₁ c₂, factor c = .ok (f, c₁) ∧ c₁.skipBlanks.keyword? "and" = some c₂ ∧
        readFactors factor more c₂ = .error failure :=
  bind_keyword_eq_error

theorem readFactors_of_error {more : Nat} (h : factor c = .error failure) :
    readFactors factor more c = .error failure := by
  cases more with
  | zero => exact readFactors_zero_eq_error.mpr h
  | succ more => exact readFactors_succ_eq_error.mpr (.inl h)

theorem readTerms_zero_eq_error :
    readTerms factor 0 c = .error failure ↔ readTerm factor c = .error failure :=
  bind_ok_eq_error

theorem readTerms_succ_eq_error {more : Nat} :
    readTerms factor (more + 1) c = .error failure ↔ readTerm factor c = .error failure ∨
      ∃ t c₁ c₂, readTerm factor c = .ok (t, c₁) ∧ c₁.skipBlanks.keyword? "or" = some c₂ ∧
        readTerms factor more c₂ = .error failure :=
  bind_keyword_eq_error

theorem readTerms_of_error {more : Nat} (h : readTerm factor c = .error failure) :
    readTerms factor more c = .error failure := by
  cases more with
  | zero => exact readTerms_zero_eq_error.mpr h
  | succ more => exact readTerms_succ_eq_error.mpr (.inl h)

end

/-- Where factors take something off the text, the loop over them has as many rounds as it needs. -/
theorem readFactors_rounds {factor : Reader Factor}
    (htakes : ∀ {c f after}, factor c = .ok (f, after) → after.rest.length < c.rest.length)
    {more more' : Nat} {c : Cursor} (h : c.rest.length ≤ more) (h' : c.rest.length ≤ more') :
    readFactors factor more c = readFactors factor more' c := by
  induction more generalizing more' c with
  | zero =>
    cases hf : factor c with
    | error failure => rw [readFactors_of_error hf, readFactors_of_error hf]
    | ok read =>
      -- Nothing is left that a factor could take.
      have := htakes (f := read.1) hf
      omega
  | succ more ih =>
    cases hf : factor c with
    | error failure => rw [readFactors_of_error hf, readFactors_of_error hf]
    | ok read =>
      obtain ⟨f, c₁⟩ := read
      have htaken := htakes hf
      cases more' with
      | zero => omega
      | succ more' =>
        rw [readFactors, readFactors, hf]
        dsimp only [bind, Except.bind]
        cases hword : c₁.skipBlanks.keyword? "and" with
        | none => rfl
        | some c₂ =>
          have hkeyword := (keyword?_eq_some_iff.mp ⟨c₂, hword, rfl⟩).length_le
          have hblanks := (blanks_skipBlanks c₁).length_le
          have hrest : readFactors factor more c₂ = readFactors factor more' c₂ :=
            ih (by omega) (by omega)
          dsimp only
          rw [hrest]

-- ---------------------------------------------------------------------------
-- Rejected names
-- ---------------------------------------------------------------------------

theorem readKey_ne_unknownField {c : Cursor} : readKey c ≠ .error (.unknownField name) := by
  intro h
  unfold readKey at h
  dsimp only at h
  repeat' split at h
  all_goals cases h

theorem readKeyOf_ne_unknownField {p : Production} {c : Cursor} :
    readKeyOf p c ≠ .error (.unknownField name) := by
  intro h
  unfold readKeyOf at h
  split at h
  · exact readKey_ne_unknownField (bind_ok_eq_error.mp h)
  · cases h

theorem readOperator_ne_unknownField {comparators : Comparators} {c : Cursor} :
    readOperator comparators c ≠ .error (.unknownField name) := by
  intro h
  unfold readOperator at h
  dsimp only at h
  repeat' split at h
  all_goals cases h

theorem readLiteral_ne_unknownField {kind : ValueKind} {c : Cursor} :
    readLiteral kind c ≠ .error (.unknownField name) := by
  intro h
  unfold readLiteral readBareLiteral at h
  dsimp only at h
  repeat' split at h
  all_goals cases h

/-- A name is rejected where it stands, and because the grammar does not have it. -/
theorem readComparison_eq_unknownField_iff {c : Cursor} :
    g.readComparison c = .error (.unknownField name) ↔
      (∃ after, Identifier name c.rest after) ∧ g.resolve? (String.ofList name) = none := by
  unfold readComparison
  constructor
  · intro h
    split at h
    · cases h
    · next name' afterName hname =>
      split at h
      · next hnone =>
        injection h with h
        injection h with h
        subst h
        exact ⟨⟨_, (identifier?_recognizes ..).mp ⟨afterName, hname, rfl⟩⟩, hnone⟩
      · rcases bind_eq_error.mp h with h | ⟨_, _, h⟩
        · exact absurd h readKeyOf_ne_unknownField
        rcases bind_eq_error.mp h with h | ⟨_, _, h⟩
        · exact absurd h readOperator_ne_unknownField
        · exact absurd (bind_ok_eq_error.mp h) readLiteral_ne_unknownField
  · rintro ⟨⟨rest, hname⟩, hnone⟩
    obtain ⟨afterName, hread, -⟩ := (identifier?_recognizes ..).mpr hname
    rw [hread]
    dsimp only
    rw [hnone]

/-- Where no parenthesis opens, a factor is a comparison, or fails as one. -/
theorem readFactor_of_not_open {c : Cursor} (hopen : c.skipBlanks.char? '(' = none) :
    g.readFactor room c =
      (g.readComparison c.skipBlanks >>= fun (k, c) => .ok (.comparison k, c)) := by
  cases room with
  | zero =>
    rw [readFactor]
    dsimp only
    rw [hopen]
  | succ room =>
    rw [readFactor]
    dsimp only
    rw [hopen]

-- ---------------------------------------------------------------------------
-- Rejected names stand where factors begin
-- ---------------------------------------------------------------------------

/-- The name stands where a factor begins, and the grammar does not have it. -/
def Rejects (g : Grammar) (room : Nat) (cs name : List Char) : Prop :=
  g.BeginsFactorWithin room cs name ∧ g.resolve? (String.ofList name) = none

section

variable {factor : Reader Factor}
  (hsound : ∀ {c f after}, factor c = .ok (f, after) →
    DerivesFactor g f c.rest after.rest ∧ f.nesting ≤ room)
  (hrejects : ∀ {c}, factor c = .error (.unknownField name) → g.Rejects room c.rest name)

include hsound hrejects

theorem readFactors_unknownField {more : Nat} {c : Cursor}
    (h : readFactors factor more c = .error (.unknownField name)) : g.Rejects room c.rest name := by
  induction more generalizing c with
  | zero => exact hrejects (readFactors_zero_eq_error.mp h)
  | succ more ih =>
    rcases readFactors_succ_eq_error.mp h with h | ⟨f, c₁, c₂, hf, hword, h⟩
    · exact hrejects h
    obtain ⟨hderives, hdepth⟩ := hsound hf
    have hnext : g.NextFactor (room, c.rest) (room, c₂.rest) :=
      .joined hderives hdepth (blanks_skipBlanks c₁) (.inl rfl)
        (keyword?_eq_some_iff.mp ⟨c₂, hword, rfl⟩)
    exact (ih h).imp_left (.of_steps (.single hnext))

theorem readTerms_unknownField {more : Nat} {c : Cursor}
    (h : readTerms factor more c = .error (.unknownField name)) : g.Rejects room c.rest name := by
  induction more generalizing c with
  | zero => exact readFactors_unknownField hsound hrejects (readTerms_zero_eq_error.mp h)
  | succ more ih =>
    rcases readTerms_succ_eq_error.mp h with h | ⟨t, c₁, c₂, ht, hword, h⟩
    · exact readFactors_unknownField hsound hrejects h
    obtain ⟨hderives, hdepth⟩ := readFactors_sound hsound ht
    have hsteps := steps_of_derivesTerm (blanks_skipBlanks c₁)
      (keyword?_eq_some_iff.mp ⟨c₂, hword, rfl⟩) hderives hdepth
    exact (ih h).imp_left (.of_steps hsteps)

end

theorem readFactor_unknownField_of_not_open {c : Cursor} (hopen : c.skipBlanks.char? '(' = none)
    (h : g.readFactor room c = .error (.unknownField name)) : g.Rejects room c.rest name := by
  rw [readFactor_of_not_open hopen] at h
  obtain ⟨⟨after, hname⟩, hnone⟩ := readComparison_eq_unknownField_iff.mp (bind_ok_eq_error.mp h)
  exact ⟨⟨room, c.rest, _, after, .refl, blanks_skipBlanks c, hname⟩, hnone⟩

/-- Where a factor is rejected for a name, the name begins it or a factor inside of it. -/
theorem readFactor_unknownField {c : Cursor}
    (h : g.readFactor room c = .error (.unknownField name)) : g.Rejects room c.rest name := by
  induction room generalizing c with
  | zero =>
    cases hopen : c.skipBlanks.char? '(' with
    | none => exact readFactor_unknownField_of_not_open hopen h
    | some c₁ =>
      rw [readFactor] at h
      dsimp only at h
      rw [hopen] at h
      cases h
  | succ room ih =>
    cases hopen : c.skipBlanks.char? '(' with
    | none => exact readFactor_unknownField_of_not_open hopen h
    | some c₁ =>
      rw [readFactor] at h
      dsimp only at h
      rw [hopen] at h
      have hnext : g.NextFactor (room + 1, c.rest) (room, c₁.rest) :=
        .opened ((char?_skipBlanks_iff (by decide)).mp ⟨c₁, hopen, rfl⟩)
      rcases bind_eq_error.mp h with h | ⟨_, _, h⟩
      · exact (readTerms_unknownField readFactor_sound ih h).imp_left (.of_steps (.single hnext))
      · split at h
        · cases h
        · cases h

-- ---------------------------------------------------------------------------
-- Failures are carried back to the start
-- ---------------------------------------------------------------------------

/-- Whatever stands in front of the text, an expression that is read from here on fails. -/
def Fails (g : Grammar) (failure : Failure) (room : Nat) (cs : List Char) : Prop :=
  ∀ c : Cursor, c.rest = cs → ∀ more, cs.length ≤ more →
    readTerms (g.readFactor room) more c = .error failure

variable {failure : Failure}

theorem takes_of_readFactor {c after : Cursor} {f : Factor}
    (h : g.readFactor room c = .ok (f, after)) : after.rest.length < c.rest.length :=
  length_lt_of_derivesFactor (readFactor_sound h).1

/-- Behind a factor and an `and`, a term goes on as it would by itself. -/
theorem readTerm_of_and {c c₁ c₂ : Cursor} {f : Factor} (hf : g.readFactor room c = .ok (f, c₁))
    (hword : c₁.skipBlanks.keyword? "and" = some c₂) :
    readTerm (g.readFactor room) c =
      (readTerm (g.readFactor room) c₂ >>= fun (t, c) => .ok (.more f t, c)) := by
  have htaken := takes_of_readFactor hf
  have hkeyword := (keyword?_eq_some_iff.mp ⟨c₂, hword, rfl⟩).length_le
  have hblanks := (blanks_skipBlanks c₁).length_le
  obtain ⟨n, hn⟩ : ∃ n, c.rest.length = n + 1 := ⟨c.rest.length - 1, by omega⟩
  have hrest : readFactors (g.readFactor room) n c₂ = readTerm (g.readFactor room) c₂ :=
    readFactors_rounds takes_of_readFactor (by omega) (Nat.le_refl _)
  rw [← hrest, readTerm, hn, readFactors, hf]
  dsimp only [bind, Except.bind]
  rw [hword]

/-- A failure at one place is a failure at the place before. -/
theorem Fails.of_next (hg : g.Unambiguous) (hnext : g.NextFactor (room, cs) (room', rest))
    (h : g.Fails failure room' rest) : g.Fails failure room cs := by
  rintro c rfl more hmore
  cases hnext with
  | opened hopen =>
    obtain ⟨c₁, hreadOpen, rfl⟩ := (char?_skipBlanks_iff (by decide)).mpr hopen
    have hfactor : g.readFactor (room' + 1) c = .error failure := by
      rw [readFactor]
      dsimp only
      rw [hreadOpen]
      exact bind_eq_error.mpr (.inl (h c₁ rfl _ (Nat.le_refl _)))
    exact readTerms_of_error (readFactors_of_error hfactor)
  | joined hf hdepth hb hkind hword =>
    obtain ⟨f', c₁, hread, -, rfl⟩ := readFactor_complete hg hf hdepth
    have htaken := takes_of_readFactor hread
    have hgap := hb.length_le
    have htakenWord := hword.length_le
    obtain ⟨n, rfl⟩ : ∃ n, more = n + 1 := ⟨more - 1, by omega⟩
    rcases hkind with rfl | rfl
    · obtain ⟨c₂, hreadWord, rfl⟩ :=
        keyword?_skipBlanks_of_keyword (y := 'a') rfl (by decide) hb hword
      have hterm := readTerm_of_and hread hreadWord
      -- The term goes on behind the keyword, and fails there or in front of the next `or`.
      rcases readTerms_succ_eq_error.mp (h c₂ rfl (n + 1) (by omega)) with
        hfail | ⟨t, c₃, c₄, hrest, hor, hfail⟩
      · rw [hfail] at hterm
        exact readTerms_of_error hterm
      · rw [hrest] at hterm
        exact readTerms_succ_eq_error.mpr (.inr ⟨_, c₃, c₄, hterm, hor, hfail⟩)
    · obtain ⟨c₂, hreadWord, rfl⟩ :=
        keyword?_skipBlanks_of_keyword (y := 'o') rfl (by decide) hb hword
      have hterm : readTerm (g.readFactor room) c = .ok (.one f', c₁) :=
        readFactors_one hread (not_continues_and_of_or hb hword)
      exact readTerms_succ_eq_error.mpr
        (.inr ⟨_, c₁, c₂, hterm, hreadWord, h c₂ rfl n (by omega)⟩)

/-- A failure at a place that the text leads to is one at its start. -/
theorem Fails.of_steps (hg : g.Unambiguous) (h : g.Fails failure room' rest)
    (hsteps : ReflTransGen g.NextFactor (room, cs) (room', rest)) : g.Fails failure room cs := by
  generalize hstart : (room, cs) = start at hsteps
  induction hsteps using ReflTransGen.head_induction_on generalizing room cs with
  | refl =>
    injection hstart with hroom hcs
    exact hroom ▸ hcs ▸ h
  | @head _ next hnext _ ih =>
    subst hstart
    exact Fails.of_next hg hnext (ih rfl)

/-- A name that the grammar does not have is rejected where a factor begins. -/
theorem fails_of_rejects (hg : g.Unambiguous) (h : g.Rejects room cs name) :
    g.Fails (.unknownField name) room cs := by
  obtain ⟨⟨room', rest, place, after, hsteps, hb, hname⟩, hnone⟩ := h
  refine Fails.of_steps hg ?_ hsteps
  rintro c rfl more -
  have hskip := skipBlanks_eq_of_blanks hb hname.startsBare
  have hopen : c.skipBlanks.char? '(' = none := by
    apply char?_eq_none
    rw [hskip]
    exact hname.run.head?_ne (by decide)
  have hcomparison : g.readComparison c.skipBlanks = .error (.unknownField name) :=
    readComparison_eq_unknownField_iff.mpr ⟨⟨after, hskip ▸ hname⟩, hnone⟩
  refine readTerms_of_error (readFactors_of_error ?_)
  rw [readFactor_of_not_open hopen]
  exact bind_ok_eq_error.mpr hcomparison

-- ---------------------------------------------------------------------------
-- Whole texts
-- ---------------------------------------------------------------------------

theorem toError_eq_unknownField {input : List Char} {name : String} :
    failure.toError input = .unknownField name ↔ failure = .unknownField name.toList := by
  cases failure with
  | misfit place found expected => exact ⟨nofun, nofun⟩
  | unknownField cs =>
    rw [Failure.toError, Error.unknownField.injEq, Failure.unknownField.injEq]
    exact ⟨fun h => h ▸ String.toList_ofList.symm, fun h => h ▸ String.ofList_toList⟩

/--
**Rejected names.** Where the alternatives of a grammar have distinct names, a text is rejected for
a name exactly if the name stands where a factor begins, and the grammar does not have it.
-/
theorem parse_eq_unknownField_iff (hg : g.Unambiguous) {text name : String} :
    g.parse text = .error (.unknownField name) ↔
      g.BeginsFactor text name ∧ g.resolve? name = none := by
  have hparse : g.parse text = .error (.unknownField name) ↔
      g.readAll text.toList = .error (.unknownField name.toList) := by
    unfold parse
    cases g.readAll text.toList with
    | ok e => exact ⟨nofun, nofun⟩
    | error failure =>
      dsimp only
      rw [Except.error.injEq, Except.error.injEq, toError_eq_unknownField]
  have hall : g.readAll text.toList = .error (.unknownField name.toList) ↔
      readExpr (g.readFactor maxNesting) (Cursor.start text.toList) =
        .error (.unknownField name.toList) := by
    rw [readAll, bind_eq_error]
    refine or_iff_left ?_
    rintro ⟨_, _, h⟩
    dsimp only at h
    split at h
    · cases h
    · cases h
  rw [hparse, hall]
  constructor
  · intro h
    obtain ⟨hbegins, hnone⟩ := readTerms_unknownField readFactor_sound readFactor_unknownField h
    exact ⟨hbegins, by rwa [String.ofList_toList] at hnone⟩
  · rintro ⟨hbegins, hnone⟩
    have hrejects : g.Rejects maxNesting text.toList name.toList :=
      ⟨hbegins, by rwa [String.ofList_toList]⟩
    exact fails_of_rejects hg hrejects (Cursor.start text.toList) rfl _ (Nat.le_refl _)

end ClusterFilter.Grammar
