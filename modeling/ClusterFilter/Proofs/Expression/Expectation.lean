import ClusterFilter.Proofs.Expression.Position

/-!
# ClusterFilter — what errors expect

An error lists what could have stood at its place. The list holds what it promises, with one
exception: it names an opening parenthesis wherever a factor can begin, also where as many of them
are open as may nest. How many are open is known from the text before the place alone
(`Scan.IsFull`).

An entry holds if every spelling of it can stand there (`Resource.Continues`), behind any white
space, or directly where it does not run together with the text before. An entry that does not hold
fails in every continuation.

Main results:

* `exists_names` — every entry can be spelled, a literal as one that has a value.
* `not_parse_of_isFull` — where as many parentheses are open as may nest, no other one can follow.
* `expected_continues` — all entries of all errors hold, but for the parenthesis.
-/

namespace ClusterFilter

open Grammar Token Relation

/-- As many parentheses are open behind the text as may nest. -/
def Scan.IsFull (before : List Char) : Prop :=
  (outside 0).behind before = outside maxNesting

instance (before : List Char) : Decidable (Scan.IsFull before) :=
  inferInstanceAs (Decidable (_ = _))

namespace Resource

/-- The text is a spelling of the expectation. A literal has a value of its kind. -/
def Names [Build] (r : Resource) (g : Grammar) (x : Expectation) (w : List Char) : Prop :=
  g.Spells x w ∧ ∀ kind, x = .literal kind →
    ∃ l value, LiteralToken kind l w [] ∧ LiteralText.read r.schema kind l.text = .ok value

/-- Whatever spelling of the expectation is written behind the text, the text can be completed to an
expression. Where the text may end, nothing more is needed. -/
def Continues (r : Resource) (g : Grammar) (before : List Char) (x : Expectation) : Prop :=
  ∀ w, g.Spells x w → ∀ gap, Separates x before gap w →
    ∃ cont e, (x = .endOfInput → cont = []) ∧
      r.parse (String.ofList (before ++ (gap ++ (w ++ cont)))) = .ok e

end Resource

-- ---------------------------------------------------------------------------
-- Every entry can be spelled
-- ---------------------------------------------------------------------------

section

variable {r : Resource} {g : Grammar}

/-- Every kind that a field of the resource has can be written as a bare literal with a value. -/
theorem exists_bare_value [Build] (hg : r.grammar = .ok g) {kind : ValueKind}
    (hkind : ∃ p ∈ g.productions, p.token = kind) :
    ∃ cs value, cs ≠ [] ∧ cs.all Text.isBareChar = true ∧ isShaped kind cs = true ∧
      LiteralText.read r.schema kind (String.ofList cs) = .ok value := by
  cases kind with
  | string => exact ⟨['a'], "a", by decide, by decide, rfl, rfl⟩
  | boolean => exact ⟨"true".toList, true, by decide, by decide, rfl, rfl⟩
  | number => exact ⟨['1'], 1, by decide, by decide, rfl, rfl⟩
  | date =>
    obtain ⟨t, ht⟩ := Option.isSome_iff_exists.mp
      (show (Instant.read? "2024-01-01".toList).isSome = true by decide +kernel)
    refine ⟨"2024-01-01".toList, t, by decide, by decide, rfl, ?_⟩
    rw [LiteralText.read, String.toList_ofList, LiteralText.readDate, ht]
  | duration =>
    let day : Duration := ⟨86400000000000, by decide⟩
    have hday : day.chars = "P1D".toList := by decide
    exact ⟨"P1D".toList, day, by decide, by decide, rfl, hday ▸ Value.read_duration r.schema day⟩
  | status =>
    obtain ⟨p, hp, hstatus⟩ := hkind
    have hvocabulary : ∃ s, r.schema.status? "unspecified" = some s := by
      rw [productions_of_generate hg] at hp
      cases r with
      | partition =>
        have hnone : (Resource.partition.schema.fields.filterMap Field.production?).all
            (fun p => p.token != .status) = true := by decide
        have := List.all_eq_true.mp hnone p hp
        rw [hstatus] at this
        cases this
      | _ => exact ⟨_, rfl⟩
    obtain ⟨s, hs⟩ := hvocabulary
    refine ⟨"unspecified".toList, s, by decide, by decide, rfl, ?_⟩
    rw [LiteralText.read, LiteralText.readStatus, String.ofList_toList, hs]

/-- Every token of the grammar of a resource can be written. -/
theorem exists_names [Build] (hg : r.grammar = .ok g) {x : Expectation} (hx : g.HasToken x) :
    ∃ w, r.Names g x w := by
  have hkeyword : ∀ word : String, Keyword word word.toList [] := fun word =>
    ⟨word.toList, (List.append_nil _).symm, beq_self_eq_true (Text.lower word.toList), rfl⟩
  have hquoted : Quoted ['k'] "'k'".toList [] := quoted_quote ['k'] []
  cases x with
  | endOfInput => exact hx.elim
  | andWord => exact ⟨_, hkeyword "and", nofun⟩
  | orWord => exact ⟨_, hkeyword "or", nofun⟩
  | fieldName =>
    obtain ⟨p, hp, hne, hword, hhead⟩ := Resource.hasField hg
    exact ⟨p.field.toList, ⟨p, hp, ⟨(List.append_nil _).symm, hne, hword, nofun⟩, hhead⟩, nofun⟩
  | mapKey =>
    refine ⟨['k'], ⟨['k'], (List.append_nil _).symm, List.cons_ne_nil _ _, ?_, nofun⟩, nofun⟩
    exact List.all_eq_true.mp (by decide)
  | quotedString => exact ⟨_, ⟨['k'], hquoted⟩, nofun⟩
  | comparator op =>
    obtain ⟨used, hsplit, hexchange⟩ :=
      (threads_comparator Parted.severs op).exchange (comparator_symbol op [])
    obtain rfl := List.append_cancel_right hsplit
    have hsymbol := hexchange [] (.inl nofun)
    rw [List.append_nil] at hsymbol
    exact ⟨op.symbol.toList, hsymbol, nofun⟩
  | literal kind =>
    obtain ⟨cs, value, hne, hbare, hshape, hread⟩ := exists_bare_value hg hx
    have hrun : Run Text.isBareChar (String.ofList cs).toList cs [] := by
      rw [String.toList_ofList]
      exact ⟨(List.append_nil _).symm, hne, List.all_eq_true.mp hbare, nofun⟩
    have hl : LiteralToken kind ⟨kind, String.ofList cs, false, ⟨0, 0⟩⟩ cs [] :=
      .bare rfl rfl hrun (by rw [String.toList_ofList]; exact isShaped_iff.mp hshape)
    refine ⟨cs, ⟨_, hl⟩, ?_⟩
    rintro _ ⟨⟩
    exact ⟨_, value, hl, hread⟩
  | _ => exact ⟨_, rfl, nofun⟩

-- ---------------------------------------------------------------------------
-- Where no parenthesis can follow
-- ---------------------------------------------------------------------------

/-- Where as many parentheses are open as may nest, no other one can follow. -/
theorem not_parse_of_isFull {before gap cont : List Char} (hfull : Scan.IsFull before)
    (hgap : ∀ c ∈ gap, Text.isBlank c = true) (e : Expr) :
    r.parse (String.ofList (before ++ (gap ++ '(' :: cont))) ≠ .ok e := by
  obtain ⟨g, hg, -⟩ := r.exists_grammar
  rw [Resource.parse_eq hg]
  intro hparse
  have hcloses := (parse_sound hparse).closes
  rw [String.toList_ofList, ← List.append_assoc] at hcloses
  refine hcloses.not_open ?_
  rw [Scan.behind_append, show (Scan.outside 0).behind before = _ from hfull,
    (closes_of_blank hgap).opens maxNesting]
  rfl

end

-- ---------------------------------------------------------------------------
-- Whole texts
-- ---------------------------------------------------------------------------

/--
**Truthful expectations.** Every entry of the list of an error can be spelled, a literal as one with
a value of its kind, and whatever spelling of it is written at the place of the error, the text can
be completed to an expression; where the list names the end of the text, it is an expression
already. In front of the spelling stands white space, or nothing unless the spelling would go on
with the word or the sign before. The exception is an opening parenthesis at a place where 64
parentheses are open: it is listed as well, but no text with another parenthesis there is an
expression.
-/
theorem expected_continues [Build] (r : Resource) (text : String) (m : Misfit)
    (h : r.parse text = .error (.malformed m)) :
    text.toList = m.before ++ m.after ∧ Text.utf8Length m.before = m.offset ∧
    ∃ g, r.grammar = .ok g ∧ ∀ x ∈ m.expected,
      (∃ w, r.Names g x w) ∧
      (¬ (x = .openParen ∧ Scan.IsFull m.before) → r.Continues g m.before x) ∧
      (x = .openParen ∧ Scan.IsFull m.before →
        ∀ gap cont, (∀ c ∈ gap, Text.isBlank c = true) → ∀ e,
          r.parse (String.ofList (m.before ++ (gap ++ '(' :: cont))) ≠ .ok e) := by
  obtain ⟨g, hg, hunambiguous⟩ := r.exists_grammar
  have hparse := h
  rw [Resource.parse_eq hg] at hparse
  obtain ⟨hsplit, -, hstuck⟩ := Grammar.parse_malformed_stuck (Resource.hasField hg) hparse
  refine ⟨hsplit, rfl, g, hg, fun x hx => ?_⟩
  have hoffers := hstuck x hx
  refine ⟨?_, fun hroom w hw gap hgap => ?_, fun hfull gap cont => not_parse_of_isFull hfull.2⟩
  · rcases hoffers with hoffer | ⟨rfl, -⟩ | ⟨rfl, -⟩
    · exact exists_names hg hoffer.1
    · exact ⟨[], rfl, nofun⟩
    · exact exists_names hg trivial
  · simp only [Resource.parse_eq hg]
    rcases hoffers with hoffer | ⟨rfl, hend⟩ | ⟨rfl, hopens⟩
    · obtain ⟨cont, hcont⟩ := hoffer.2 w hw gap hgap
      obtain ⟨e, he⟩ := exists_parse hunambiguous hcont
      refine ⟨cont, e, ?_, he⟩
      rintro rfl
      exact hoffer.1.elim
    · obtain ⟨e, he⟩ := exists_parse hunambiguous (hend gap hgap.blank)
      obtain rfl : w = [] := hw
      exact ⟨[], e, fun _ => rfl, by rwa [List.append_nil, List.append_nil]⟩
    · refine absurd ⟨rfl, ?_⟩ hroom
      have hbehind := hopens 0
      rwa [Nat.zero_add] at hbehind

/-- Directly behind a name stands a sign. Behind a bare literal stands the end of the text or, after
a space, a keyword in any letter case. -/
theorem expected_continues_priority :
    (∃ m, Resource.partition.parse "priority" = .error (.malformed m) ∧
      m.offset = 8 ∧ .comparator .equal ∈ m.expected ∧
      ∃ cont e, Resource.partition.parse
        (String.ofList ("priority".toList ++ ([] ++ ("=".toList ++ cont)))) = .ok e) ∧
    ∃ m, Resource.partition.parse "priority = 1)" = .error (.malformed m) ∧
      m.offset = 12 ∧ m.expected = [.andWord, .orWord, .endOfInput] ∧
      (∃ cont e, Resource.partition.parse
        (String.ofList ("priority = 1".toList ++ ([' '] ++ ("And".toList ++ cont)))) = .ok e) ∧
      ∃ e, Resource.partition.parse "priority = 1" = .ok e := by
  constructor
  · obtain ⟨m, hm, hbefore, hexpected⟩ : ∃ m,
        Resource.partition.parse "priority" = .error (.malformed m) ∧
        m.before = "priority".toList ∧ .comparator .equal ∈ m.expected :=
      ⟨_, rfl, rfl, by decide⟩
    obtain ⟨-, hoffset, g, -, hcontinues⟩ := expected_continues .partition _ m hm
    rw [hbefore] at hoffset hcontinues
    obtain ⟨-, hequal, -⟩ := hcontinues (.comparator .equal) hexpected
    have hsign : Grammar.Spells g (.comparator .equal) "=".toList :=
      .sign (by decide) rfl (by decide)
    have hmeets : Separates (.comparator .equal) "priority".toList [] "=".toList := by
      refine ⟨nofun, fun _ a _ b hb _ => ?_⟩
      obtain rfl : '=' = b := Option.some.inj hb
      decide
    obtain ⟨cont, e, -, he⟩ := hequal (by decide) _ hsign [] hmeets
    exact ⟨m, hm, hoffset.symm, hexpected, cont, e, he⟩
  obtain ⟨m, hm, hbefore, hexpected⟩ : ∃ m,
      Resource.partition.parse "priority = 1)" = .error (.malformed m) ∧
      m.before = "priority = 1".toList ∧ m.expected = [.andWord, .orWord, .endOfInput] :=
    ⟨_, rfl, rfl, rfl⟩
  obtain ⟨-, hoffset, g, -, hcontinues⟩ := expected_continues .partition _ m hm
  rw [hbefore] at hoffset hcontinues
  rw [hexpected] at hcontinues
  refine ⟨m, hm, hoffset.symm, hexpected, ?_, ?_⟩
  · obtain ⟨-, hand, -⟩ := hcontinues .andWord (by decide)
    have hspells : Keyword "and" "And".toList [] := ⟨"And".toList, rfl, by decide, rfl⟩
    obtain ⟨cont, e, -, he⟩ := hand (by decide) "And".toList hspells [' ']
      ⟨List.forall_mem_singleton.mpr (by decide), nofun⟩
    exact ⟨cont, e, he⟩
  · obtain ⟨-, hend, -⟩ := hcontinues .endOfInput (by decide)
    obtain ⟨cont, e, hcont, he⟩ := hend (by decide) [] rfl [] ⟨nofun, fun _ _ _ => nofun⟩
    rw [hcont rfl] at he
    exact ⟨e, he⟩

/-- Where 64 parentheses are open, the list names another one, and none can follow. -/
theorem expected_beyond_limit :
    ∃ m, Resource.partition.parse (String.ofList (List.replicate 64 '(')) =
        .error (.malformed m) ∧
      m.offset = 64 ∧ m.expected = [.openParen, .fieldName] ∧
      ∀ g w gap cont e, Grammar.Spells g .openParen w → Separates .openParen m.before gap w →
        Resource.partition.parse (String.ofList (m.before ++ (gap ++ (w ++ cont)))) ≠ .ok e := by
  have hm : failure? (Resource.partition.parse (String.ofList (List.replicate 64 '('))) =
      some (.malformed ⟨List.replicate 64 '(', [], none, [.openParen, .fieldName]⟩) := by
    decide +kernel
  have hfull : Scan.IsFull (List.replicate 64 '(') := by decide
  refine ⟨_, failure?_eq_some.mp hm, rfl, rfl, ?_⟩
  rintro g w gap cont e rfl hgap
  exact not_parse_of_isFull hfull hgap.blank e

end ClusterFilter
