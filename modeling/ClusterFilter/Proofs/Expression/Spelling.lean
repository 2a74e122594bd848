import ClusterFilter.Proofs.Expression.Continuation

/-!
# ClusterFilter — spellings of what is expected

An entry of an error's list stands for tokens: a parenthesis is written in one way, a keyword in any
letter case, a literal in as many ways as there are literals of its kind (`Spells`). What the list
promises is a matter of continuations. An entry is offered at the end of a text if every spelling of
it can stand there and the whole can be completed (`Offers`).

Some tokens run together where no white space stands between them: `and` behind a bare literal is
read as more of the literal, and a comparator written as a word behind a name as more of the name.
Others do not, such as a sign behind a name. Which characters may meet depends on the token that is
expected, since it tells what can stand in front of it (`Meets`). White space may stand between any
two tokens (`Separates`).

Main results:

* `Leads.comp`, `Offers.comp` — what a part offers the whole offers, if the parts behind it can be
  written out.
* `Offers.after` — what is offered behind a text that a relation threads is offered by both.
-/

namespace ClusterFilter.Grammar

open Token Relation

-- ---------------------------------------------------------------------------
-- Completing
-- ---------------------------------------------------------------------------

/-- Some token of the kind is taken. -/
def Any {α : Type} (T : α → List Char → List Char → Prop) (cs rest : List Char) : Prop :=
  ∃ a, T a cs rest

/-- Behind a space the text can be completed. -/
def Completes (D : List Char → List Char → Prop) (pre : List Char) : Prop :=
  ∃ cont, D (pre ++ ' ' :: cont) []

section

variable {A B : List Char → List Char → Prop} {pre : List Char}

theorem Completes.imp (h : Completes A pre) (himp : ∀ {cs rest}, A cs rest → B cs rest) :
    Completes B pre := by
  obtain ⟨cont, ha⟩ := h
  exact ⟨cont, himp ha⟩

/-- Behind what is taken to the end of a text, another part can be written after a space. -/
theorem Threads.before_space (hA : Threads Parted A) {cs cont : List Char} (ha : A cs [])
    (hb : B (' ' :: cont) []) : Comp A B (cs ++ ' ' :: cont) [] := by
  obtain ⟨used, hused, hexchange⟩ := hA.exchange ha
  rw [List.append_nil] at hused
  subst hused
  exact ⟨' ' :: cont, hexchange _ (.inl (replaces_space cont [])), hb⟩

theorem Completes.comp (hA : Threads Parted A) (ha : Completes A pre) (hb : Completes B []) :
    Completes (Comp A B) pre := by
  obtain ⟨a, ha⟩ := ha
  obtain ⟨b, hb⟩ := hb
  refine ⟨a ++ ' ' :: b, ?_⟩
  have hboth := hA.before_space ha hb
  rwa [List.append_assoc, List.cons_append] at hboth

end

theorem completes_sign (x : Char) : Completes (Sign x) [] :=
  ⟨[x], blanks_space [x]⟩

theorem completes_run {p : Char → Bool} {word : List Char} (hne : word ≠ [])
    (hall : ∀ x ∈ word, p x = true) : Completes (Comp Blanks (Run p word)) [] :=
  ⟨word, word, blanks_space word, (List.append_nil word).symm, hne, hall, nofun⟩

-- ---------------------------------------------------------------------------
-- Spellings
-- ---------------------------------------------------------------------------

/-- The text is the token, or one of the tokens, that the expectation stands for. Nothing stands for
the end of the text. -/
def Spells (g : Grammar) : Expectation → List Char → Prop
  | .andWord, w => Keyword "and" w []
  | .orWord, w => Keyword "or" w []
  | .endOfInput, w => w = []
  | .openParen, w => w = ['(']
  | .closeParen, w => w = [')']
  | .fieldName, w => ∃ p ∈ g.productions, Identifier p.field.toList w []
  | .dot, w => w = ['.']
  | .openBracket, w => w = ['[']
  | .closeBracket, w => w = [']']
  | .mapKey, w => ∃ key, Run Text.isKeyChar key w []
  | .quotedString, w => ∃ text, Quoted text w []
  | .closingQuote quote, w => w = [quote]
  | .comparator op, w => Comparator op w []
  | .literal kind, w => ∃ l, LiteralToken kind l w []

/-- The grammar has tokens that the expectation stands for: literals only of the classes of its
fields. -/
def HasToken (g : Grammar) : Expectation → Prop
  | .endOfInput => False
  | .literal kind => ∃ p ∈ g.productions, p.token = kind
  | _ => True

/-- Behind the first character, the last one of a text, a token that is expected there can begin
with the second one. A point or a bracket follows a name, and a bare key follows a point. -/
def Meets : Expectation → Char → Char → Prop
  | .dot, _, _ => True
  | .openBracket, _, _ => True
  | .mapKey, _, _ => True
  | .comparator _, a, b => Bounds Text.isKeyChar a b
  | .literal _, a, b => Severs a b
  | _, a, b => Parted a b

/-- White space stands between the text and the expected token, or nothing where they do not run
together. -/
structure Separates (x : Expectation) (before gap after : List Char) : Prop where
  blank : ∀ c ∈ gap, Text.isBlank c = true
  apart : gap = [] → ∀ a ∈ before.getLast?, ∀ b ∈ after.head?, Meets x a b

/-- Where the expected token can stand directly behind a text, the characters that meet are
related. -/
def Follows (g : Grammar) (R : Char → Char → Prop) (x : Expectation) : Prop :=
  ∀ w, g.Spells x w → ∀ a, ∀ b ∈ w.head?, Meets x a b → R a b

/-- Every spelling of the expectation can be completed where it stands. -/
def Leads (g : Grammar) (D : List Char → List Char → Prop) (x : Expectation) : Prop :=
  g.HasToken x ∧ ∀ w, g.Spells x w → ∃ cont, D (w ++ cont) []

/-- Every spelling of the expectation can be completed behind the text. -/
def Offers (g : Grammar) (D : List Char → List Char → Prop) (pre : List Char) (x : Expectation) :
    Prop :=
  g.HasToken x ∧ ∀ w, g.Spells x w → ∀ gap, Separates x pre gap w →
    ∃ cont, D (pre ++ (gap ++ (w ++ cont))) []

variable {g : Grammar} {A B D : List Char → List Char → Prop} {x : Expectation}

/-- A token is not empty. -/
theorem Spells.ne_nil {w : List Char} (h : g.Spells x w) (hx : g.HasToken x) : w ≠ [] := by
  refine List.length_pos_iff.mp ?_
  cases x with
  | endOfInput => exact hx.elim
  | andWord => exact Keyword.length_lt (by decide) h
  | orWord => exact Keyword.length_lt (by decide) h
  | fieldName =>
    obtain ⟨p, -, hname⟩ := h
    exact hname.run.length_lt
  | mapKey =>
    obtain ⟨key, hkey⟩ := h
    exact hkey.length_lt
  | quotedString =>
    obtain ⟨text, htext⟩ := h
    exact htext.length_lt
  | comparator op => exact Comparator.length_lt h
  | literal kind =>
    obtain ⟨l, hl⟩ := h
    exact hl.length_lt
  | _ =>
    subst h
    exact Nat.zero_lt_one

theorem follows_of_meets {R : Char → Char → Prop} (h : ∀ {a b}, Meets x a b → R a b) :
    g.Follows R x :=
  fun _ _ _ _ _ => h

/-- A sign that is no part of a word may stand behind a name. -/
theorem follows_sign (c : Char) (hc : Text.isWordChar c = false)
    (h : ∀ w, g.Spells x w → w = [c]) : g.Follows (Bounds Text.isWordChar) x := by
  intro w hw a b hb _ _
  obtain rfl := h w hw
  obtain rfl : c = b := Option.some.inj hb
  exact hc

-- ---------------------------------------------------------------------------
-- What leads on
-- ---------------------------------------------------------------------------

theorem Leads.imp (h : g.Leads A x) (himp : ∀ {cs rest}, A cs rest → B cs rest) : g.Leads B x := by
  refine ⟨h.1, fun w hw => ?_⟩
  obtain ⟨cont, ha⟩ := h.2 w hw
  exact ⟨cont, himp ha⟩

/-- A part that is only the token. -/
theorem leads_of_token (hx : g.HasToken x) (h : ∀ w, g.Spells x w → D w []) : g.Leads D x :=
  ⟨hx, fun w hw => ⟨[], by rw [List.append_nil]; exact h w hw⟩⟩

theorem Leads.comp (hA : Threads Parted A) (h : g.Leads A x) (hb : Completes B []) :
    g.Leads (Comp A B) x := by
  refine ⟨h.1, fun w hw => ?_⟩
  obtain ⟨a, ha⟩ := h.2 w hw
  obtain ⟨b, hb⟩ := hb
  refine ⟨a ++ ' ' :: b, ?_⟩
  have hboth := hA.before_space ha hb
  rwa [List.append_assoc] at hboth

/-- White space in front of a part may be left out. -/
theorem Leads.blanks (h : g.Leads A x) : g.Leads (Comp Blanks A) x :=
  h.imp fun ha => ⟨_, .refl _, ha⟩

theorem leads_sign {c : Char} (hx : g.HasToken x) (h : ∀ w, g.Spells x w → w = [c]) :
    g.Leads (Sign c) x := by
  refine leads_of_token hx fun w hw => ?_
  obtain rfl := h w hw
  exact .refl [c]

-- ---------------------------------------------------------------------------
-- What is offered
-- ---------------------------------------------------------------------------

section

variable {used pre post gap : List Char}

theorem Offers.imp (h : g.Offers A pre x) (himp : ∀ {cs rest}, A cs rest → B cs rest) :
    g.Offers B pre x := by
  refine ⟨h.1, fun w hw gap hgap => ?_⟩
  obtain ⟨cont, ha⟩ := h.2 w hw gap hgap
  exact ⟨cont, himp ha⟩

theorem Offers.comp (hA : Threads Parted A) (h : g.Offers A pre x) (hb : Completes B []) :
    g.Offers (Comp A B) pre x := by
  refine ⟨h.1, fun w hw gap hgap => ?_⟩
  obtain ⟨a, ha⟩ := h.2 w hw gap hgap
  obtain ⟨b, hb⟩ := hb
  refine ⟨a ++ ' ' :: b, ?_⟩
  have hboth := hA.before_space ha hb
  simpa only [List.append_assoc] using hboth

/-- Behind white space everything can stand that leads on. -/
theorem Leads.offers (hD : ∀ {cs mid rest}, Blanks cs mid → D mid rest → D cs rest)
    (h : g.Leads D x) (hpre : ∀ c ∈ pre, Text.isBlank c = true) : g.Offers D pre x := by
  refine ⟨h.1, fun w hw gap hgap => ?_⟩
  obtain ⟨cont, hcont⟩ := h.2 w hw
  refine ⟨cont, hD ⟨pre ++ gap, ?_, List.forall_mem_append.mpr ⟨hpre, hgap.blank⟩⟩ hcont⟩
  rw [List.append_assoc]

theorem Separates.inner {w : List Char} (h : Separates x (used ++ pre) gap w) :
    Separates x pre gap w := by
  refine ⟨h.blank, fun hgap => ?_⟩
  cases pre with
  | nil => exact nofun
  | cons y pre =>
    have hmeet := h.apart hgap
    rwa [List.getLast?_append_of_ne_nil _ (List.cons_ne_nil y pre)] at hmeet

variable {R : Char → Char → Prop}

/-- Where the text goes on behind `used` as before, or white space keeps a new token apart from it,
or the token may stand there directly, what is in front is read as before. -/
theorem Separates.fits {w : List Char} (h : Separates x (used ++ pre) gap w) (hw : g.Spells x w)
    (hne : w ≠ []) (hR : pre = [] → g.Follows R x) (cont : List Char) :
    Fits R used (pre ++ (gap ++ (w ++ cont))) (pre ++ post) := by
  cases pre with
  | cons y pre => exact .inl fun z hz => .inl hz
  | nil =>
    cases gap with
    | cons y gap =>
      exact .inl (replaces_of_endsToken
        (endsToken_of_isBlank (h.blank y (List.mem_cons_self ..))) _ _)
    | nil =>
      refine .inr fun a ha b hb => hR rfl w hw a b ?_ ?_
      · obtain ⟨y, ys, rfl⟩ := List.exists_cons_of_ne_nil hne
        exact hb
      · obtain ⟨y, ys, rfl⟩ := List.exists_cons_of_ne_nil hne
        rw [List.append_nil] at h
        exact h.apart rfl a ha b hb

/-- What is offered behind a text that is taken off the front is offered by both parts. Where
nothing stands between the text and the place, the text must end there. -/
theorem Offers.after
    (hused : ∀ rest', Fits R used rest' (pre ++ post) → A (used ++ rest') rest')
    (hR : pre = [] → g.Follows R x) (h : g.Offers B pre x) :
    g.Offers (Comp A B) (used ++ pre) x := by
  refine ⟨h.1, fun w hw gap hgap => ?_⟩
  obtain ⟨cont, hcont⟩ := h.2 w hw gap hgap.inner
  refine ⟨cont, _, ?_, hcont⟩
  rw [List.append_assoc]
  exact hused _ (hgap.fits hw (hw.ne_nil h.1) hR cont)

end

end ClusterFilter.Grammar
