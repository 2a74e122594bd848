import ClusterFilter.Proofs.Expression.Nesting
import ClusterFilter.Proofs.Expression.Spelling

/-!
# ClusterFilter — failures of readers

A failure is about a place in a text. The token that it shows begins there (`Failure.At`), what
stands before the place can be completed, and what the failure names as expected is offered there
(`Stuck`). One entry can be out of place: an opening parenthesis is listed wherever a factor can
begin, also where no more of them may be opened (`NoRoom`).

Readers are composed of readers, and a failure of a part is one of the whole: what stood in front of
the part threads its rest, and the parts that did not get their turn can be written out. A part that
fails before it takes anything (`Halts`) says what may stand directly behind the token in front of
it; that decides where the part is put together with this token, and no token further in front has a
say in it.

Main results:

* `Stuck.before`, `Stuck.behind` — failures of a part as failures of the whole.
* `Stuck.opening` — the same where parentheses are counted.
* `Stuck.here` — a failure where all can still be written out.
* `Halts.behind` — a failure right behind a token.
-/

namespace ClusterFilter

open Token Cursor Relation

-- ---------------------------------------------------------------------------
-- What an error shows
-- ---------------------------------------------------------------------------

namespace Token

/-- The text begins with the token, in any letter case, and not with white space. -/
structure BeginsWith (token cs : List Char) : Prop where
  ne_nil : token ≠ []
  bare : StartsBare cs
  shown : ∃ w rest, cs = w ++ rest ∧ Text.sameIgnoringCase token w = true

/-- The token is what a reader finds at the beginning of the text; it finds none at the end. -/
def Finds : (found : Option (List Char)) → List Char → Prop
  | none, cs => cs = []
  | some token, cs => BeginsWith token cs

theorem Run.beginsWith {p : Char → Bool} (hp : ∀ {x}, p x = true → Text.isBlank x = false)
    {word cs rest : List Char} (h : Run p word cs rest) : BeginsWith word cs :=
  ⟨h.ne_nil, h.startsBare hp, word, rest, h.split, beq_self_eq_true (Text.lower word)⟩

theorem Comparator.beginsWith {op : Operator} {cs rest : List Char} (h : Comparator op cs rest) :
    BeginsWith op.symbol.toList cs := by
  refine ⟨symbol_ne_nil op, h.startsBare, ?_⟩
  cases h with
  | sign _ hsplit _ => exact ⟨_, rest, hsplit, beq_self_eq_true (Text.lower _)⟩
  | word _ hkey =>
    obtain ⟨w, hsplit, hsame, -⟩ := hkey
    exact ⟨w, rest, hsplit, beq_iff_eq.mpr (eq_of_beq hsame).symm⟩

theorem beginsWith_char {x : Char} (hx : Text.isBlank x = false) {c after : Cursor}
    (h : c.char? x = some after) : BeginsWith [x] c.rest := by
  have hsplit : c.rest = x :: after.rest := char?_eq_some_iff.mp ⟨after, h, rfl⟩
  rw [hsplit]
  exact ⟨List.cons_ne_nil _ _, startsBare_cons hx, [x], after.rest, rfl,
    beq_self_eq_true (Text.lower _)⟩

theorem startsBare_skipBlanks (c : Cursor) : StartsBare c.skipBlanks.rest := by
  rw [rest_skipBlanks]
  exact Text.head?_dropWhile_eq_false

/-- The excerpt that stands for a token is the beginning of the text: a delimiter, or as much of a
bare text as fits. -/
theorem beginsWith_lexeme {c : Cursor} (hne : c.rest ≠ []) (hbare : StartsBare c.rest) :
    BeginsWith c.lexeme c.rest := by
  obtain ⟨x, xs, hx⟩ := List.exists_cons_of_ne_nil hne
  have hlexeme : c.lexeme ≠ [] ∧ c.lexeme <+: c.rest := by
    unfold lexeme
    rw [hx]
    dsimp only
    split
    · exact ⟨List.cons_ne_nil _ _, xs, rfl⟩
    · next hdelimiter =>
      have hx : Text.isBareChar x = true := by
        rw [Text.isBareChar, Bool.not_eq_true', Bool.eq_false_iff]
        exact hdelimiter
      refine ⟨?_, (List.take_prefix ..).trans (List.takeWhile_prefix _)⟩
      rw [List.takeWhile_cons_of_pos hx]
      exact List.cons_ne_nil _ _
  obtain ⟨rest, hrest⟩ := hlexeme.2
  exact ⟨hlexeme.1, hbare, _, rest, hrest.symm, beq_self_eq_true (Text.lower _)⟩

end Token

/-- The failure is about the text `post`: the token that does not fit stands at its beginning, or
the text is empty; or a name stands there that no field has. -/
def Failure.At (g : Grammar) : Failure → (post : List Char) → Prop
  | misfit place found _, post => place.rest = post ∧ Finds found post
  | unknownField name, post =>
    (∃ after, Identifier name post after) ∧ g.resolve? (String.ofList name) = none

/-- What would have been accepted at the place of the failure. -/
def Failure.expected : Failure → List Expectation
  | misfit _ _ expected => expected
  | unknownField _ => []

theorem Failure.at_unexpected (g : Grammar) {c : Cursor} (hc : StartsBare c.rest)
    (expected : List Expectation) : (Failure.unexpected c expected).At g c.rest := by
  refine ⟨rfl, ?_⟩
  split
  · next hempty => exact List.isEmpty_iff.mp hempty
  · next hne => exact beginsWith_lexeme (fun h => hne (List.isEmpty_iff.mpr h)) hc

theorem Failure.at_afterBlanks (g : Grammar) (c : Cursor) (expected : List Expectation) :
    (Failure.unexpected c.skipBlanks expected).At g c.skipBlanks.rest :=
  Failure.at_unexpected g (startsBare_skipBlanks c) expected

theorem Failure.at_unfinished (g : Grammar) (c : Cursor) (expected : List Expectation) :
    (Failure.unfinished c expected).At g [] := by
  refine ⟨?_, rfl⟩
  rw [rest_skip, List.drop_length]

theorem Failure.at_misfit (g : Grammar) {c : Cursor} {found : List Char}
    (h : BeginsWith found c.rest) (expected : List Expectation) :
    (Failure.misfit c (some found) expected).At g c.rest :=
  ⟨rfl, h⟩

-- ---------------------------------------------------------------------------
-- Being stuck
-- ---------------------------------------------------------------------------

namespace Grammar

/-- The failure is about a place in the text. What stands before it can be completed, and every
expectation of the failure is offered there, but for those that are set aside. Where nothing stands
before it, what is expected may stand directly behind a text only where a delimiter is. -/
def Stuck (g : Grammar) (aside : Expectation → List Char → Prop) (failure : Failure)
    (D : List Char → List Char → Prop) (cs : List Char) : Prop :=
  ∃ pre post, cs = pre ++ post ∧ failure.At g post ∧ Completes D pre ∧
    (∀ x ∈ failure.expected, g.Offers D pre x ∨ aside x pre) ∧
    (pre = [] → ∀ x ∈ failure.expected, g.Follows Parted x)

/-- The failure is about the first token of the text, behind white space, and every expectation of
it leads on there. Directly behind a text it may stand only where the characters are related. -/
structure Halts (g : Grammar) (R : Char → Char → Prop) (failure : Failure)
    (D : List Char → List Char → Prop) (cs : List Char) : Prop where
  front : ∃ post, Blanks cs post ∧ failure.At g post
  completes : Completes D []
  leads : ∀ x ∈ failure.expected, g.Leads D x
  follows : ∀ x ∈ failure.expected, g.Follows R x
  blanks : ∀ {cs mid rest}, Blanks cs mid → D mid rest → D cs rest

/-- No expectation is set aside. -/
def Nothing : Expectation → List Char → Prop :=
  fun _ _ => False

/-- An opening parenthesis is expected where `depth` of them are open. -/
def NoRoom (depth : Nat) (x : Expectation) (pre : List Char) : Prop :=
  x = .openParen ∧ Scan.Opens depth pre

section

variable {g : Grammar} {aside aside' : Expectation → List Char → Prop} {failure : Failure}
  {R : Char → Char → Prop} {A B D : List Char → List Char → Prop} {cs mid pre post : List Char}

theorem Stuck.imp (h : Stuck g aside failure A cs) (himp : ∀ {cs rest}, A cs rest → B cs rest) :
    Stuck g aside failure B cs := by
  obtain ⟨pre, post, hsplit, hat, hcompletes, hoffers, hfollows⟩ := h
  exact ⟨pre, post, hsplit, hat, hcompletes.imp himp,
    fun x hx => (hoffers x hx).imp_left fun hoffer => hoffer.imp himp, hfollows⟩

theorem Stuck.weaken (h : Stuck g aside failure D cs)
    (haside : ∀ {x pre}, aside x pre → aside' x pre) : Stuck g aside' failure D cs := by
  obtain ⟨pre, post, hsplit, hat, hcompletes, hoffers, hfollows⟩ := h
  exact ⟨pre, post, hsplit, hat, hcompletes, fun x hx => (hoffers x hx).imp_right haside, hfollows⟩

/-- A failure of a part is one of the whole, if the other parts can be written out. -/
theorem Stuck.before (hA : Threads Parted A) (h : Stuck g aside failure A cs)
    (hb : Completes B []) : Stuck g aside failure (Comp A B) cs := by
  obtain ⟨pre, post, hsplit, hat, hcompletes, hoffers, hfollows⟩ := h
  exact ⟨pre, post, hsplit, hat, hcompletes.comp hA hb,
    fun x hx => (hoffers x hx).imp_left fun hoffer => hoffer.comp hA hb, hfollows⟩

/-- A failure behind what was taken is one of the whole. What is set aside there must be so behind
the whole, too. -/
theorem Stuck.behind (hA : Threads Parted A) (ha : A cs mid) (h : Stuck g aside failure B mid)
    (haside : ∀ {used}, cs = used ++ mid → ∀ {x pre}, aside x pre → aside' x (used ++ pre)) :
    Stuck g aside' failure (Comp A B) cs := by
  obtain ⟨pre, post, rfl, hat, ⟨cont, hb⟩, hoffers, hfollows⟩ := h
  obtain ⟨used, rfl, hexchange⟩ := hA.exchange ha
  refine ⟨used ++ pre, post, (List.append_assoc ..).symm, hat,
    ⟨cont, pre ++ ' ' :: cont, ?_, hb⟩, fun x hx => ?_,
    fun hnil => hfollows (List.append_eq_nil_iff.mp hnil).2⟩
  · rw [List.append_assoc]
    exact hexchange _ (.inl ((replaces_space cont post).append pre))
  · exact (hoffers x hx).imp (Offers.after hexchange fun hnil => hfollows hnil x hx) (haside rfl)

theorem Stuck.after (hA : Threads Parted A) (ha : A cs mid) (h : Stuck g Nothing failure B mid) :
    Stuck g Nothing failure (Comp A B) cs :=
  h.behind hA ha fun _ => False.elim

/-- The parentheses that are left open in front are counted as well. -/
theorem Stuck.opening {depth k : Nat} (hA : Threads Parted A) (hopens : Leaves k A) (ha : A cs mid)
    (h : Stuck g (NoRoom depth) failure B mid) :
    Stuck g (NoRoom (depth + k)) failure (Comp A B) cs := by
  refine h.behind hA ha ?_
  rintro used hsplit x pre ⟨hx, hpre⟩
  obtain ⟨used', hsplit', hused⟩ := hopens.opens ha
  obtain rfl : used = used' := List.append_cancel_right (hsplit.symm.trans hsplit')
  exact ⟨hx, hused.append hpre⟩

/-- A failure behind a keyword, which stands behind a part without open parentheses. -/
theorem Stuck.joined {depth : Nat} {word : String} {mid' : List Char} (hA : Threads Parted A)
    (hleaves : Leaves 0 A) (ha : A cs mid) (hb : Blanks mid mid') (hne : word.toList ≠ [])
    (hletters : word.toList.all Char.isAlpha = true) (hword : Keyword word mid' post)
    (h : Stuck g (NoRoom depth) failure B post) :
    Stuck g (NoRoom depth) failure (Comp A (Comp Blanks (Comp (Keyword word) B))) cs := by
  refine .opening hA hleaves ha ?_
  refine .opening threads_blanks nests_blanks.leaves hb ?_
  exact .opening (threads_keyword Parted.word hne hletters) (nests_keyword hletters).leaves hword h

/-- A failure behind white space, where all can still be written out. -/
theorem Stuck.here (hD : ∀ {cs mid rest}, Blanks cs mid → D mid rest → D cs rest)
    (hb : Blanks cs post) (hat : failure.At g post) (h : Completes D [])
    (hexpected : ∀ x ∈ failure.expected, g.Leads D x ∨ ∀ pre, Blanks pre [] → aside x pre)
    (hfollows : ∀ x ∈ failure.expected, g.Follows Parted x) : Stuck g aside failure D cs := by
  obtain ⟨gap, rfl, hgap⟩ := hb
  obtain ⟨cont, hcont⟩ := h
  refine ⟨gap, post, rfl, hat, ⟨cont, hD ⟨gap, rfl, hgap⟩ hcont⟩, fun x hx => ?_,
    fun _ => hfollows⟩
  exact (hexpected x hx).imp (fun hleads => hleads.offers hD hgap)
    fun haside => haside gap ⟨gap, (List.append_nil gap).symm, hgap⟩

theorem Stuck.atSign {x : Char} (hb : Blanks cs post) (hat : failure.At g post)
    (hexpected : ∀ e ∈ failure.expected, g.Leads (Sign x) e)
    (hfollows : ∀ e ∈ failure.expected, g.Follows Parted e) :
    Stuck g Nothing failure (Sign x) cs :=
  .here Blanks.trans hb hat ⟨[x], blanks_space [x]⟩ (fun e he => .inl (hexpected e he)) hfollows

theorem Halts.stuck (h : Halts g Parted failure D cs) : Stuck g aside failure D cs := by
  obtain ⟨post, hb, hat⟩ := h.front
  exact .here h.blanks hb hat h.completes (fun x hx => .inl (h.leads x hx)) h.follows

theorem Halts.congr (h : Halts g R failure A cs) (hiff : ∀ {cs rest}, A cs rest ↔ B cs rest) :
    Halts g R failure B cs :=
  ⟨h.front, h.completes.imp hiff.mp, fun x hx => (h.leads x hx).imp hiff.mp, h.follows,
    fun hb hB => hiff.mp (h.blanks hb (hiff.mpr hB))⟩

/-- The other parts can be written out. -/
theorem Halts.before (hA : Threads Parted A) (h : Halts g R failure A cs) (hb : Completes B []) :
    Halts g R failure (Comp A B) cs := by
  refine ⟨h.front, h.completes.comp hA hb, fun x hx => (h.leads x hx).comp hA hb, h.follows, ?_⟩
  rintro cs mid rest hblank ⟨a, ha, hB⟩
  exact ⟨a, h.blanks hblank ha, hB⟩

/-- A failure right behind what was taken, which ends where the characters are related. -/
theorem Halts.behind (hA : Threads R A) (ha : A cs mid) (htaken : mid.length < cs.length)
    (h : Halts g R failure B mid) : Stuck g aside failure (Comp A B) cs := by
  obtain ⟨post, ⟨gap, rfl, hgap⟩, hat⟩ := h.front
  obtain ⟨used, rfl, hexchange⟩ := hA.exchange ha
  obtain ⟨cont, hcont⟩ := h.completes
  refine ⟨used ++ gap, post, (List.append_assoc ..).symm, hat,
    ⟨cont, gap ++ ' ' :: cont, ?_, h.blanks ⟨gap, rfl, hgap⟩ hcont⟩, fun x hx => .inl ?_,
    fun hnil => ?_⟩
  · rw [List.append_assoc]
    exact hexchange _ (.inl ((replaces_space cont post).append gap))
  · exact ((h.leads x hx).offers h.blanks hgap).after hexchange fun _ => h.follows x hx
  · obtain ⟨rfl, rfl⟩ := List.append_eq_nil_iff.mp hnil
    exact absurd htaken (Nat.lt_irrefl _)

theorem Halts.behindBlanks (hb : Blanks cs post) (hat : failure.At g post)
    (h : Completes (Comp Blanks A) []) (hexpected : ∀ x ∈ failure.expected, g.Leads A x)
    (hfollows : ∀ x ∈ failure.expected, g.Follows R x) :
    Halts g R failure (Comp Blanks A) cs := by
  refine ⟨⟨post, hb, hat⟩, h, fun x hx => (hexpected x hx).blanks, hfollows, ?_⟩
  rintro cs mid rest hb ⟨a, hb', ha⟩
  exact ⟨a, hb.trans hb', ha⟩

end

end Grammar

end ClusterFilter
