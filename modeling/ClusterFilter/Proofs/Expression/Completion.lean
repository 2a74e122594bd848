import ClusterFilter.Proofs.Canonical
import ClusterFilter.Proofs.Expression.Failure

/-!
# ClusterFilter — texts that can still be completed

A text is never rejected too late: whatever stands in front of the place of an error can be
continued to an expression. The continuation always begins with a space. Behind a token the space
ends the token, so that nothing in front of it is read in another way; within a quoted text it is
one more character, also behind a lone backslash.

Every reader that fails does so at such a place (`Stuck`). What a reader names as expected leads on
there, whatever its spelling (`Leads`): a name with the rest of a comparison behind it, a keyword
with another factor or term.

Main results:

* `readKey_stuck`, `readLiteral_stuck`, `readComparison_stuck`, `readFactor_stuck` — the places at
  which readers fail.
* `parse_error_completable` — the same for a whole text over a resource, with the place given in
  bytes or by the name of the field that is not there.
-/

namespace ClusterFilter

open Token Cursor Relation

namespace Grammar

-- ---------------------------------------------------------------------------
-- Quotes
-- ---------------------------------------------------------------------------

/-- White space between quotes stands for itself. -/
theorem quotedBody_of_blank {quote : Char} (hquote : quote = '\x27' ∨ quote = '\x22')
    {gap : List Char} (h : ∀ x ∈ gap, Text.isBlank x = true) : QuotedBody quote gap gap := by
  have hbare : Text.isBlank quote = false := by
    rcases hquote with rfl | rfl
    · decide
    · decide
  induction gap with
  | nil => exact .nil
  | cons x gap ih =>
    obtain ⟨hx, hgap⟩ := List.forall_mem_cons.mp h
    refine .plain ?_ ?_ (ih hgap)
    · rintro rfl
      rw [hbare] at hx
      cases hx
    · rintro rfl
      exact absurd hx (by decide)

/-- What stands behind an opening quote can be closed behind any more white space, unless it is
closed already. Behind a lone backslash a quote does not count, and a second one closes. -/
theorem quotedBody_of_unfinished {quote : Char} (hquote : quote = '\x27' ∨ quote = '\x22')
    {cs gap : List Char} (hgap : ∀ x ∈ gap, Text.isBlank x = true)
    (h : Text.splitQuoted quote cs = none) :
    (∃ text, QuotedBody quote (cs ++ gap) text) ∨
      gap = [] ∧ ∃ text, QuotedBody quote (cs ++ [quote]) text := by
  fun_induction Text.splitQuoted quote cs with
  | case1 => exact .inl ⟨gap, quotedBody_of_blank hquote hgap⟩
  | case2 =>
    cases gap with
    | nil => exact .inr ⟨rfl, [quote], .escaped .nil⟩
    | cons x gap =>
      exact .inl ⟨x :: gap, .escaped
        (quotedBody_of_blank hquote (List.forall_mem_cons.mp hgap).2)⟩
  | case3 c cs ih =>
    rcases ih (Option.map_eq_none_iff.mp h) with ⟨text, hspell⟩ | ⟨rfl, text, hspell⟩
    · exact .inl ⟨_, .escaped hspell⟩
    · exact .inr ⟨rfl, _, .escaped hspell⟩
  | case4 => cases h
  | case5 c cs hlone hescape hc ih =>
    have hslash : c ≠ '\\' := by
      rintro rfl
      cases cs with
      | nil => exact hlone rfl rfl
      | cons x xs => exact hescape x xs rfl rfl
    rcases ih (Option.map_eq_none_iff.mp h) with ⟨text, hspell⟩ | ⟨rfl, text, hspell⟩
    · exact .inl ⟨_, .plain hc hslash hspell⟩
    · exact .inr ⟨rfl, _, .plain hc hslash hspell⟩

/-- Behind a text that is not closed stands its closing quote. -/
theorem quoted_of_unfinished {c : Cursor} {quote : Char} (hquote : c.quote? = some quote)
    (h : c.quoted? quote = none) {gap : List Char} (hgap : ∀ x ∈ gap, Text.isBlank x = true) :
    ∃ cont, Any Quoted (c.rest ++ (gap ++ quote :: cont)) [] := by
  obtain ⟨hkind, hhead⟩ := quote?_eq_some_iff.mp hquote
  obtain ⟨cs, hcs⟩ := List.head?_eq_some_iff.mp hhead
  have hunfinished : Text.splitQuoted quote cs = none := by
    unfold quoted? at h
    rwa [hcs, List.drop_one, List.tail_cons, Option.map_eq_none_iff] at h
  rcases quotedBody_of_unfinished hkind hgap hunfinished with ⟨text, hspell⟩ | ⟨rfl, text, hspell⟩
  · exact ⟨[], text, quote, cs ++ gap, hkind, by simp [hcs], hspell⟩
  · exact ⟨[quote], text, quote, cs ++ [quote], hkind, by simp [hcs], hspell⟩

/-- A text that is not closed ends too early, and its closing quote is expected. -/
theorem stuck_unfinished (g : Grammar) {c : Cursor} {quote : Char}
    (hquote : c.quote? = some quote) (h : c.quoted? quote = none) :
    Stuck g Nothing (.unfinished c [.closingQuote quote]) (Any Quoted) c.rest := by
  refine ⟨_, [], (List.append_nil _).symm, Failure.at_unfinished .., ?_, ?_,
    fun _ => List.forall_mem_singleton.mpr (follows_of_meets fun h => h)⟩
  · obtain ⟨cont, hcont⟩ := quoted_of_unfinished hquote h
      (List.forall_mem_singleton.mpr (show Text.isBlank ' ' = true by decide))
    exact ⟨quote :: cont, hcont⟩
  · intro x hx
    obtain rfl := List.mem_singleton.mp hx
    refine .inl ⟨trivial, fun w hw gap hgap => ?_⟩
    obtain rfl : w = [quote] := hw
    exact quoted_of_unfinished hquote h hgap.blank

-- ---------------------------------------------------------------------------
-- Keys
-- ---------------------------------------------------------------------------

/-- What stands behind the point of a key. -/
def DottedKey : List Char → List Char → Prop :=
  Comp Blanks (Any (Run Text.isKeyChar))

/-- What stands behind the opening bracket of a key. -/
def BracketedKey : List Char → List Char → Prop :=
  Comp Blanks (Comp (Any Quoted) (Sign ']'))

theorem key_of_dotted {cs rest : List Char} (h : Comp (Sign '.') DottedKey cs rest) :
    Any Key cs rest := by
  obtain ⟨a, hpoint, b, hb, key, hkey⟩ := h
  exact ⟨String.ofList key, .dotted hpoint hb (by rwa [String.toList_ofList])⟩

theorem key_of_bracketed {cs rest : List Char} (h : Comp (Sign '[') BracketedKey cs rest) :
    Any Key cs rest := by
  obtain ⟨a, hopen, b, hb, d, ⟨key, hkey⟩, hclose⟩ := h
  exact ⟨String.ofList key, .bracketed hopen hb (by rwa [String.toList_ofList]) hclose⟩

theorem any_key_of_blanks {cs mid rest : List Char} (hb : Blanks cs mid) (h : Any Key mid rest) :
    Any Key cs rest := by
  obtain ⟨key, ⟨hpoint, hb', hkey⟩ | ⟨hopen, hb', hkey, hclose⟩⟩ := h
  · exact ⟨_, .dotted (hb.trans hpoint) hb' hkey⟩
  · exact ⟨_, .bracketed (hb.trans hopen) hb' hkey hclose⟩

theorem completes_dottedKey : Completes DottedKey [] := by
  have hkey : Completes (Comp Blanks (Run Text.isKeyChar ['k'])) [] :=
    completes_run (List.cons_ne_nil _ _) (List.all_eq_true.mp (by decide))
  exact hkey.imp fun ⟨_, hb, hrun⟩ => ⟨_, hb, _, hrun⟩

theorem completes_key : Completes (Any Key) [] :=
  ((completes_sign '.').comp (threads_sign '.') completes_dottedKey).imp key_of_dotted

theorem completes_bracketedKey : Completes BracketedKey [] := by
  refine ⟨"'k']".toList, _, blanks_space _, [']'], ⟨['k'], ?_⟩, .refl _⟩
  exact quoted_quote ['k'] [']']

theorem leads_dottedKey (g : Grammar) : g.Leads (Any (Run Text.isKeyChar)) .mapKey :=
  leads_of_token trivial fun _ hw => hw

theorem leads_dot (g : Grammar) : g.Leads (Any Key) .dot :=
  ((leads_sign (x := .dot) trivial fun _ hw => hw).comp (threads_sign '.')
    completes_dottedKey).imp key_of_dotted

theorem leads_openBracket (g : Grammar) : g.Leads (Any Key) .openBracket :=
  ((leads_sign (x := .openBracket) trivial fun _ hw => hw).comp (threads_sign '[')
    completes_bracketedKey).imp key_of_bracketed

theorem leads_quotedString (g : Grammar) : g.Leads (Comp (Any Quoted) (Sign ']')) .quotedString :=
  .comp (threads_exists threads_quoted) (leads_of_token trivial fun _ hw => hw)
    (completes_sign ']')

/-- No key begins at the cursor, or one that does can be completed. -/
theorem readKey_stuck {g : Grammar} {c : Cursor} {failure : Failure}
    (h : readKey c = .error failure) :
    Halts g (Bounds Text.isWordChar) failure (Any Key) c.rest ∨
      Stuck g Nothing failure (Any Key) c.rest := by
  have hquotedThreads : Threads Parted (Any Quoted) := threads_exists threads_quoted
  unfold readKey at h
  dsimp only at h
  split at h
  · next c₁ hpoint =>
    have hpoint : Sign '.' c.rest c₁.rest := (char?_skipBlanks_iff (by decide)).mp ⟨c₁, hpoint, rfl⟩
    split at h
    · cases h
    · injection h with h
      subst h
      have hmapKey : Halts g (Meets .mapKey) (.unexpected c₁.skipBlanks [.mapKey])
          DottedKey c₁.rest :=
        .behindBlanks (blanks_skipBlanks c₁) (Failure.at_afterBlanks ..) completes_dottedKey
          (List.forall_mem_singleton.mpr (leads_dottedKey g))
          (List.forall_mem_singleton.mpr (follows_of_meets fun h => h))
      exact .inr ((hmapKey.behind (threads_sign '.') hpoint hpoint.length_le).imp key_of_dotted)
  · split at h
    · injection h with h
      subst h
      exact .inl ⟨⟨_, blanks_skipBlanks c, Failure.at_afterBlanks ..⟩, completes_key,
        List.forall_mem_cons.mpr
          ⟨leads_dot g, List.forall_mem_singleton.mpr (leads_openBracket g)⟩,
        List.forall_mem_cons.mpr ⟨follows_sign '.' (by decide) fun _ hw => hw,
          List.forall_mem_singleton.mpr (follows_sign '[' (by decide) fun _ hw => hw)⟩,
        any_key_of_blanks⟩
    · next c₁ hopen =>
      have hopen : Sign '[' c.rest c₁.rest :=
        (char?_skipBlanks_iff (by decide)).mp ⟨c₁, hopen, rfl⟩
      refine .inr (Stuck.imp (.after (threads_sign '[') hopen ?_) key_of_bracketed)
      have hb := blanks_skipBlanks c₁
      split at h
      · injection h with h
        subst h
        exact Halts.stuck (.behindBlanks hb (Failure.at_afterBlanks ..) completes_bracketedKey
          (List.forall_mem_singleton.mpr (leads_quotedString g))
          (List.forall_mem_singleton.mpr (follows_of_meets fun h => h)))
      · next quote hquote =>
        refine .after threads_blanks hb ?_
        split at h
        · next hunfinished =>
          injection h with h
          subst h
          exact .before hquotedThreads (stuck_unfinished g hquote hunfinished)
            (completes_sign ']')
        · next key c₂ hkey =>
          have hquoted : Quoted key c₁.skipBlanks.rest c₂.rest := (quoted?_recognizes ..).mp
            ⟨c₂, Option.bind_eq_some_iff.mpr ⟨quote, hquote, hkey⟩, rfl⟩
          split at h
          · cases h
          · injection h with h
            subst h
            exact .after hquotedThreads ⟨key, hquoted⟩
              (.atSign (blanks_skipBlanks c₂) (Failure.at_afterBlanks ..)
                (List.forall_mem_singleton.mpr (leads_sign trivial fun _ hw => hw))
                (List.forall_mem_singleton.mpr (follows_of_meets fun h => h)))

-- ---------------------------------------------------------------------------
-- Comparisons
-- ---------------------------------------------------------------------------

variable {g : Grammar} {failure : Failure}

/-- Equality is in every family. -/
theorem completes_operatorPart (comparators : Comparators) :
    Completes (Any (OperatorPart comparators)) [] := by
  have hlongest : ∀ op ∈ Operator.signs, op.symbol.toList <+: "=".toList →
      op.symbol.toList.length ≤ Operator.equal.symbol.toList.length := by decide
  refine ⟨['='], .equal, _, blanks_space _, ?_, .sign (by decide) rfl hlongest⟩
  cases comparators <;> rfl

/-- Every kind has a literal. -/
theorem completes_literalPart (kind : ValueKind) : Completes (Any (LiteralPart kind)) [] := by
  obtain ⟨word, hne, hbare, hshape⟩ : ∃ word : List Char, word ≠ [] ∧
      word.all Text.isBareChar = true ∧ isShaped kind word = true := by
    by_cases hkind : kind = .boolean
    · exact ⟨"true".toList, by decide, by decide, hkind ▸ rfl⟩
    · refine ⟨['1'], by decide, by decide, ?_⟩
      cases kind with
      | boolean => exact absurd rfl hkind
      | _ => rfl
  have hrun : Completes (Comp Blanks (Run Text.isBareChar word)) [] :=
    completes_run hne (List.all_eq_true.mp hbare)
  refine hrun.imp ?_
  rintro cs rest ⟨a, hb, hrun⟩
  refine ⟨⟨kind, String.ofList word, false, ⟨0, 0⟩⟩, a, hb, .bare rfl rfl ?_ ?_⟩
  · rwa [String.toList_ofList]
  · rw [String.toList_ofList]
    exact isShaped_iff.mp hshape

theorem completes_keyPart_comp {B : List Char → List Char → Prop} (p : Production)
    (hb : Completes B []) : Completes (Comp (Any (KeyPart p)) B) [] := by
  cases hkeyed : p.keyed with
  | false =>
    obtain ⟨cont, hcont⟩ := hb
    exact ⟨cont, _, ⟨none, .absent hkeyed⟩, hcont⟩
  | true =>
    have hkey : Completes (Any (KeyPart p)) [] :=
      completes_key.imp fun ⟨key, h⟩ => ⟨some key, .present hkeyed h⟩
    exact hkey.comp (threads_exists (threads_keyPart Parted.key p)) hb

/-- What stands behind the name of the field in a comparison. -/
def AfterName (p : Production) : List Char → List Char → Prop :=
  Comp (Any (KeyPart p)) (Comp (Any (OperatorPart p.comparators)) (Any (LiteralPart p.token)))

theorem threads_operator (comparators : Comparators) :
    Threads Parted (Any (OperatorPart comparators)) :=
  threads_exists (threads_operatorPart Parted.severs comparators)

theorem completes_operator_literal (comparators : Comparators) (kind : ValueKind) :
    Completes (Comp (Any (OperatorPart comparators)) (Any (LiteralPart kind))) [] :=
  (completes_operatorPart comparators).comp (threads_operator comparators)
    (completes_literalPart kind)

theorem completes_afterName (p : Production) : Completes (AfterName p) [] :=
  completes_keyPart_comp p (completes_operator_literal p.comparators p.token)

theorem derivesComparison_of_afterName {p : Production} (hp : p ∈ g.productions)
    {cs rest : List Char} (h : Comp (Identifier p.field.toList) (AfterName p) cs rest) :
    Any (DerivesComparison g) cs rest := by
  obtain ⟨a, hname, b, ⟨key, hkey⟩, d, ⟨op, hop⟩, l, hl⟩ := h
  exact ⟨⟨p.field, key, op, l, ⟨0, 0⟩⟩,
    derivesComparison_iff.mpr ⟨p, ⟨hp, rfl⟩, a, hname, b, hkey, d, hop, hl⟩⟩

theorem any_keyPart_iff {p : Production} (hkeyed : p.keyed = true) {cs rest : List Char} :
    Any Key cs rest ↔ Any (KeyPart p) cs rest := by
  constructor
  · rintro ⟨key, hkey⟩
    exact ⟨some key, .present hkeyed hkey⟩
  · rintro ⟨_, hplain | ⟨-, hkey⟩⟩
    · rw [hkeyed] at hplain
      cases hplain
    · exact ⟨_, hkey⟩

theorem readKeyOf_stuck {p : Production} {c : Cursor} (h : readKeyOf p c = .error failure) :
    Halts g (Bounds Text.isWordChar) failure (Any (KeyPart p)) c.rest ∨
      Stuck g Nothing failure (Any (KeyPart p)) c.rest := by
  unfold readKeyOf at h
  split at h
  · next hkeyed =>
    rcases bind_eq_error.mp h with h | ⟨_, _, h⟩
    · exact (readKey_stuck h).imp (fun h => h.congr (any_keyPart_iff hkeyed))
        fun h => h.imp (any_keyPart_iff hkeyed).mp
    · cases h
  · cases h

theorem any_operatorPart_iff {comparators : Comparators} {cs rest : List Char} :
    Any (OperatorPart comparators) cs rest ↔
      Comp Blanks (Any fun op cs rest => comparators.allows op = true ∧ Comparator op cs rest)
        cs rest :=
  ⟨fun ⟨op, a, hb, hop⟩ => ⟨a, hb, op, hop⟩, fun ⟨a, hb, op, hop⟩ => ⟨op, a, hb, hop⟩⟩

theorem any_literalPart_iff {kind : ValueKind} {cs rest : List Char} :
    Any (LiteralPart kind) cs rest ↔ Comp Blanks (Any (LiteralToken kind)) cs rest :=
  ⟨fun ⟨l, a, hb, hl⟩ => ⟨a, hb, l, hl⟩, fun ⟨a, hb, l, hl⟩ => ⟨l, a, hb, hl⟩⟩

/-- The operators that a message lists are those of the family. -/
theorem leads_comparator (g : Grammar) {comparators : Comparators} {x : Expectation}
    (hx : x ∈ comparators.operators.map Expectation.comparator) :
    g.Leads (Any fun op cs rest => comparators.allows op = true ∧ Comparator op cs rest) x := by
  obtain ⟨op, hop, rfl⟩ := List.mem_map.mp hx
  exact leads_of_token trivial fun _ hw => ⟨op, List.contains_iff_mem.mpr hop, hw⟩

theorem leads_literal {kind : ValueKind} (hkind : ∃ p ∈ g.productions, p.token = kind) :
    g.Leads (Any (LiteralToken kind)) (.literal kind) :=
  leads_of_token hkind fun _ hw => hw

theorem follows_comparator (g : Grammar) {comparators : Comparators} {x : Expectation}
    (hx : x ∈ comparators.operators.map Expectation.comparator) :
    g.Follows (Bounds Text.isKeyChar) x := by
  obtain ⟨op, -, rfl⟩ := List.mem_map.mp hx
  exact follows_of_meets fun h => h

theorem readOperator_halts {comparators : Comparators} {c : Cursor}
    (h : readOperator comparators c = .error failure) :
    Halts g (Bounds Text.isKeyChar) failure (Any (OperatorPart comparators)) c.rest := by
  have hcompletes := (completes_operatorPart comparators).imp any_operatorPart_iff.mp
  refine Halts.congr ?_ any_operatorPart_iff.symm
  unfold readOperator at h
  dsimp only at h
  split at h
  · injection h with h
    subst h
    exact .behindBlanks (blanks_skipBlanks c) (Failure.at_afterBlanks ..) hcompletes
      (fun _ => leads_comparator g) fun _ => follows_comparator g
  · next op after hop =>
    split at h
    · cases h
    · injection h with h
      subst h
      have hop := (comparator?_recognizes ..).mp ⟨_, hop, rfl⟩
      exact .behindBlanks (blanks_skipBlanks c) (Failure.at_misfit g hop.beginsWith _) hcompletes
        (fun _ => leads_comparator g) fun _ => follows_comparator g

theorem readBareLiteral_at {kind : ValueKind} {c : Cursor} (hc : StartsBare c.rest)
    (h : readBareLiteral kind c = .error failure) :
    failure.At g c.rest ∧ failure.expected = [.literal kind] := by
  unfold readBareLiteral at h
  split at h
  · injection h with h
    exact h ▸ ⟨Failure.at_unexpected g hc _, rfl⟩
  · next text after htext =>
    have hrun := (bare?_recognizes ..).mp ⟨after, htext, rfl⟩
    split at h
    · cases h
    · injection h with h
      exact h ▸ ⟨Failure.at_misfit g (hrun.beginsWith isBlank_eq_false_of_isBareChar) _, rfl⟩

theorem readLiteral_stuck {kind : ValueKind} (hkind : ∃ p ∈ g.productions, p.token = kind)
    {c : Cursor} (h : readLiteral kind c = .error failure) :
    Halts g Severs failure (Any (LiteralPart kind)) c.rest ∨
      Stuck g Nothing failure (Any (LiteralPart kind)) c.rest := by
  have hcompletes := (completes_literalPart kind).imp any_literalPart_iff.mp
  have hb := blanks_skipBlanks c
  have hbare : ∀ {c₁}, StartsBare c₁.rest → Blanks c.rest c₁.rest →
      readBareLiteral kind c₁ = .error failure →
        Halts g Severs failure (Comp Blanks (Any (LiteralToken kind))) c.rest := by
    intro c₁ hc hb h
    obtain ⟨hat, hexpected⟩ := readBareLiteral_at hc h
    refine .behindBlanks hb hat hcompletes ?_ ?_
    · rw [hexpected]
      exact List.forall_mem_singleton.mpr (leads_literal hkind)
    · rw [hexpected]
      exact List.forall_mem_singleton.mpr (follows_of_meets fun h => h)
  suffices h : Halts g Severs failure (Comp Blanks (Any (LiteralToken kind))) c.rest ∨
      Stuck g Nothing failure (Comp Blanks (Any (LiteralToken kind))) c.rest from
    h.imp (fun h => h.congr any_literalPart_iff.symm) fun h => h.imp any_literalPart_iff.mpr
  unfold readLiteral at h
  dsimp only at h
  split at h
  · next quote hquote =>
    split at h
    · next hstring =>
      split at h
      · next hunfinished =>
        injection h with h
        subst h
        refine .inr (.after threads_blanks hb ((stuck_unfinished g hquote hunfinished).imp ?_))
        rintro cs rest ⟨text, htext⟩
        exact ⟨⟨kind, String.ofList text, true, ⟨0, 0⟩⟩,
          .quoted hstring rfl rfl (by rwa [String.toList_ofList])⟩
      · cases h
    · exact .inl (hbare (startsBare_skipBlanks c) hb h)
  · exact .inl (hbare (startsBare_skipBlanks c) hb h)

section

variable {p : Production} {cs : List Char} {c₁ c₂ c₃ : Cursor}
  (hname : Identifier p.field.toList cs c₁.rest)

include hname

theorem stuck_atKey (h : readKeyOf p c₁ = .error failure) :
    Stuck g Nothing failure (Comp (Identifier p.field.toList) (AfterName p)) cs := by
  have hkeyThreads : Threads Parted (Any (KeyPart p)) :=
    threads_exists (threads_keyPart Parted.key p)
  have hothers := completes_operator_literal p.comparators p.token
  rcases readKeyOf_stuck h with hhalts | hstuck
  · exact Halts.behind (threads_identifier (fun h => h) _) hname hname.run.length_lt
      (hhalts.before hkeyThreads hothers)
  · exact .after (threads_identifier Parted.word _) hname (hstuck.before hkeyThreads hothers)

variable {key : Option String} (hkey : KeyPart p key c₁.rest c₂.rest)

include hkey

/-- Right in front of the operator stands the name or the key, so that the two are one part here. -/
theorem stuck_atOperator (h : readOperator p.comparators c₂ = .error failure) :
    Stuck g Nothing failure (Comp (Identifier p.field.toList) (AfterName p)) cs := by
  have hfront : Threads (Bounds Text.isKeyChar)
      (Comp (Identifier p.field.toList) (Any (KeyPart p))) :=
    (threads_identifier Bounds.word _).comp (threads_exists (threads_keyPart (fun h => h) p))
  have htaken : c₂.rest.length < cs.length :=
    Nat.lt_of_le_of_lt hkey.length_le hname.run.length_lt
  rw [AfterName, ← Relation.comp_assoc]
  exact Halts.behind hfront ⟨_, hname, key, hkey⟩ htaken
    ((readOperator_halts h).before (threads_operator p.comparators) (completes_literalPart p.token))

theorem stuck_atLiteral {op : Operator} (hp : p ∈ g.productions)
    (hop : OperatorPart p.comparators op c₂.rest c₃.rest)
    (h : readLiteral p.token c₃ = .error failure) :
    Stuck g Nothing failure (Comp (Identifier p.field.toList) (AfterName p)) cs := by
  refine .after (threads_identifier Parted.word _) hname ?_
  refine .after (threads_exists (threads_keyPart Parted.key p)) ⟨key, hkey⟩ ?_
  rcases readLiteral_stuck ⟨p, hp, rfl⟩ h with hhalts | hstuck
  · have htaken : c₃.rest.length < c₂.rest.length := by
      obtain ⟨b, hb, -, hsymbol⟩ := hop
      exact Nat.lt_of_lt_of_le hsymbol.length_lt hb.length_le
    exact Halts.behind (threads_exists (threads_operatorPart (fun h => h) p.comparators))
      ⟨op, hop⟩ htaken
      hhalts
  · exact .after (threads_operator p.comparators) ⟨op, hop⟩ hstuck

end

/-- No comparison begins at the cursor, or one that does can be completed. -/
theorem readComparison_stuck {c : Cursor} (hc : StartsBare c.rest)
    (h : g.readComparison c = .error failure) :
    (failure.At g c.rest ∧ failure.expected ⊆ [.openParen, .fieldName]) ∨
      Stuck g Nothing failure (Any (DerivesComparison g)) c.rest := by
  unfold readComparison at h
  split at h
  · injection h with h
    exact .inl (h ▸ ⟨Failure.at_unexpected g hc _, List.Subset.refl _⟩)
  · next name c₁ hname =>
    have hname := (identifier?_recognizes ..).mp ⟨c₁, hname, rfl⟩
    split at h
    · next hnone =>
      injection h with h
      subst h
      exact .inl ⟨⟨⟨_, hname⟩, hnone⟩, List.nil_subset _⟩
    · next p hp =>
      obtain ⟨hmem, hfield⟩ := resolve?_eq_some hp
      have hname : Identifier p.field.toList c.rest c₁.rest := by
        rwa [hfield, String.toList_ofList]
      refine .inr (Stuck.imp ?_ (derivesComparison_of_afterName hmem))
      rcases bind_eq_error.mp h with h | ⟨⟨key, c₂⟩, hkey, h⟩
      · exact stuck_atKey hname h
      · have hkey := (readKeyOf_reads ..).mp ⟨c₂, hkey, rfl⟩
        rcases bind_eq_error.mp h with h | ⟨⟨op, c₃⟩, hop, h⟩
        · exact stuck_atOperator hname hkey h
        · obtain ⟨hallowed, b, hb, hop⟩ := (readOperator_reads ..).mp ⟨c₃, hop, rfl⟩
          rcases bind_eq_error.mp h with h | ⟨_, _, h⟩
          · exact stuck_atLiteral hname hkey hmem ⟨b, hb, hallowed, hop⟩ h
          · cases h

-- ---------------------------------------------------------------------------
-- Factors, terms and expressions
-- ---------------------------------------------------------------------------

/-- Some field has a name that can be written in an expression. -/
def HasField (g : Grammar) : Prop :=
  ∃ p ∈ g.productions, p.field.toList ≠ [] ∧ (∀ x ∈ p.field.toList, Text.isWordChar x = true) ∧
    ∀ x ∈ p.field.toList.head?, x.isAlpha = true ∨ x = '_'

/-- The text begins with a factor whose parentheses nest no deeper than `depth`. -/
def FactorWithin (g : Grammar) (depth : Nat) (cs rest : List Char) : Prop :=
  ∃ f : Factor, f.nesting ≤ depth ∧ DerivesFactor g f cs rest

/-- The text begins with a term whose parentheses nest no deeper than `depth`. -/
def TermWithin (g : Grammar) (depth : Nat) (cs rest : List Char) : Prop :=
  ∃ t : Term, t.nesting ≤ depth ∧ DerivesTerm g t cs rest

/-- The text begins with an expression whose parentheses nest no deeper than `depth`. -/
def ExprWithin (g : Grammar) (depth : Nat) (cs rest : List Char) : Prop :=
  ∃ e : Expr, e.nesting ≤ depth ∧ DerivesExpr g e cs rest

theorem threads_factorWithin (depth : Nat) : Threads Parted (FactorWithin g depth) :=
  threads_exists fun f => threads_guarded fun _ => threads_derivesFactor f

theorem threads_termWithin (depth : Nat) : Threads Parted (TermWithin g depth) :=
  threads_exists fun t => threads_guarded fun _ => threads_derivesTerm t

theorem threads_exprWithin (depth : Nat) : Threads Parted (ExprWithin g depth) :=
  threads_exists fun e => threads_guarded fun _ => threads_derivesExpr e

section

variable {depth : Nat} {cs rest : List Char}

theorem factorWithin_of_comparison (h : Comp Blanks (Any (DerivesComparison g)) cs rest) :
    FactorWithin g depth cs rest := by
  obtain ⟨a, hb, k, hk⟩ := h
  exact ⟨.comparison k, Nat.zero_le _, .comparison hb hk⟩

theorem factorWithin_of_group
    (h : Comp (Sign '(') (Comp (ExprWithin g depth) (Sign ')')) cs rest) :
    FactorWithin g (depth + 1) cs rest := by
  obtain ⟨a, hopen, b, ⟨e, hdepth, he⟩, hclose⟩ := h
  exact ⟨.group e, Nat.succ_le_succ hdepth, .group hopen he hclose⟩

theorem factorWithin_of_blanks {mid : List Char} (hb : Blanks cs mid)
    (h : FactorWithin g depth mid rest) : FactorWithin g depth cs rest := by
  obtain ⟨f, hdepth, ⟨hb', hk⟩ | ⟨hopen, he, hclose⟩⟩ := h
  · exact ⟨_, hdepth, .comparison (hb.trans hb') hk⟩
  · exact ⟨_, hdepth, .group (hb.trans hopen) he hclose⟩

theorem termWithin_of_factor (h : FactorWithin g depth cs rest) : TermWithin g depth cs rest := by
  obtain ⟨f, hdepth, hf⟩ := h
  exact ⟨.one f, hdepth, .one hf⟩

theorem termWithin_of_more (h : Comp (FactorWithin g depth)
    (Comp Blanks (Comp (Keyword "and") (TermWithin g depth))) cs rest) :
    TermWithin g depth cs rest := by
  obtain ⟨a, ⟨f, hdepth, hf⟩, b, hb, d, hword, t, hdepth', ht⟩ := h
  exact ⟨.more f t, Nat.max_le.mpr ⟨hdepth, hdepth'⟩, .more hf hb hword ht⟩

theorem exprWithin_of_term (h : TermWithin g depth cs rest) : ExprWithin g depth cs rest := by
  obtain ⟨t, hdepth, ht⟩ := h
  exact ⟨.one t, hdepth, .one ht⟩

theorem exprWithin_of_more (h : Comp (TermWithin g depth)
    (Comp Blanks (Comp (Keyword "or") (ExprWithin g depth))) cs rest) :
    ExprWithin g depth cs rest := by
  obtain ⟨a, ⟨t, hdepth, ht⟩, b, hb, d, hword, e, hdepth', he⟩ := h
  exact ⟨.more t e, Nat.max_le.mpr ⟨hdepth, hdepth'⟩, .more ht hb hword he⟩

end

/-- A factor can begin with the name of any field. -/
theorem leads_fieldName (g : Grammar) (depth : Nat) :
    g.Leads (FactorWithin g depth) .fieldName := by
  refine ⟨trivial, fun w hw => ?_⟩
  obtain ⟨p, hp, hname⟩ := hw
  obtain ⟨cont, hcont⟩ := completes_afterName p
  refine ⟨' ' :: cont, factorWithin_of_comparison ⟨_, .refl _, ?_⟩⟩
  exact derivesComparison_of_afterName hp
    ((threads_identifier Parted.word _).before_space hname hcont)

theorem completes_factorWithin (hg : g.HasField) (depth : Nat) :
    Completes (FactorWithin g depth) [] := by
  obtain ⟨p, hp, hne, hword, hhead⟩ := hg
  have hname : g.Spells .fieldName p.field.toList :=
    ⟨p, hp, ⟨(List.append_nil _).symm, hne, hword, nofun⟩, hhead⟩
  obtain ⟨cont, hcont⟩ := (leads_fieldName g depth).2 _ hname
  exact ⟨p.field.toList ++ cont, factorWithin_of_blanks (blanks_space _) hcont⟩

theorem completes_exprWithin (hg : g.HasField) (depth : Nat) :
    Completes (ExprWithin g depth) [] :=
  ((completes_factorWithin hg depth).imp termWithin_of_factor).imp exprWithin_of_term

/-- A factor can begin with a parenthesis as long as there is room for one more pair. -/
theorem leads_openParen (hg : g.HasField) (depth : Nat) :
    g.Leads (FactorWithin g (depth + 1)) .openParen := by
  have hinside : Completes (Comp (ExprWithin g depth) (Sign ')')) [] :=
    (completes_exprWithin hg depth).comp (threads_exprWithin depth) (completes_sign ')')
  exact ((leads_sign (x := .openParen) trivial fun _ hw => hw).comp (threads_sign '(') hinside).imp
    factorWithin_of_group

theorem nests_factorWithin (depth : Nat) : Nests depth (FactorWithin g depth) :=
  nests_exists nests_derivesFactor depth

theorem nests_termWithin (depth : Nat) : Nests depth (TermWithin g depth) :=
  nests_exists nests_derivesTerm depth

section

variable {factor : Reader Factor} {depth : Nat}
  (hsound : ∀ {c f after}, factor c = .ok (f, after) →
    DerivesFactor g f c.rest after.rest ∧ f.nesting ≤ depth)
  (hstuck : ∀ {c failure}, factor c = .error failure →
    Stuck g (NoRoom depth) failure (FactorWithin g depth) c.rest)

include hsound hstuck

theorem readFactors_stuck {more : Nat} {c : Cursor}
    (h : readFactors factor more c = .error failure) :
    Stuck g (NoRoom depth) failure (TermWithin g depth) c.rest := by
  induction more generalizing c with
  | zero =>
    rcases bind_eq_error.mp h with h | ⟨_, _, h⟩
    · exact (hstuck h).imp termWithin_of_factor
    · cases h
  | succ more ih =>
    rcases bind_eq_error.mp h with h | ⟨⟨f, c₁⟩, hf, h⟩
    · exact (hstuck h).imp termWithin_of_factor
    obtain ⟨hderives, hdepth⟩ := hsound hf
    dsimp only at h
    split at h
    · next c₂ hword =>
      have hword := keyword?_eq_some_iff.mp ⟨c₂, hword, rfl⟩
      rcases bind_eq_error.mp h with h | ⟨_, _, h⟩
      · refine Stuck.imp ?_ termWithin_of_more
        exact .joined (threads_factorWithin depth) (nests_factorWithin depth).leaves
          ⟨f, hdepth, hderives⟩ (blanks_skipBlanks c₁) (by decide) (by decide) hword (ih h)
      · cases h
    · cases h

theorem readTerms_stuck {more : Nat} {c : Cursor}
    (h : readTerms factor more c = .error failure) :
    Stuck g (NoRoom depth) failure (ExprWithin g depth) c.rest := by
  induction more generalizing c with
  | zero =>
    rcases bind_eq_error.mp h with h | ⟨_, _, h⟩
    · exact (readFactors_stuck hsound hstuck h).imp exprWithin_of_term
    · cases h
  | succ more ih =>
    rcases bind_eq_error.mp h with h | ⟨⟨t, c₁⟩, ht, h⟩
    · exact (readFactors_stuck hsound hstuck h).imp exprWithin_of_term
    obtain ⟨hderives, hdepth⟩ := readFactors_sound hsound ht
    dsimp only at h
    split at h
    · next c₂ hword =>
      have hword := keyword?_eq_some_iff.mp ⟨c₂, hword, rfl⟩
      rcases bind_eq_error.mp h with h | ⟨_, _, h⟩
      · refine Stuck.imp ?_ exprWithin_of_more
        exact .joined (threads_termWithin depth) (nests_termWithin depth).leaves
          ⟨t, hdepth, hderives⟩ (blanks_skipBlanks c₁) (by decide) (by decide) hword (ih h)
      · cases h
    · cases h

end

/-- Where no comparison can be read, one can be written out. -/
theorem readComparison_skipBlanks_stuck (hg : g.HasField) {depth : Nat} {c : Cursor}
    (hparen : g.Leads (FactorWithin g depth) .openParen ∨
      ∀ pre, Blanks pre [] → NoRoom depth .openParen pre)
    (h : g.readComparison c.skipBlanks = .error failure) :
    Stuck g (NoRoom depth) failure (FactorWithin g depth) c.rest := by
  rcases readComparison_stuck (startsBare_skipBlanks c) h with ⟨hat, hexpected⟩ | hstuck
  · refine .here factorWithin_of_blanks (blanks_skipBlanks c) hat (completes_factorWithin hg depth)
      (fun x hx => ?_) fun x hx => ?_
    · rcases List.mem_pair.mp (hexpected hx) with rfl | rfl
      · exact hparen
      · exact .inl (leads_fieldName g depth)
    · rcases List.mem_pair.mp (hexpected hx) with rfl | rfl
      · exact follows_of_meets fun h => h
      · exact follows_of_meets fun h => h
  · have hbehind := hstuck.after threads_blanks (blanks_skipBlanks c)
    exact (hbehind.imp factorWithin_of_comparison).weaken False.elim

-- ---------------------------------------------------------------------------
-- Behind an expression
-- ---------------------------------------------------------------------------

section

variable {depth : Nat} {cs rest : List Char}

/-- A term behind `and` belongs to the last term of the expression. -/
theorem exprWithin_appendTerm {u : Term} {a b d : List Char} (hb : Blanks a b)
    (hword : Keyword "and" b d) (hdepth' : u.nesting ≤ depth) (hu : DerivesTerm g u d rest) :
    ∀ {e : Expr} {cs : List Char}, e.nesting ≤ depth → DerivesExpr g e cs a →
      ExprWithin g depth cs rest
  | .one t, _, hdepth, .one ht => ⟨.one (t.append u), nesting_termAppend hdepth' hdepth,
      .one (derivesTerm_append hb hword hu ht)⟩
  | .more t e, _, hdepth, .more ht hb' hword' he => by
    obtain ⟨hfirst, hothers⟩ := Nat.max_le.mp hdepth
    obtain ⟨e', hnesting, he'⟩ := exprWithin_appendTerm hb hword hdepth' hu hothers he
    exact ⟨.more t e', Nat.max_le.mpr ⟨hfirst, hnesting⟩, .more ht hb' hword' he'⟩

theorem exprWithin_of_and (h : Comp (ExprWithin g depth)
    (Comp Blanks (Comp (Keyword "and") (TermWithin g depth))) cs rest) :
    ExprWithin g depth cs rest := by
  obtain ⟨a, ⟨e, hdepth, he⟩, b, hb, d, hword, u, hdepth', hu⟩ := h
  exact exprWithin_appendTerm hb hword hdepth' hu hdepth he

/-- An expression behind `or` goes on with the terms. -/
theorem exprWithin_of_or (h : Comp (ExprWithin g depth)
    (Comp Blanks (Comp (Keyword "or") (ExprWithin g depth))) cs rest) :
    ExprWithin g depth cs rest := by
  obtain ⟨a, ⟨e, hdepth, he⟩, b, hb, d, hword, u, hdepth', hu⟩ := h
  exact ⟨e.append u, nesting_exprAppend hdepth' hdepth, derivesExpr_append hb hword hu he⟩

variable {B P : List Char → List Char → Prop} {used gap post : List Char} {x : Expectation}

/-- Behind an expression and white space stands a keyword, if what follows the keyword belongs to
the expression. -/
theorem offers_keyword {word : String} (hx : g.HasToken x)
    (hspells : ∀ w, g.Spells x w → Keyword word w []) (hword : Threads Parted (Keyword word))
    (hP : Threads Parted P) (hcompletes : Completes P []) (hB : Completes B [])
    (hjoin : ∀ {cs rest}, Comp (ExprWithin g depth) (Comp Blanks (Comp (Keyword word) P)) cs rest →
      ExprWithin g depth cs rest)
    (hused : ∀ rest', Fits Parted used rest' (gap ++ post) →
      ExprWithin g depth (used ++ rest') rest')
    (hfollows : g.Follows Parted x) (hgap : ∀ c ∈ gap, Text.isBlank c = true) :
    g.Offers (Comp (ExprWithin g depth) B) (used ++ gap) x := by
  have hleads : g.Leads (Comp (Keyword word) (Comp P B)) x :=
    (leads_of_token hx hspells).comp hword (hcompletes.comp hP hB)
  have hbehind : g.Offers (Comp Blanks (Comp (Keyword word) (Comp P B))) gap x := by
    refine hleads.blanks.offers ?_ hgap
    rintro cs mid rest hb ⟨a, hb', ha⟩
    exact ⟨a, hb.trans hb', ha⟩
  refine (Offers.after hused (fun _ => hfollows) hbehind).imp ?_
  rintro cs rest ⟨a, he, b, hb, d, hword, f, hp, hrest⟩
  exact ⟨f, hjoin ⟨a, he, b, hb, d, hword, hp⟩, hrest⟩

/-- Behind an expression more of it can stand, or what is last expected. -/
theorem stuck_behindExpr (hg : g.HasField) {aside : Expectation → List Char → Prop} {c : Cursor}
    {last : Expectation} (he : ExprWithin g depth cs c.rest)
    (hblanks : ∀ {cs mid rest}, Blanks cs mid → B mid rest → B cs rest) (hB : Completes B [])
    (hlast : g.Leads B last ∨ ∀ {used gap}, (∀ c ∈ gap, Text.isBlank c = true) →
      (∀ rest', Fits Parted used rest' c.rest → ExprWithin g depth (used ++ rest') rest') →
        aside last (used ++ gap)) (hfollows : g.Follows Parted last) :
    Stuck g aside (.unexpected c.skipBlanks [.andWord, .orWord, last])
      (Comp (ExprWithin g depth) B) cs := by
  obtain ⟨used, rfl, hused⟩ := (threads_exprWithin depth).exchange he
  obtain ⟨gap, hgap, hblank⟩ := blanks_skipBlanks c
  rw [hgap] at hused hlast ⊢
  have handFollows : g.Follows Parted .andWord := follows_of_meets fun h => h
  have horFollows : g.Follows Parted .orWord := follows_of_meets fun h => h
  refine ⟨used ++ gap, _, (List.append_assoc ..).symm, Failure.at_afterBlanks .., ?_, ?_,
    fun _ => List.forall_mem_cons.mpr ⟨handFollows, List.forall_mem_cons.mpr
      ⟨horFollows, List.forall_mem_singleton.mpr hfollows⟩⟩⟩
  · obtain ⟨cont, hcont⟩ := hB
    refine ⟨cont, gap ++ ' ' :: cont, ?_, hblanks ⟨gap, rfl, hblank⟩ hcont⟩
    rw [List.append_assoc]
    exact hused _ (.inl ((replaces_space cont _).append gap))
  · have hand : g.Offers (Comp (ExprWithin g depth) B) (used ++ gap) .andWord :=
      offers_keyword trivial (fun _ hw => hw) (threads_keyword Parted.word (by decide) (by decide))
        (threads_termWithin depth) ((completes_factorWithin hg depth).imp termWithin_of_factor) hB
        exprWithin_of_and hused handFollows hblank
    have hor : g.Offers (Comp (ExprWithin g depth) B) (used ++ gap) .orWord :=
      offers_keyword trivial (fun _ hw => hw) (threads_keyword Parted.word (by decide) (by decide))
        (threads_exprWithin depth) (completes_exprWithin hg depth) hB exprWithin_of_or hused
        horFollows hblank
    have hend : g.Offers (Comp (ExprWithin g depth) B) (used ++ gap) last ∨
        aside last (used ++ gap) :=
      hlast.imp (fun hleads => (hleads.offers hblanks hblank).after hused fun _ => hfollows)
        fun haside => haside hblank hused
    exact List.forall_mem_cons.mpr ⟨.inl hand, List.forall_mem_cons.mpr
      ⟨.inl hor, List.forall_mem_singleton.mpr hend⟩⟩

end

theorem readFactor_stuck (hg : g.HasField) {depth : Nat} {c : Cursor}
    (h : g.readFactor depth c = .error failure) :
    Stuck g (NoRoom depth) failure (FactorWithin g depth) c.rest := by
  induction depth generalizing c failure with
  | zero =>
    unfold readFactor at h
    dsimp only at h
    split at h
    · next hopen =>
      injection h with h
      subst h
      exact .here factorWithin_of_blanks (blanks_skipBlanks c)
        (Failure.at_misfit g (beginsWith_char (by decide) hopen) _) (completes_factorWithin hg 0)
        (List.forall_mem_singleton.mpr (.inl (leads_fieldName g 0)))
        (List.forall_mem_singleton.mpr (follows_of_meets fun h => h))
    · rcases bind_eq_error.mp h with h | ⟨_, _, h⟩
      · refine readComparison_skipBlanks_stuck hg (.inr ?_) h
        rintro pre ⟨gap, rfl, hgap⟩
        rw [List.append_nil]
        exact ⟨rfl, (closes_of_blank hgap).opens⟩
      · cases h
  | succ depth ih =>
    unfold readFactor at h
    dsimp only at h
    split at h
    · next c₁ hopen =>
      have hopen : Sign '(' c.rest c₁.rest :=
        (char?_skipBlanks_iff (by decide)).mp ⟨c₁, hopen, rfl⟩
      refine Stuck.imp (.opening (threads_sign '(') leaves_openParen hopen ?_) factorWithin_of_group
      rcases bind_eq_error.mp h with h | ⟨⟨e, c₂⟩, he, h⟩
      · exact .before (threads_exprWithin depth) (readTerms_stuck readFactor_sound ih h)
          (completes_sign ')')
      · obtain ⟨hderives, hdepth⟩ := readTerms_sound readFactor_sound he
        dsimp only at h
        split at h
        · cases h
        · injection h with h
          subst h
          exact stuck_behindExpr hg ⟨e, hdepth, hderives⟩ Blanks.trans (completes_sign ')')
            (.inl (leads_sign trivial fun _ hw => hw)) (follows_of_meets fun h => h)
    · rcases bind_eq_error.mp h with h | ⟨_, _, h⟩
      · exact readComparison_skipBlanks_stuck hg (.inl (leads_openParen hg depth)) h
      · cases h

-- ---------------------------------------------------------------------------
-- Whole texts
-- ---------------------------------------------------------------------------

/-- The end of the text is expected where an expression ends, also behind more white space, or an
opening parenthesis where no more of them may be opened. -/
def Aside (g : Grammar) (x : Expectation) (pre : List Char) : Prop :=
  (x = .endOfInput ∧ ∀ gap, (∀ c ∈ gap, Text.isBlank c = true) →
    Comp (ExprWithin g maxNesting) Blanks (pre ++ gap) []) ∨ NoRoom maxNesting x pre

theorem readAll_stuck (hg : g.HasField) {input : List Char}
    (h : g.readAll input = .error failure) :
    Stuck g g.Aside failure (Comp (ExprWithin g maxNesting) Blanks) input := by
  rcases bind_eq_error.mp h with h | ⟨⟨e, c⟩, he, h⟩
  · have hstuck := readTerms_stuck readFactor_sound (readFactor_stuck hg) h
    exact (hstuck.before (threads_exprWithin maxNesting) ⟨[], blanks_space []⟩).weaken .inr
  · obtain ⟨hderives, hdepth⟩ := readTerms_sound readFactor_sound he
    dsimp only at h
    split at h
    · cases h
    · injection h with h
      subst h
      refine stuck_behindExpr hg ⟨e, hdepth, hderives⟩ Blanks.trans ⟨[], blanks_space []⟩
        (.inr fun {used gap} hgap hused => .inl ⟨rfl, fun gap' hgap' => ?_⟩)
        (follows_of_meets fun h => h)
      have hblank := List.forall_mem_append.mpr ⟨hgap, hgap'⟩
      rw [List.append_assoc]
      exact ⟨_, hused _ (.inl (replaces_of_blank hblank _)), gap ++ gap',
        (List.append_nil _).symm, hblank⟩

/-- What can be derived is parsed. -/
theorem exists_parse (hg : g.Unambiguous) {cs : List Char}
    (h : Comp (ExprWithin g maxNesting) Blanks cs []) :
    ∃ e, g.parse (String.ofList cs) = .ok e := by
  obtain ⟨rest, ⟨e, hdepth, he⟩, hb⟩ := h
  have hderives : g.Derives (String.ofList cs) e := by
    refine ⟨⟨rest, ?_, hb⟩, hdepth⟩
    rwa [String.toList_ofList]
  obtain ⟨e', hparse, -⟩ := parse_complete hg hderives
  exact ⟨e', hparse⟩

theorem resolve?_eq_none {name : String} (h : g.resolve? name = none) :
    ∀ p ∈ g.productions, p.field ≠ name := by
  intro p hp hname
  have := List.find?_eq_none.mp h p (List.mem_reverse.mpr hp)
  exact this (beq_iff_eq.mpr hname)

/-- A failure about the second part of a text becomes an error with the text split there. -/
theorem toError_misfit {input pre post : List Char} (hsplit : input = pre ++ post) {place : Cursor}
    (hplace : place.rest = post) (found : Option (List Char)) (expected : List Expectation) :
    (Failure.misfit place found expected).toError input =
      .malformed ⟨pre, post, found, expected⟩ := by
  rw [Failure.toError, hplace, hsplit, List.length_append, Nat.add_sub_cancel, List.take_left]

/-- What stands before the place of an error can be completed, and the error tells the place. -/
theorem parse_eq_error_cases (hg : g.Unambiguous) (hfield : g.HasField) {text : String}
    {err : Error} (h : g.parse text = .error err) :
    ∃ before after, text = before ++ after ∧
      (∃ cont e, g.parse (before ++ cont) = .ok e) ∧
      ((∃ misfit, err = .malformed misfit ∧ Text.utf8Length before.toList = misfit.offset ∧
          (misfit.found = none → after = "")) ∨
        ∃ name, err = .unknownField name ∧ (∃ rest, Identifier name.toList after.toList rest) ∧
          ∀ p ∈ g.productions, p.field ≠ name) := by
  unfold parse at h
  split at h
  · cases h
  · next failure hfailure =>
    injection h with h
    subst h
    obtain ⟨pre, post, hsplit, hat, hcompletes, -, -⟩ := readAll_stuck hfield hfailure
    obtain ⟨cont, hcont⟩ := hcompletes
    obtain ⟨e, hparse⟩ := exists_parse hg hcont
    rw [String.ofList_append] at hparse
    have htext : text = String.ofList pre ++ String.ofList post := by
      rw [← String.ofList_append, ← hsplit, String.ofList_toList]
    refine ⟨_, _, htext, ⟨_, e, hparse⟩, ?_⟩
    cases failure with
    | misfit place found expected =>
      obtain ⟨hplace, hfinds⟩ := hat
      refine .inl ⟨_, toError_misfit hsplit hplace found expected, ?_, fun hfound => ?_⟩
      · rw [String.toList_ofList, Misfit.offset]
      · have hfound : found = none := hfound
        rw [hfound] at hfinds
        rw [show post = [] from hfinds, String.ofList_nil]
    | unknownField name =>
      obtain ⟨⟨rest, hname⟩, hnone⟩ := hat
      refine .inr ⟨_, rfl, ⟨rest, ?_⟩, resolve?_eq_none hnone⟩
      rwa [String.toList_ofList, String.toList_ofList]

end Grammar

open Grammar

/-- The first field of every resource can be filtered by. -/
theorem Resource.hasField {r : Resource} {g : Grammar} (hg : r.grammar = .ok g) : g.HasField := by
  have hfirst : ∀ r : Resource, ∃ f ∈ r.schema.fields, ∃ p, f.production? = some p := by
    intro r
    cases r <;> exact ⟨_, List.mem_cons_self .., _, rfl⟩
  obtain ⟨f, hf, p, hp⟩ := hfirst r
  have hmem : p ∈ g.productions := by
    rw [productions_of_generate hg]
    exact List.mem_filterMap.mpr ⟨f, hf, hp⟩
  obtain ⟨kind, -, rfl⟩ := Option.map_eq_some_iff.mp hp
  exact ⟨_, hmem, fieldName_isIdentifier hf⟩

/--
**Where errors stand.** What stands before the place of an error can be continued to an expression
of the resource: before the offset in bytes if the text has not the form of an expression, and
before a field name, as long as it goes, that the grammar does not have. A text that ends too early
can itself be continued.
-/
theorem parse_error_completable (r : Resource) (text : String) :
    (∀ misfit, r.parse text = .error (.malformed misfit) →
      (∃ before after, text = before ++ after ∧
        Text.utf8Length before.toList = misfit.offset ∧
        ∃ cont e, r.parse (before ++ cont) = .ok e) ∧
      (misfit.found = none → ∃ cont e, r.parse (text ++ cont) = .ok e)) ∧
    ∀ name, r.parse text = .error (.unknownField name) →
      ∃ before after rest, text = before ++ after ∧ Identifier name.toList after.toList rest ∧
        (∃ g, r.grammar = .ok g ∧ ∀ p ∈ g.productions, p.field ≠ name) ∧
        ∃ cont e, r.parse (before ++ cont) = .ok e := by
  obtain ⟨g, hg, hunambiguous⟩ := r.exists_grammar
  simp only [Resource.parse_eq hg]
  constructor
  · intro misfit h
    obtain ⟨before, after, rfl, hcont, hcases⟩ :=
      parse_eq_error_cases hunambiguous (Resource.hasField hg) h
    obtain ⟨_, herr, hoffset, hend⟩ | ⟨_, herr, _⟩ := hcases
    · injection herr with herr
      subst herr
      refine ⟨⟨before, after, rfl, hoffset, hcont⟩, fun hfound => ?_⟩
      rwa [hend hfound, String.append_empty]
    · cases herr
  · intro name h
    obtain ⟨before, after, rfl, hcont, hcases⟩ :=
      parse_eq_error_cases hunambiguous (Resource.hasField hg) h
    obtain ⟨_, herr, _⟩ | ⟨_, herr, ⟨rest, hname⟩, hnone⟩ := hcases
    · cases herr
    · injection herr with herr
      subst herr
      exact ⟨before, after, rest, rfl, hname, ⟨g, hg, hnone⟩, hcont⟩

/-- A text that ends behind a backslash within a quoted key, and a text with a name that no field
has. -/
theorem parse_error_completable_openKey :
    (∃ misfit,
      Resource.session.parse "(session_id = a or options['x\\" = .error (.malformed misfit) ∧
      misfit.offset = 30 ∧
      ∃ cont e, Resource.session.parse ("(session_id = a or options['x\\" ++ cont) = .ok e) ∧
    Resource.session.parse "duration > 1s and(statuss=1" = .error (.unknownField "statuss") ∧
      ∃ before after rest, "duration > 1s and(statuss=1" = before ++ after ∧
        Identifier "statuss".toList after.toList rest ∧
        ∃ cont e, Resource.session.parse (before ++ cont) = .ok e := by
  have hopen : ∃ misfit, Resource.session.parse "(session_id = a or options['x\\" =
      .error (.malformed misfit) ∧ misfit.offset = 30 ∧ misfit.found = none := ⟨_, rfl, rfl, rfl⟩
  obtain ⟨misfit, hmisfit, hoffset, hfound⟩ := hopen
  refine ⟨⟨misfit, hmisfit, hoffset, ?_⟩, rfl, ?_⟩
  · exact ((parse_error_completable _ _).1 misfit hmisfit).2 hfound
  · obtain ⟨before, after, rest, hsplit, hname, -, hcont⟩ :=
      (parse_error_completable .session "duration > 1s and(statuss=1").2 "statuss" rfl
    exact ⟨before, after, rest, hsplit, hname, hcont⟩

end ClusterFilter
