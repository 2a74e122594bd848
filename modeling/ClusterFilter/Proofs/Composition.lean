import ClusterFilter.Proofs.Canonical
import ClusterFilter.Proofs.Expression.Continuation

/-!
# ClusterFilter — texts made of texts

Texts that compile can be joined by `or`, joined by `and` if they are single terms, and put between
parentheses if there is room for one more pair. The result compiles to the combination of the
predicates, and not only to an equivalent of it: the parts may be any texts, with white space and
quotes of any kind, and the tree of the whole is a tree of trees only after flattening.

Two gaps are bridged:

* **Where a part ends** — what stands behind an expression could change how its last token is
  read. A delimiter does not, and so neither a space nor a closing parenthesis (`Derives.behind`).
* **How parts are grouped** — the reader groups the terms of a joined text to the right, wherever
  the border of the parts was. The combiners are associative, and so the border does not matter.

Main results:

* `Means.or`, `Means.and`, `Means.group` — what joined texts and texts in parentheses mean.
* `compile_compositional` — what they compile to, and that `and` binds tighter than `or`.
-/

namespace ClusterFilter

open Grammar Token

-- ---------------------------------------------------------------------------
-- Joined derivations
-- ---------------------------------------------------------------------------

namespace Grammar

variable {g : Grammar} {text text' : String} {e e' : Expr} {t t' : Term}

/-- A text reads as before in front of a character that ends every token. White space at the end of
the text is left over. -/
theorem Derives.behind (h : g.Derives text e) {x : Char} (hx : EndsToken x) (cs : List Char) :
    ∃ rest, DerivesExpr g e (text.toList ++ x :: cs) rest ∧ Blanks rest (x :: cs) := by
  obtain ⟨⟨rest, hderives, hblanks⟩, -⟩ := h
  obtain ⟨gap, hgap, hblank⟩ := hblanks
  rw [List.append_nil] at hgap
  subst hgap
  obtain ⟨used, hsplit, hexchange⟩ := (threads_derivesExpr e).exchange hderives
  have hreplaces : Replaces (rest ++ x :: cs) rest := by
    have h := (replaces_of_endsToken hx cs []).append rest
    rwa [List.append_nil] at h
  refine ⟨rest ++ x :: cs, ?_, rest, rfl, hblank⟩
  rw [hsplit, List.append_assoc]
  exact hexchange _ (.inl hreplaces)

/-- Behind a text stands a keyword between spaces, and then another text. -/
theorem Derives.behind_keyword (h : g.Derives text e) (word : String) (cs : List Char) :
    ∃ a, DerivesExpr g e (text.toList ++ ' ' :: (word.toList ++ ' ' :: cs)) a ∧
      Blanks a (word.toList ++ ' ' :: cs) ∧
      Keyword word (word.toList ++ ' ' :: cs) (' ' :: cs) := by
  obtain ⟨a, hderives, hblanks⟩ := h.behind (x := ' ') (by decide) (word.toList ++ ' ' :: cs)
  exact ⟨a, hderives, hblanks.trans (blanks_space _), word.toList, rfl,
    beq_self_eq_true (Text.lower word.toList), rfl⟩

theorem Derives.or (h : g.Derives text e) (h' : g.Derives text' e') :
    g.Derives (text ++ " or " ++ text') (e.append e') := by
  obtain ⟨a, hderives, hblanks, hword⟩ := h.behind_keyword "or" text'.toList
  obtain ⟨⟨rest, hderives', hend⟩, hdepth'⟩ := h'
  refine ⟨⟨rest, ?_, hend⟩, nesting_exprAppend hdepth' h.2⟩
  rw [String.toList_append, String.toList_append, List.append_assoc]
  exact derivesExpr_append hblanks hword (derivesExpr_of_blanks (blanks_space _) hderives') hderives

theorem Derives.and (h : g.Derives text (.one t)) (h' : g.Derives text' (.one t')) :
    g.Derives (text ++ " and " ++ text') (.one (t.append t')) := by
  obtain ⟨a, hderives, hblanks, hword⟩ := h.behind_keyword "and" text'.toList
  obtain ⟨⟨rest, hderives', hend⟩, hdepth'⟩ := h'
  rw [derivesExpr_one_iff] at hderives hderives'
  refine ⟨⟨rest, .one ?_, hend⟩, nesting_termAppend hdepth' h.2⟩
  rw [String.toList_append, String.toList_append, List.append_assoc]
  exact derivesTerm_append hblanks hword (derivesTerm_of_blanks (blanks_space _) hderives') hderives

theorem Derives.group (h : g.Derives text e) (hdepth : e.nesting < maxNesting) :
    g.Derives ("(" ++ text ++ ")") (.one (.one (.group e))) := by
  obtain ⟨a, hderives, hclose⟩ := h.behind (x := ')') (by decide) []
  refine ⟨⟨[], ?_, .refl []⟩, hdepth⟩
  rw [String.toList_append, String.toList_append, List.append_assoc]
  exact .one (.one (.group (.refl _) hderives hclose))

end Grammar

-- ---------------------------------------------------------------------------
-- What joined texts mean
-- ---------------------------------------------------------------------------

/-- The text reads as the expression, and the expression is lowered to the predicate. -/
structure Means [Build] (r : Resource) (g : Grammar) (text : String) (e : Expr) (p : Predicate) :
    Prop where
  derives : g.Derives text e
  lowers : e.lower r = .ok p

section

variable [Build] {r : Resource} {g : Grammar} {text text' : String} {e e' : Expr} {t t' : Term}
  {p q : Predicate}

theorem Means.or (h : Means r g text e p) (h' : Means r g text' e' q) :
    Means r g (text ++ " or " ++ text') (e.append e') (p.or q) :=
  ⟨h.derives.or h'.derives, lower_exprAppend h'.lowers h.lowers⟩

theorem Means.and (h : Means r g text (.one t) p) (h' : Means r g text' (.one t') q) :
    Means r g (text ++ " and " ++ text') (.one (t.append t')) (p.and q) := by
  refine ⟨h.derives.and h'.derives, ?_⟩
  rw [Expr.lower_one]
  exact lower_termAppend ((Expr.lower_one t').symm.trans h'.lowers)
    ((Expr.lower_one t).symm.trans h.lowers)

theorem Means.group (h : Means r g text e p) (hdepth : e.nesting < maxNesting) :
    Means r g ("(" ++ text ++ ")") (.one (.one (.group e))) p := by
  refine ⟨h.derives.group hdepth, ?_⟩
  rw [Expr.lower_one, Term.lower_one, Factor.lower]
  exact h.lowers

/-- A text that is parsed and compiles means its tree and its predicate. -/
theorem means_of_compile (hg : r.grammar = .ok g) (hparse : r.parse text = .ok e)
    (hcompile : r.compile text = .ok p) : Means r g text e p := by
  obtain ⟨e', hparse', hlower⟩ := Resource.compile_eq_ok_iff.mp hcompile
  rw [hparse] at hparse'
  injection hparse' with hsame
  rw [Resource.parse_eq hg] at hparse
  exact ⟨parse_sound hparse, hsame ▸ hlower⟩

theorem Means.compile (h : Means r g text e p) (hg : r.grammar = .ok g)
    (hunambiguous : g.Unambiguous) : r.compile text = .ok p :=
  Resource.compile_of_derives hg hunambiguous h.derives h.lowers

end

-- ---------------------------------------------------------------------------
-- What joined texts compile to
-- ---------------------------------------------------------------------------

namespace Resource

/-- The text is a single term: it has no `or` outside of parentheses. -/
def IsTerm (r : Resource) (text : String) : Prop :=
  ∃ t, r.parse text = .ok (.one t)

/-- No more than `depth` parentheses of the text are open at once. -/
def NestsWithin (r : Resource) (depth : Nat) (text : String) : Prop :=
  ∃ e, r.parse text = .ok e ∧ e.nesting ≤ depth

end Resource

/--
**Compositional compilation.** Texts that compile are joined by `or` to a text that compiles to the
disjunction of their predicates; single terms are joined by `and` to one that compiles to the
conjunction; and a text with room for one more pair of parentheses compiles to the same predicate
between them. So `and` binds tighter than `or`: putting `a and b` between parentheses in front of
`or c` changes nothing.
-/
theorem compile_compositional [Build] (r : Resource) :
    (∀ s t p q, r.compile s = .ok p → r.compile t = .ok q →
      r.compile (s ++ " or " ++ t) = .ok (p.or q)) ∧
    (∀ s t p q, r.compile s = .ok p → r.compile t = .ok q → r.IsTerm s → r.IsTerm t →
      r.compile (s ++ " and " ++ t) = .ok (p.and q)) ∧
    (∀ s p, r.compile s = .ok p → r.NestsWithin 63 s → r.compile ("(" ++ s ++ ")") = .ok p) ∧
    ∀ a b c p q o, r.compile a = .ok p → r.compile b = .ok q → r.compile c = .ok o →
      r.IsTerm a → r.IsTerm b →
        r.compile (a ++ " and " ++ b ++ " or " ++ c) = .ok ((p.and q).or o) ∧
        (r.NestsWithin 63 a → r.NestsWithin 63 b →
          r.compile ("(" ++ (a ++ " and " ++ b) ++ ")" ++ " or " ++ c) = .ok ((p.and q).or o)) := by
  obtain ⟨g, hg, hunambiguous⟩ := r.exists_grammar
  have hmeans : ∀ {s p}, r.compile s = .ok p → ∃ e, r.parse s = .ok e ∧ Means r g s e p := by
    intro s p h
    obtain ⟨e, hparse, -⟩ := Resource.compile_eq_ok_iff.mp h
    exact ⟨e, hparse, means_of_compile hg hparse h⟩
  refine ⟨?_, ?_, ?_, ?_⟩
  · intro s t p q hs ht
    obtain ⟨e, -, he⟩ := hmeans hs
    obtain ⟨e', -, he'⟩ := hmeans ht
    exact (he.or he').compile hg hunambiguous
  · intro s t p q hs ht ⟨u, hu⟩ ⟨u', hu'⟩
    exact ((means_of_compile hg hu hs).and (means_of_compile hg hu' ht)).compile hg hunambiguous
  · intro s p hs ⟨e, hparse, hdepth⟩
    have he := means_of_compile hg hparse hs
    exact (he.group (Nat.lt_succ_of_le hdepth)).compile hg hunambiguous
  · intro a b c p q o ha hb hc ⟨t, ht⟩ ⟨u, hu⟩
    have hboth := (means_of_compile hg ht ha).and (means_of_compile hg hu hb)
    obtain ⟨e, -, he⟩ := hmeans hc
    refine ⟨(hboth.or he).compile hg hunambiguous, ?_⟩
    rintro ⟨e₁, ht', hdepth⟩ ⟨e₂, hu', hdepth'⟩
    rw [ht] at ht'
    rw [hu] at hu'
    injection ht' with ht'
    injection hu' with hu'
    subst ht' hu'
    have hnesting : (Expr.one (t.append u)).nesting ≤ 63 := nesting_termAppend hdepth' hdepth
    exact ((hboth.group (Nat.lt_succ_of_le hnesting)).or he).compile hg hunambiguous

/-- A term without spaces, a term with a group and white space at its end, and a text with an `or`
and a quoted parenthesis. -/
theorem compile_compositional_running :
    ∃ p q o, Resource.session.compile "status=running" = .ok p ∧
      Resource.session.compile "(options.k = x or session_id != a) " = .ok q ∧
      Resource.session.compile "session_id = ')' or session_id = b" = .ok o ∧
      Resource.session.compile
        ("status=running" ++ " or " ++ "session_id = ')' or session_id = b") = .ok (p.or o) ∧
      Resource.session.compile ("(" ++ "(options.k = x or session_id != a) " ++ ")") = .ok q ∧
      Resource.session.compile
        ("(" ++ ("status=running" ++ " and " ++ "(options.k = x or session_id != a) ") ++ ")" ++
          " or " ++ "session_id = ')' or session_id = b") = .ok ((p.and q).or o) := by
  obtain ⟨hor, -, hgroup, htighter⟩ := compile_compositional .session
  have hp : Resource.session.compile "status=running" =
      .ok (.leaf ⟨⟨"status", none⟩, .value .status, .equal, .status ⟨"RUNNING", 1⟩⟩) := by
    decide +kernel
  have hq : Resource.session.compile "(options.k = x or session_id != a) " =
      .ok (.anyOf [.leaf ⟨⟨"options", some "k"⟩, .value .string, .equal, .string "x"⟩,
        .leaf ⟨⟨"session_id", none⟩, .value .string, .notEqual, .string "a"⟩]) := by
    decide +kernel
  have ho : Resource.session.compile "session_id = ')' or session_id = b" =
      .ok (.anyOf [.leaf ⟨⟨"session_id", none⟩, .value .string, .equal, .string ")"⟩,
        .leaf ⟨⟨"session_id", none⟩, .value .string, .equal, .string "b"⟩]) := by
    decide +kernel
  have hterm : Resource.session.IsTerm "status=running" := ⟨_, rfl⟩
  have hterm' : Resource.session.IsTerm "(options.k = x or session_id != a) " := ⟨_, rfl⟩
  have hnests : Resource.session.NestsWithin 63 "(options.k = x or session_id != a) " :=
    ⟨_, rfl, by decide⟩
  refine ⟨_, _, _, hp, hq, ho, hor _ _ _ _ hp ho, hgroup _ _ hq hnests, ?_⟩
  exact (htighter _ _ _ _ _ _ hp hq ho hterm hterm').2 ⟨_, rfl, by decide⟩ hnests

end ClusterFilter
