import ClusterFilter.Proofs.Expression.Comparison

/-!
# ClusterFilter — how expressions are read

A grammar reads exactly the trees that can be derived from the text. What is read is derived,
whatever follows it. What is derived is read only if the text does not go on with the keyword that
the reader would take (`Continues`): otherwise the reader goes on as well. Nothing of the kind can
follow a whole text or an expression in parentheses, and so nothing is left to choose.

The reader counts the parentheses that may still be opened, which comes to a bound on the nesting
of the tree. The loops over factors and terms are bounded by the length of the text, and no
derivation needs more rounds than that.

Main results:

* `readFactor_sound`, `readTerms_sound` — what is read is derived and nests no deeper than allowed.
* `readFactor_complete`, `readTerms_complete` — what is derived and nests no deeper is read.
* `parse_iff_derives` — a text is parsed to a tree, places aside, exactly if it reads as the tree,
  and it reads as one tree at most.
-/

namespace ClusterFilter

namespace Grammar

open Token Cursor

variable {g : Grammar}

-- ---------------------------------------------------------------------------
-- What is read is derived
-- ---------------------------------------------------------------------------

section

variable {factor : Reader Factor} {depth : Nat}
  (hfactor : ∀ {c f after}, factor c = .ok (f, after) →
    DerivesFactor g f c.rest after.rest ∧ f.nesting ≤ depth)

include hfactor

theorem readFactors_sound {more : Nat} {c after : Cursor} {t : Term}
    (h : readFactors factor more c = .ok (t, after)) :
    DerivesTerm g t c.rest after.rest ∧ t.nesting ≤ depth := by
  induction more generalizing c after t with
  | zero =>
    obtain ⟨⟨f, c₁⟩, hf, h⟩ := bind_eq_ok.mp h
    obtain ⟨hderives, hdepth⟩ := hfactor hf
    injection h with h
    injection h with ht hc
    subst ht hc
    exact ⟨.one hderives, hdepth⟩
  | succ more ih =>
    obtain ⟨⟨f, c₁⟩, hf, h⟩ := bind_eq_ok.mp h
    obtain ⟨hderives, hdepth⟩ := hfactor hf
    dsimp only at h
    split at h
    · next c₂ hword =>
      obtain ⟨⟨t', c₃⟩, ht, h⟩ := bind_eq_ok.mp h
      obtain ⟨hrest, hdepth'⟩ := ih ht
      injection h with h
      injection h with ht hc
      subst ht hc
      have hword := keyword?_eq_some_iff.mp ⟨c₂, hword, rfl⟩
      exact ⟨.more hderives (blanks_skipBlanks c₁) hword hrest, Nat.max_le.mpr ⟨hdepth, hdepth'⟩⟩
    · injection h with h
      injection h with ht hc
      subst ht hc
      exact ⟨.one hderives, hdepth⟩

theorem readTerms_sound {more : Nat} {c after : Cursor} {e : Expr}
    (h : readTerms factor more c = .ok (e, after)) :
    DerivesExpr g e c.rest after.rest ∧ e.nesting ≤ depth := by
  induction more generalizing c after e with
  | zero =>
    obtain ⟨⟨t, c₁⟩, ht, h⟩ := bind_eq_ok.mp h
    obtain ⟨hderives, hdepth⟩ := readFactors_sound hfactor ht
    injection h with h
    injection h with he hc
    subst he hc
    exact ⟨.one hderives, hdepth⟩
  | succ more ih =>
    obtain ⟨⟨t, c₁⟩, ht, h⟩ := bind_eq_ok.mp h
    obtain ⟨hderives, hdepth⟩ := readFactors_sound hfactor ht
    dsimp only at h
    split at h
    · next c₂ hword =>
      obtain ⟨⟨e', c₃⟩, he, h⟩ := bind_eq_ok.mp h
      obtain ⟨hrest, hdepth'⟩ := ih he
      injection h with h
      injection h with he hc
      subst he hc
      have hword := keyword?_eq_some_iff.mp ⟨c₂, hword, rfl⟩
      exact ⟨.more hderives (blanks_skipBlanks c₁) hword hrest, Nat.max_le.mpr ⟨hdepth, hdepth'⟩⟩
    · injection h with h
      injection h with he hc
      subst he hc
      exact ⟨.one hderives, hdepth⟩

end

theorem readComparison_skipBlanks_sound {c after : Cursor} {k : Comparison}
    (h : g.readComparison c.skipBlanks = .ok (k, after)) :
    DerivesFactor g (.comparison k) c.rest after.rest :=
  .comparison (blanks_skipBlanks c) (readComparison_sound h)

/-- What is read as a factor is derived from the text, and opens no more parentheses at once than
may still be opened. -/
theorem readFactor_sound {depth : Nat} {c after : Cursor} {f : Factor}
    (h : g.readFactor depth c = .ok (f, after)) :
    DerivesFactor g f c.rest after.rest ∧ f.nesting ≤ depth := by
  induction depth generalizing c after f with
  | zero =>
    unfold readFactor at h
    dsimp only at h
    split at h
    · cases h
    · obtain ⟨⟨k, c₁⟩, hk, h⟩ := bind_eq_ok.mp h
      injection h with h
      injection h with hf hc
      subst hf hc
      exact ⟨readComparison_skipBlanks_sound hk, Nat.le_refl _⟩
  | succ depth ih =>
    unfold readFactor at h
    dsimp only at h
    split at h
    · next c₁ hopen =>
      obtain ⟨⟨e, c₂⟩, he, h⟩ := bind_eq_ok.mp h
      obtain ⟨hderives, hdepth⟩ := readTerms_sound ih he
      dsimp only at h
      split at h
      · next c₃ hclose =>
        injection h with h
        injection h with hf hc
        subst hf hc
        have hopen := (char?_skipBlanks_iff (by decide)).mp ⟨c₁, hopen, rfl⟩
        have hclose := (char?_skipBlanks_iff (by decide)).mp ⟨c₃, hclose, rfl⟩
        exact ⟨.group hopen hderives hclose, Nat.succ_le_succ hdepth⟩
      · cases h
    · obtain ⟨⟨k, c₁⟩, hk, h⟩ := bind_eq_ok.mp h
      injection h with h
      injection h with hf hc
      subst hf hc
      exact ⟨readComparison_skipBlanks_sound hk, Nat.zero_le _⟩

-- ---------------------------------------------------------------------------
-- How much is derived
-- ---------------------------------------------------------------------------

theorem KeyPart.length_le {p : Production} {key : Option String} {cs rest : List Char}
    (h : KeyPart p key cs rest) : rest.length ≤ cs.length := by
  cases h with
  | absent _ => exact Nat.le_refl _
  | present _ hkey =>
    cases hkey with
    | dotted hpoint hb hrun =>
      have := hpoint.length_le
      have := hb.length_le
      have := hrun.length_lt
      rw [List.length_cons] at *
      omega
    | bracketed hopen hb hquoted hclose =>
      have := hopen.length_le
      have := hb.length_le
      have := hquoted.length_lt
      have := hclose.length_le
      rw [List.length_cons] at *
      omega

theorem LiteralToken.length_lt {kind : ValueKind} {l : Literal} {cs rest : List Char}
    (h : LiteralToken kind l cs rest) : rest.length < cs.length := by
  cases h with
  | bare _ _ hrun _ => exact hrun.length_lt
  | quoted _ _ _ hquoted => exact hquoted.length_lt

theorem DerivesComparison.length_lt {k : Comparison} {cs rest : List Char}
    (h : DerivesComparison g k cs rest) : rest.length < cs.length := by
  obtain ⟨p, _, _, _, _, _, _, _, _, hname, hkey, hb, hop, hd, hl⟩ := h
  have := hname.run.length_lt
  have := hkey.length_le
  have := hb.length_le
  have := hop.length_lt
  have := hd.length_le
  have := hl.length_lt
  omega

mutual

theorem length_lt_of_derivesExpr : ∀ {e : Expr} {cs rest : List Char},
    DerivesExpr g e cs rest → rest.length < cs.length
  | .one t, _, _, .one h => length_lt_of_derivesTerm h
  | .more t e, _, _, .more h hb hword he => by
    have := length_lt_of_derivesTerm h
    have := hb.length_le
    have := hword.length_le
    have := length_lt_of_derivesExpr he
    omega

theorem length_lt_of_derivesTerm : ∀ {t : Term} {cs rest : List Char},
    DerivesTerm g t cs rest → rest.length < cs.length
  | .one f, _, _, .one h => length_lt_of_derivesFactor h
  | .more f t, _, _, .more h hb hword ht => by
    have := length_lt_of_derivesFactor h
    have := hb.length_le
    have := hword.length_le
    have := length_lt_of_derivesTerm ht
    omega

/-- A factor takes at least one character off the text. -/
theorem length_lt_of_derivesFactor : ∀ {f : Factor} {cs rest : List Char},
    DerivesFactor g f cs rest → rest.length < cs.length
  | .comparison k, _, _, .comparison hb h => by
    have := hb.length_le
    have := h.length_lt
    omega
  | .group e, _, _, .group hopen he hclose => by
    have := hopen.length_le
    have := length_lt_of_derivesExpr he
    have := hclose.length_le
    rw [List.length_cons] at *
    omega

end

-- ---------------------------------------------------------------------------
-- What the text goes on with
-- ---------------------------------------------------------------------------

/-- Behind any white space the text goes on with the keyword. -/
def Continues (word : String) (cs : List Char) : Prop :=
  ∃ a b, Blanks cs a ∧ Keyword word a b

theorem keyword?_eq_none {word : String} {c : Cursor} (h : ¬ Continues word c.rest) :
    c.skipBlanks.keyword? word = none := by
  cases hword : c.skipBlanks.keyword? word with
  | none => rfl
  | some after =>
    exact absurd ⟨_, _, blanks_skipBlanks c, keyword?_eq_some_iff.mp ⟨after, hword, rfl⟩⟩ h

section

variable {word : String} {y : Char} {ys : List Char} (hword : word.toList = y :: ys)
  (hletters : word.toList.all Char.isAlpha = true)

include hword hletters

theorem keyword?_skipBlanks_of_keyword {c : Cursor} {a rest : List Char} (hb : Blanks c.rest a)
    (h : Keyword word a rest) :
    ∃ after, c.skipBlanks.keyword? word = some after ∧ after.rest = rest := by
  have hbare := h.startsBare (hword ▸ List.cons_ne_nil y ys) hletters
  rw [keyword?_eq_some_iff, skipBlanks_eq_of_blanks hb hbare]
  exact h

/-- A text does not go on with the keyword if something comes next that begins with another
letter. -/
theorem not_continues {cs next : List Char} (hb : Blanks cs next) (hbare : StartsBare next)
    (hhead : ∀ x ∈ next.head?, x.toLower ≠ y.toLower) : ¬ Continues word cs := by
  rintro ⟨a, b, ha, h⟩
  have hnext : next = a := by
    rw [← hb.dropBlanks_eq hbare,
      ← ha.dropBlanks_eq (h.startsBare (hword ▸ List.cons_ne_nil y ys) hletters)]
  obtain ⟨x, xs, hx, hsame⟩ := h.head_eq hword
  exact hhead x (by rw [hnext, hx, List.head?_cons]; rfl) hsame

end

theorem not_continues_and_of_or {cs a b : List Char} (hb : Blanks cs a) (h : Keyword "or" a b) :
    ¬ Continues "and" cs := by
  refine not_continues (y := 'a') rfl (by decide) hb (h.startsBare (by decide) (by decide)) ?_
  obtain ⟨x, xs, rfl, hx⟩ := h.head_eq (y := 'o') rfl
  refine Text.forall_mem_head?_cons ?_
  rw [hx]
  decide

/-- The text goes on with neither keyword. -/
def IsLast (cs : List Char) : Prop :=
  ¬ Continues "and" cs ∧ ¬ Continues "or" cs

theorem isLast_of_blanks {cs next : List Char} (hb : Blanks cs next)
    (hnext : next.head? = none ∨ next.head? = some ')') : IsLast cs := by
  have hhead : ∀ x ∈ next.head?, x = ')' := by
    intro x hx
    rcases hnext with h | h
    · rw [h] at hx
      cases hx
    · rw [h, Option.mem_some_iff] at hx
      exact hx.symm
  have hbare : StartsBare next := by
    intro x hx
    rw [hhead x hx]
    decide
  constructor
  · refine not_continues (y := 'a') rfl (by decide) hb hbare fun x hx => ?_
    rw [hhead x hx]
    decide
  · refine not_continues (y := 'o') rfl (by decide) hb hbare fun x hx => ?_
    rw [hhead x hx]
    decide

-- ---------------------------------------------------------------------------
-- What is derived is read
-- ---------------------------------------------------------------------------

/-- Where no parenthesis opens, a factor is a comparison, however deep it stands. -/
theorem readFactor_of_comparison {depth : Nat} {c after : Cursor} {k : Comparison}
    (hopen : c.skipBlanks.char? '(' = none)
    (hread : g.readComparison c.skipBlanks = .ok (k, after)) :
    g.readFactor depth c = .ok (.comparison k, after) := by
  cases depth with
  | zero =>
    unfold readFactor
    dsimp only
    rw [hopen]
    exact bind_eq_ok.mpr ⟨_, hread, rfl⟩
  | succ depth =>
    unfold readFactor
    dsimp only
    rw [hopen]
    exact bind_eq_ok.mpr ⟨_, hread, rfl⟩

/-- Where no `and` follows, a factor is a term. -/
theorem readFactors_one {factor : Reader Factor} {more : Nat} {c after : Cursor} {f : Factor}
    (h : factor c = .ok (f, after)) (hlast : ¬ Continues "and" after.rest) :
    readFactors factor more c = .ok (.one f, after) := by
  cases more with
  | zero => exact bind_eq_ok.mpr ⟨_, h, rfl⟩
  | succ more =>
    refine bind_eq_ok.mpr ⟨_, h, ?_⟩
    dsimp only
    rw [keyword?_eq_none hlast]

/-- Where no `or` follows, a term is an expression. -/
theorem readTerms_one {factor : Reader Factor} {more : Nat} {c after : Cursor} {t : Term}
    (h : readTerm factor c = .ok (t, after)) (hlast : ¬ Continues "or" after.rest) :
    readTerms factor more c = .ok (.one t, after) := by
  cases more with
  | zero => exact bind_eq_ok.mpr ⟨_, h, rfl⟩
  | succ more =>
    refine bind_eq_ok.mpr ⟨_, h, ?_⟩
    dsimp only
    rw [keyword?_eq_none hlast]

mutual

/-- What is derived from the text as a factor is read, but for its places. -/
theorem readFactor_complete (hg : g.Unambiguous) : ∀ {f : Factor} {depth : Nat} {c : Cursor}
    {rest : List Char}, DerivesFactor g f c.rest rest → f.nesting ≤ depth →
    ∃ f' after, g.readFactor depth c = .ok (f', after) ∧ f'.withoutSpans = f.withoutSpans ∧
      after.rest = rest
  | .comparison k, depth, c, rest, .comparison (a := a) hb h, _ => by
    obtain ⟨name, afterName, hname⟩ : ∃ name afterName, Identifier name a afterName := by
      obtain ⟨p, _, _, _, afterName, _, _, _, _, hname, _⟩ := h
      exact ⟨_, afterName, hname⟩
    have hskip := skipBlanks_eq_of_blanks hb hname.startsBare
    have hopen : c.skipBlanks.char? '(' = none := by
      apply char?_eq_none
      rw [hskip]
      exact hname.run.head?_ne (by decide)
    obtain ⟨k', after, hread, hsame, rfl⟩ := readComparison_complete hg (hskip ▸ h)
    refine ⟨.comparison k', after, readFactor_of_comparison hopen hread, ?_, rfl⟩
    rw [Factor.withoutSpans, Factor.withoutSpans, hsame]
  | .group e, depth + 1, c, rest, .group hopen he hclose, hdepth => by
    obtain ⟨c₁, hreadOpen, rfl⟩ := (char?_skipBlanks_iff (by decide)).mpr hopen
    obtain ⟨e', c₂, hread, hsame, rfl⟩ := readTerms_complete hg he (Nat.le_of_succ_le_succ hdepth)
      (isLast_of_blanks hclose (.inr rfl)) (Nat.le_refl c₁.rest.length)
    obtain ⟨c₃, hreadClose, rfl⟩ := (char?_skipBlanks_iff (by decide)).mpr hclose
    refine ⟨.group e', c₃, ?_, ?_, rfl⟩
    · unfold readFactor
      dsimp only
      rw [hreadOpen]
      refine bind_eq_ok.mpr ⟨_, hread, ?_⟩
      dsimp only
      rw [hreadClose]
    · rw [Factor.withoutSpans, Factor.withoutSpans, hsame]

theorem readFactors_complete (hg : g.Unambiguous) : ∀ {t : Term} {depth more : Nat} {c : Cursor}
    {rest : List Char}, DerivesTerm g t c.rest rest → t.nesting ≤ depth →
    ¬ Continues "and" rest → c.rest.length ≤ more →
    ∃ t' after, readFactors (g.readFactor depth) more c = .ok (t', after) ∧
      t'.withoutSpans = t.withoutSpans ∧ after.rest = rest
  | .one f, depth, more, c, rest, .one h, hdepth, hlast, _ => by
    obtain ⟨f', after, hread, hsame, rfl⟩ := readFactor_complete hg h hdepth
    refine ⟨.one f', after, readFactors_one hread hlast, ?_, rfl⟩
    rw [Term.withoutSpans, Term.withoutSpans, hsame]
  | .more f t, depth, more, c, rest, .more h hb hword ht, hdepth, hlast, hmore => by
    obtain ⟨hdepth, hdepth'⟩ := Nat.max_le.mp hdepth
    have hlength := length_lt_of_derivesFactor h
    obtain ⟨f', c₁, hread, hsame, rfl⟩ := readFactor_complete hg h hdepth
    have hgap := hb.length_le
    have htaken := hword.length_le
    obtain ⟨c₂, hreadWord, rfl⟩ :=
      keyword?_skipBlanks_of_keyword (y := 'a') rfl (by decide) hb hword
    cases more with
    | zero => omega
    | succ more =>
      have hmore : c₂.rest.length ≤ more := by omega
      obtain ⟨t', c₃, hread', hsame', rfl⟩ := readFactors_complete hg ht hdepth' hlast hmore
      refine ⟨.more f' t', c₃, ?_, ?_, rfl⟩
      · refine bind_eq_ok.mpr ⟨_, hread, ?_⟩
        dsimp only
        rw [hreadWord]
        exact bind_eq_ok.mpr ⟨_, hread', rfl⟩
      · rw [Term.withoutSpans, Term.withoutSpans, hsame, hsame']

theorem readTerms_complete (hg : g.Unambiguous) : ∀ {e : Expr} {depth more : Nat} {c : Cursor}
    {rest : List Char}, DerivesExpr g e c.rest rest → e.nesting ≤ depth →
    IsLast rest → c.rest.length ≤ more →
    ∃ e' after, readTerms (g.readFactor depth) more c = .ok (e', after) ∧
      e'.withoutSpans = e.withoutSpans ∧ after.rest = rest
  | .one t, depth, more, c, rest, .one h, hdepth, hlast, _ => by
    obtain ⟨t', after, hread, hsame, rfl⟩ :=
      readFactors_complete hg h hdepth hlast.1 (Nat.le_refl c.rest.length)
    refine ⟨.one t', after, readTerms_one hread hlast.2, ?_, rfl⟩
    rw [Expr.withoutSpans, Expr.withoutSpans, hsame]
  | .more t e, depth, more, c, rest, .more h hb hword he, hdepth, hlast, hmore => by
    obtain ⟨hdepth, hdepth'⟩ := Nat.max_le.mp hdepth
    have hlength := length_lt_of_derivesTerm h
    obtain ⟨t', c₁, hread, hsame, rfl⟩ := readFactors_complete hg h hdepth
      (not_continues_and_of_or hb hword) (Nat.le_refl c.rest.length)
    have hgap := hb.length_le
    have htaken := hword.length_le
    obtain ⟨c₂, hreadWord, rfl⟩ :=
      keyword?_skipBlanks_of_keyword (y := 'o') rfl (by decide) hb hword
    cases more with
    | zero => omega
    | succ more =>
      have hmore : c₂.rest.length ≤ more := by omega
      obtain ⟨e', c₃, hread', hsame', rfl⟩ := readTerms_complete hg he hdepth' hlast hmore
      refine ⟨.more t' e', c₃, ?_, ?_, rfl⟩
      · refine bind_eq_ok.mpr ⟨_, hread, ?_⟩
        dsimp only
        rw [hreadWord]
        exact bind_eq_ok.mpr ⟨_, hread', rfl⟩
      · rw [Expr.withoutSpans, Expr.withoutSpans, hsame, hsame']

end

-- ---------------------------------------------------------------------------
-- Places
-- ---------------------------------------------------------------------------

theorem derivesComparison_withoutSpans {k : Comparison} {cs rest : List Char} :
    DerivesComparison g k.withoutSpans cs rest ↔ DerivesComparison g k cs rest := by
  have hliteral : ∀ {kind : ValueKind} {cs : List Char},
      LiteralToken kind k.literal.withoutSpan cs rest ↔ LiteralToken kind k.literal cs rest := by
    intro kind cs
    constructor
    · intro h
      cases h with
      | bare hkind hplain hrun hshape => exact .bare hkind hplain hrun hshape
      | quoted hstring hkind hq hquoted => exact .quoted hstring hkind hq hquoted
    · intro h
      cases h with
      | bare hkind hplain hrun hshape => exact .bare hkind hplain hrun hshape
      | quoted hstring hkind hq hquoted => exact .quoted hstring hkind hq hquoted
  unfold DerivesComparison Comparison.withoutSpans
  simp only [hliteral]

mutual

/-- Where a comparison stands has no part in what is derived. -/
theorem derivesExpr_withoutSpans : ∀ {e : Expr} {cs rest : List Char},
    DerivesExpr g e.withoutSpans cs rest ↔ DerivesExpr g e cs rest
  | .one t, cs, rest => by
    rw [Expr.withoutSpans]
    constructor
    · rintro (h | _)
      exact .one (derivesTerm_withoutSpans.mp h)
    · rintro (h | _)
      exact .one (derivesTerm_withoutSpans.mpr h)
  | .more t e, cs, rest => by
    rw [Expr.withoutSpans]
    constructor
    · rintro (_ | ⟨h, hb, hword, he⟩)
      exact .more (derivesTerm_withoutSpans.mp h) hb hword (derivesExpr_withoutSpans.mp he)
    · rintro (_ | ⟨h, hb, hword, he⟩)
      exact .more (derivesTerm_withoutSpans.mpr h) hb hword (derivesExpr_withoutSpans.mpr he)

theorem derivesTerm_withoutSpans : ∀ {t : Term} {cs rest : List Char},
    DerivesTerm g t.withoutSpans cs rest ↔ DerivesTerm g t cs rest
  | .one f, cs, rest => by
    rw [Term.withoutSpans]
    constructor
    · rintro (h | _)
      exact .one (derivesFactor_withoutSpans.mp h)
    · rintro (h | _)
      exact .one (derivesFactor_withoutSpans.mpr h)
  | .more f t, cs, rest => by
    rw [Term.withoutSpans]
    constructor
    · rintro (_ | ⟨h, hb, hword, ht⟩)
      exact .more (derivesFactor_withoutSpans.mp h) hb hword (derivesTerm_withoutSpans.mp ht)
    · rintro (_ | ⟨h, hb, hword, ht⟩)
      exact .more (derivesFactor_withoutSpans.mpr h) hb hword (derivesTerm_withoutSpans.mpr ht)

theorem derivesFactor_withoutSpans : ∀ {f : Factor} {cs rest : List Char},
    DerivesFactor g f.withoutSpans cs rest ↔ DerivesFactor g f cs rest
  | .comparison k, cs, rest => by
    rw [Factor.withoutSpans]
    constructor
    · rintro (⟨hb, h⟩ | _)
      exact .comparison hb (derivesComparison_withoutSpans.mp h)
    · rintro (⟨hb, h⟩ | _)
      exact .comparison hb (derivesComparison_withoutSpans.mpr h)
  | .group e, cs, rest => by
    rw [Factor.withoutSpans]
    constructor
    · rintro (_ | ⟨hopen, he, hclose⟩)
      exact .group hopen (derivesExpr_withoutSpans.mp he) hclose
    · rintro (_ | ⟨hopen, he, hclose⟩)
      exact .group hopen (derivesExpr_withoutSpans.mpr he) hclose

end

mutual

theorem nesting_expr_withoutSpans : ∀ e : Expr, e.withoutSpans.nesting = e.nesting
  | .one t => nesting_term_withoutSpans t
  | .more t e => congrArg₂ max (nesting_term_withoutSpans t) (nesting_expr_withoutSpans e)

theorem nesting_term_withoutSpans : ∀ t : Term, t.withoutSpans.nesting = t.nesting
  | .one f => nesting_factor_withoutSpans f
  | .more f t => congrArg₂ max (nesting_factor_withoutSpans f) (nesting_term_withoutSpans t)

theorem nesting_factor_withoutSpans : ∀ f : Factor, f.withoutSpans.nesting = f.nesting
  | .comparison _ => rfl
  | .group e => congrArg (· + 1) (nesting_expr_withoutSpans e)

end

-- ---------------------------------------------------------------------------
-- Whole texts
-- ---------------------------------------------------------------------------

theorem derives_withoutSpans {text : String} {e : Expr} :
    g.Derives text e.withoutSpans ↔ g.Derives text e := by
  unfold Derives
  simp only [derivesExpr_withoutSpans, nesting_expr_withoutSpans]

theorem parse_eq_ok_iff {text : String} {e : Expr} :
    g.parse text = .ok e ↔ g.readAll text.toList = .ok e := by
  unfold parse
  cases g.readAll text.toList with
  | ok e' => exact ⟨fun h => by injection h with h; rw [h], fun h => by injection h with h; rw [h]⟩
  | error failure => exact ⟨nofun, nofun⟩

/-- What a text is parsed to, it reads as. -/
theorem parse_sound {text : String} {e : Expr} (h : g.parse text = .ok e) : g.Derives text e := by
  obtain ⟨⟨e', c⟩, he, h⟩ := bind_eq_ok.mp (parse_eq_ok_iff.mp h)
  obtain ⟨hderives, hdepth⟩ := readTerms_sound readFactor_sound he
  dsimp only at h
  split at h
  · next hend =>
    injection h with h
    subst h
    have hblanks := blanks_skipBlanks c
    rw [List.isEmpty_iff.mp hend] at hblanks
    exact ⟨⟨c.rest, hderives, hblanks⟩, hdepth⟩
  · cases h

/-- What a text reads as, it is parsed to, but for the places. -/
theorem parse_complete (hg : g.Unambiguous) {text : String} {e : Expr} (h : g.Derives text e) :
    ∃ e', g.parse text = .ok e' ∧ e'.withoutSpans = e.withoutSpans := by
  obtain ⟨⟨rest, hderives, hblanks⟩, hdepth⟩ := h
  obtain ⟨e', c, hread, hsame, rfl⟩ := readTerms_complete (c := Cursor.start text.toList) hg
    hderives hdepth (isLast_of_blanks hblanks (.inl rfl)) (Nat.le_refl _)
  refine ⟨e', parse_eq_ok_iff.mpr (bind_eq_ok.mpr ⟨_, hread, ?_⟩), hsame⟩
  dsimp only
  rw [skipBlanks_eq_of_blanks hblanks startsBare_nil, List.isEmpty_nil, if_pos rfl]

/--
**Exact parsing.** Where the fields of a grammar have distinct names, a text is parsed to a tree,
places aside, exactly if it reads as the tree; and it reads as one tree at most.
-/
theorem parse_iff_derives {resource : String} {fields : List Field}
    {statuses : Option (List Status)} (hg : generate resource fields statuses = .ok g)
    (hnames : (fields.map Field.name).Nodup) (text : String) :
    (∀ e, (∃ e', g.parse text = .ok e' ∧ e'.withoutSpans = e.withoutSpans) ↔ g.Derives text e) ∧
      ∀ e e', g.Derives text e → g.Derives text e' → e.withoutSpans = e'.withoutSpans := by
  have hunambiguous := unambiguous_of_generate hg hnames
  refine ⟨fun e => ⟨?_, parse_complete hunambiguous⟩, ?_⟩
  · rintro ⟨e', hparse, hsame⟩
    rw [← derives_withoutSpans, ← hsame, derives_withoutSpans]
    exact parse_sound hparse
  · intro e e' he he'
    obtain ⟨e₁, hparse, hsame⟩ := parse_complete hunambiguous he
    obtain ⟨e₂, hparse', hsame'⟩ := parse_complete hunambiguous he'
    rw [hparse] at hparse'
    injection hparse' with h
    rw [← hsame, ← hsame', h]

/-- In a grammar of two fields a text with a group reads as a tree, and one that ends within a
group does not. -/
theorem parse_iff_derives_twoFields :
    ∃ g, generate "node" [⟨"size", .value .number, false⟩, ⟨"tags", .value .string, true⟩] none =
        .ok g ∧
      (∃ e, g.Derives "size>=+3 OR ( tags . os contains 'x y' )" e) ∧
      ¬ ∃ e, g.Derives "size = 1 and (tags.os = a" e := by
  have hg : generate "node"
      [⟨"size", .value .number, false⟩, ⟨"tags", .value .string, true⟩] none =
      .ok ⟨"node", [⟨"size", .number, false, .ordered, .number⟩,
        ⟨"tags", .string, true, .text, .string⟩], []⟩ := rfl
  refine ⟨_, hg, ?_, ?_⟩
  · exact ⟨_, ((parse_iff_derives hg (by decide) _).1 _).mp ⟨_, rfl, rfl⟩⟩
  · rintro ⟨e, he⟩
    obtain ⟨e', h, -⟩ := ((parse_iff_derives hg (by decide) _).1 e).mpr he
    cases h

end Grammar

end ClusterFilter
