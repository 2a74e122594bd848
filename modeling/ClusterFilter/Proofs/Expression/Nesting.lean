import ClusterFilter.Proofs.Expression.Continuation

/-!
# ClusterFilter — parentheses that are open

How many parentheses are open at a place of a text is known from the characters before it, without
the grammar: a parenthesis counts unless it stands between quotes (`Scan`). The reader of
expressions counts the same in another way, by the depth that is left for its recursion.

Both come together in what is derived. An expression closes the parentheses that it opens, and has
no more open at once than its tree nests (`Closes`); the tokens of a comparison open none, because
a parenthesis ends every bare text and does not count in a quoted one.

Main results:

* `nests_derivesComparison`, `nests_derivesExpr` — what comparisons and expressions open and close.
* `Derives.closes` — no place of a text that reads as an expression has more than 64 parentheses
  open.
-/

namespace ClusterFilter

-- ---------------------------------------------------------------------------
-- Scanning
-- ---------------------------------------------------------------------------

/-- A place of a text as far as quotes and parentheses are concerned: outside of quotes, between
them, or behind a backslash between them, with a number of parentheses open. -/
inductive Scan where
  | outside (depth : Nat)
  | quoted (quote : Char) (depth : Nat)
  | escaped (quote : Char) (depth : Nat)
  deriving DecidableEq

namespace Scan

/-- The number of open parentheses. -/
def depth : Scan → Nat
  | outside n => n
  | quoted _ n => n
  | escaped _ n => n

/-- The place behind one more character. -/
def next : Scan → Char → Scan
  | outside n, c =>
    if c = '(' then outside (n + 1)
    else if c = ')' then outside (n - 1)
    else if c = '\x27' ∨ c = '\x22' then quoted c n
    else outside n
  | quoted quote n, c =>
    if c = '\\' then escaped quote n else if c = quote then outside n else quoted quote n
  | escaped quote n, _ => quoted quote n

/-- The place behind a text. -/
def behind (s : Scan) (cs : List Char) : Scan :=
  cs.foldl next s

/-- The most parentheses that are open at any place on the way through a text. -/
def peak (s : Scan) : List Char → Nat
  | [] => s.depth
  | c :: cs => max s.depth ((s.next c).peak cs)

theorem behind_append (s : Scan) (a b : List Char) : s.behind (a ++ b) = (s.behind a).behind b :=
  List.foldl_append

theorem depth_le_peak (s : Scan) (cs : List Char) : s.depth ≤ s.peak cs := by
  cases cs with
  | nil => exact Nat.le_refl _
  | cons c cs => exact Nat.le_max_left ..

theorem peak_append (s : Scan) (a b : List Char) :
    s.peak (a ++ b) = max (s.peak a) ((s.behind a).peak b) := by
  induction a generalizing s with
  | nil => exact (Nat.max_eq_right (depth_le_peak s b)).symm
  | cons c a ih =>
    rw [List.cons_append, peak, peak, ih, Nat.max_assoc]
    rfl

/-- From every place outside of quotes the text leads back to as many open parentheses, and on the
way no more than `d` are opened at once. -/
def Closes (d : Nat) (cs : List Char) : Prop :=
  ∀ n, (outside n).behind cs = outside n ∧ (outside n).peak cs ≤ n + d

/-- The text leaves `d` parentheses open, and no quote. -/
def Opens (d : Nat) (cs : List Char) : Prop :=
  ∀ n, (outside n).behind cs = outside (n + d)

section

variable {d d' : Nat} {a b cs : List Char}

theorem closes_nil (d : Nat) : Closes d [] :=
  fun n => ⟨rfl, Nat.le_add_right n d⟩

theorem Closes.append (ha : Closes d a) (hb : Closes d b) : Closes d (a ++ b) := by
  intro n
  obtain ⟨hbehind, hpeak⟩ := ha n
  refine ⟨?_, ?_⟩
  · rw [behind_append, hbehind, (hb n).1]
  · rw [peak_append, hbehind]
    exact Nat.max_le.mpr ⟨hpeak, (hb n).2⟩

theorem Closes.mono (h : Closes d cs) (hd : d ≤ d') : Closes d' cs :=
  fun n => ⟨(h n).1, Nat.le_trans (h n).2 (Nat.add_le_add_left hd n)⟩

/-- Parentheses around a text are one more level. -/
theorem Closes.group (h : Closes d cs) : Closes (d + 1) ('(' :: (cs ++ [')'])) := by
  intro n
  obtain ⟨hbehind, hpeak⟩ := h (n + 1)
  have hopen : (outside n).next '(' = outside (n + 1) := rfl
  have hclose : (outside (n + 1)).next ')' = outside n := rfl
  refine ⟨?_, ?_⟩
  · show ((outside n).next '(').behind (cs ++ [')']) = outside n
    rw [hopen, behind_append, hbehind]
    exact hclose
  · rw [peak, hopen, peak_append, hbehind, peak, peak, hclose]
    simp only [depth]
    omega

/-- A character that is no parenthesis and no quote. -/
def IsPlain (x : Char) : Prop :=
  x ≠ '(' ∧ x ≠ ')' ∧ x ≠ '\x27' ∧ x ≠ '\x22'

instance (x : Char) : Decidable (IsPlain x) :=
  inferInstanceAs (Decidable (_ ∧ _))

theorem closes_of_plain (h : ∀ x ∈ cs, IsPlain x) : Closes 0 cs := by
  intro n
  induction cs with
  | nil => exact closes_nil 0 n
  | cons x cs ih =>
    obtain ⟨⟨hopen, hclose, hsingle, hdouble⟩, hrest⟩ := List.forall_mem_cons.mp h
    have hnext : (outside n).next x = outside n := by
      rw [next, if_neg hopen, if_neg hclose,
        if_neg (by rintro (h | h); exacts [hsingle h, hdouble h])]
    obtain ⟨hbehind, hpeak⟩ := ih hrest
    refine ⟨?_, ?_⟩
    · show ((outside n).next x).behind cs = outside n
      rw [hnext, hbehind]
    · rw [peak, hnext]
      exact Nat.max_le.mpr ⟨Nat.le_refl n, hpeak⟩

/-- The body of a quoted text leads to the closing quote, and nothing in it counts. -/
theorem behind_quotedBody {quote : Char} (hquote : quote ≠ '\\') {body text : List Char}
    (h : Token.QuotedBody quote body text) (n : Nat) :
    (quoted quote n).behind (body ++ [quote]) = outside n ∧
      (quoted quote n).peak (body ++ [quote]) ≤ n := by
  induction h with
  | nil =>
    have hclose : (quoted quote n).next quote = outside n := by
      rw [next, if_neg hquote, if_pos rfl]
    refine ⟨hclose, ?_⟩
    rw [List.nil_append, peak, hclose]
    exact Nat.max_le.mpr ⟨Nat.le_refl n, Nat.le_refl n⟩
  | @plain c body text hc hslash _ ih =>
    have hnext : (quoted quote n).next c = quoted quote n := by
      rw [next, if_neg hslash, if_neg hc]
    refine ⟨?_, ?_⟩
    · show ((quoted quote n).next c).behind (body ++ [quote]) = outside n
      rw [hnext, ih.1]
    · rw [List.cons_append, peak, hnext]
      exact Nat.max_le.mpr ⟨Nat.le_refl n, ih.2⟩
  | @escaped c body text _ ih =>
    refine ⟨ih.1, ?_⟩
    exact Nat.max_le.mpr ⟨Nat.le_refl n, Nat.max_le.mpr ⟨Nat.le_refl n, ih.2⟩⟩

theorem closes_quoted {quote : Char} (hkind : quote = '\x27' ∨ quote = '\x22')
    {body text : List Char} (h : Token.QuotedBody quote body text) :
    Closes 0 (quote :: (body ++ [quote])) := by
  intro n
  have hopen : (outside n).next quote = quoted quote n := by
    rcases hkind with rfl | rfl
    · rfl
    · rfl
  have hslash : quote ≠ '\\' := by
    rcases hkind with rfl | rfl
    · decide
    · decide
  obtain ⟨hbehind, hpeak⟩ := behind_quotedBody hslash h n
  refine ⟨?_, ?_⟩
  · show ((outside n).next quote).behind (body ++ [quote]) = outside n
    rw [hopen, hbehind]
  · rw [peak, hopen]
    exact Nat.max_le.mpr ⟨Nat.le_refl n, hpeak⟩

theorem Closes.opens (h : Closes d cs) : Opens 0 cs :=
  fun n => (h n).1

theorem Opens.append {k l : Nat} (ha : Opens k a) (hb : Opens l b) : Opens (l + k) (a ++ b) := by
  intro n
  rw [behind_append, ha, hb, Nat.add_assoc, Nat.add_comm k l]

/-- Where a text never has more than `d` parentheses open, none follows where `d` are open. -/
theorem Closes.not_open (h : Closes d (a ++ '(' :: b)) : (outside 0).behind a ≠ outside d := by
  intro hbehind
  have hpeak := (h 0).2
  rw [peak_append, hbehind, peak] at hpeak
  have hnext : d + 1 ≤ ((outside d).next '(').peak b := depth_le_peak (outside (d + 1)) b
  omega

end

end Scan

namespace Grammar

open Token Relation Scan

-- ---------------------------------------------------------------------------
-- What relations open and close
-- ---------------------------------------------------------------------------

/-- What the relation takes off the front of a text closes its parentheses. -/
structure Nests (d : Nat) (D : List Char → List Char → Prop) : Prop where
  closes : ∀ {cs rest : List Char}, D cs rest → ∃ used, cs = used ++ rest ∧ Closes d used

section

variable {d d' : Nat} {A B : List Char → List Char → Prop}

theorem Nests.comp (hA : Nests d A) (hB : Nests d B) : Nests d (Comp A B) := by
  constructor
  rintro cs rest ⟨mid, ha, hb⟩
  obtain ⟨u, rfl, hu⟩ := hA.closes ha
  obtain ⟨v, rfl, hv⟩ := hB.closes hb
  exact ⟨u ++ v, (List.append_assoc ..).symm, hu.append hv⟩

theorem Nests.mono (h : Nests d A) (hd : d ≤ d') : Nests d' A := by
  constructor
  intro cs rest ha
  obtain ⟨used, hsplit, hused⟩ := h.closes ha
  exact ⟨used, hsplit, hused.mono hd⟩

theorem nests_exists {α : Type} {D : α → List Char → List Char → Prop} {nesting : α → Nat}
    (h : ∀ a, Nests (nesting a) (D a)) (d : Nat) :
    Nests d fun cs rest => ∃ a, nesting a ≤ d ∧ D a cs rest := by
  constructor
  rintro cs rest ⟨a, hd, ha⟩
  exact ((h a).mono hd).closes ha

/-- What the relation takes off the front of a text leaves `k` parentheses open. -/
structure Leaves (k : Nat) (D : List Char → List Char → Prop) : Prop where
  opens : ∀ {cs rest : List Char}, D cs rest → ∃ used, cs = used ++ rest ∧ Opens k used

theorem Nests.leaves (h : Nests d A) : Leaves 0 A := by
  constructor
  intro cs rest ha
  obtain ⟨used, hsplit, hused⟩ := h.closes ha
  exact ⟨used, hsplit, hused.opens⟩

theorem Nests.imp (h : Nests d A) (himp : ∀ {cs rest}, B cs rest → A cs rest) : Nests d B :=
  ⟨fun hb => h.closes (himp hb)⟩

end

-- ---------------------------------------------------------------------------
-- Tokens
-- ---------------------------------------------------------------------------

/-- A property that no parenthesis and no quote has is one of plain characters only. -/
theorem isPlain_of {p : Char → Bool} (hp : p '(' = false ∧ p ')' = false ∧ p '\x27' = false ∧
    p '\x22' = false) {x : Char} (hx : p x = true) : IsPlain x := by
  have hne : ∀ {y : Char}, p y = false → x ≠ y := by
    rintro y hy rfl
    rw [hx] at hy
    cases hy
  exact ⟨hne hp.1, hne hp.2.1, hne hp.2.2.1, hne hp.2.2.2⟩

theorem closes_of_blank {gap : List Char} (h : ∀ x ∈ gap, Text.isBlank x = true) : Closes 0 gap :=
  closes_of_plain fun x hx => isPlain_of (p := Text.isBlank) (by decide) (h x hx)

theorem nests_blanks : Nests 0 Blanks := by
  constructor
  rintro cs rest ⟨gap, rfl, hgap⟩
  exact ⟨gap, rfl, closes_of_blank hgap⟩

theorem nests_sign {x : Char} (hx : IsPlain x) : Nests 0 (Sign x) := by
  constructor
  rintro cs rest ⟨gap, rfl, hgap⟩
  refine ⟨gap ++ [x], by simp, (closes_of_blank hgap).append (closes_of_plain fun y hy => ?_)⟩
  rwa [List.mem_singleton.mp hy]

theorem leaves_openParen : Leaves 1 (Sign '(') := by
  constructor
  rintro cs rest ⟨gap, rfl, hgap⟩
  have hparen : Opens 1 ['('] := fun n => rfl
  exact ⟨gap ++ ['('], by simp, (closes_of_blank hgap).opens.append hparen⟩

theorem nests_run {p : Char → Bool} (hp : p '(' = false ∧ p ')' = false ∧ p '\x27' = false ∧
    p '\x22' = false) (word : List Char) : Nests 0 (Run p word) :=
  ⟨fun h => ⟨word, h.split, closes_of_plain fun x hx => isPlain_of hp (h.all x hx)⟩⟩

theorem nests_identifier (name : List Char) : Nests 0 (Identifier name) :=
  (nests_run (by decide) name).imp Identifier.run

theorem nests_keyword {word : String} (hword : word.toList.all Char.isAlpha = true) :
    Nests 0 (Keyword word) := by
  constructor
  rintro cs rest ⟨w, rfl, hw, -⟩
  have hletters := isAlpha_of_sameIgnoringCase hw hword
  exact ⟨w, rfl, closes_of_plain fun x hx => isPlain_of (by decide) (hletters x hx)⟩

theorem nests_comparator (op : Operator) : Nests 0 (Comparator op) := by
  constructor
  rintro cs rest (⟨hop, rfl, -⟩ | ⟨hop, hword⟩)
  · have hplain : ∀ op ∈ Operator.signs, op.symbol.toList.all (fun x => decide (IsPlain x)) := by
      decide
    refine ⟨_, rfl, closes_of_plain fun x hx => ?_⟩
    exact of_decide_eq_true (List.all_eq_true.mp (hplain op hop) x hx)
  · exact (nests_keyword (isAlpha_symbol hop)).closes hword

theorem nests_quoted (text : List Char) : Nests 0 (Quoted text) := by
  constructor
  rintro cs rest ⟨quote, body, hkind, rfl, hspell⟩
  exact ⟨quote :: (body ++ [quote]), by simp, closes_quoted hkind hspell⟩

-- ---------------------------------------------------------------------------
-- Comparisons
-- ---------------------------------------------------------------------------

theorem nests_key (key : String) : Nests 0 (Key key) := by
  have hdotted := (nests_sign (x := '.') (by decide)).comp
    (nests_blanks.comp (nests_run (p := Text.isKeyChar) (by decide) key.toList))
  have hbracketed := (nests_sign (x := '[') (by decide)).comp
    (nests_blanks.comp ((nests_quoted key.toList).comp (nests_sign (x := ']') (by decide))))
  constructor
  intro cs rest h
  rcases key_iff.mp h with h | h
  · exact hdotted.closes h
  · exact hbracketed.closes h

theorem nests_keyPart (p : Production) (key : Option String) : Nests 0 (KeyPart p key) := by
  constructor
  intro cs rest h
  cases h with
  | absent _ => exact ⟨[], rfl, closes_nil 0⟩
  | present _ hkey => exact (nests_key _).closes hkey

theorem nests_literalToken (kind : ValueKind) (l : Literal) : Nests 0 (LiteralToken kind l) := by
  constructor
  intro cs rest h
  cases h with
  | bare _ _ hrun _ => exact (nests_run (by decide) _).closes hrun
  | quoted _ _ _ hquoted => exact (nests_quoted _).closes hquoted

theorem nests_operatorPart (comparators : Comparators) (op : Operator) :
    Nests 0 (OperatorPart comparators op) :=
  nests_blanks.comp ((nests_comparator op).imp And.right)

theorem nests_literalPart (kind : ValueKind) (l : Literal) : Nests 0 (LiteralPart kind l) :=
  nests_blanks.comp (nests_literalToken kind l)

variable {g : Grammar}

/-- A comparison opens no parenthesis. -/
theorem nests_derivesComparison (k : Comparison) : Nests 0 (DerivesComparison g k) := by
  constructor
  intro cs rest h
  obtain ⟨p, -, h⟩ := derivesComparison_iff.mp h
  have hparts := (nests_identifier k.field.toList).comp ((nests_keyPart p k.key).comp
    ((nests_operatorPart p.comparators k.op).comp (nests_literalPart p.token k.literal)))
  exact hparts.closes h

-- ---------------------------------------------------------------------------
-- Expressions
-- ---------------------------------------------------------------------------

/-- Parentheses around what closes its own. -/
theorem Nests.group {d : Nat} {A : List Char → List Char → Prop} (h : Nests d A) :
    Nests (d + 1) (Comp (Sign '(') (Comp A (Sign ')'))) := by
  constructor
  rintro cs rest ⟨_, ⟨gap, rfl, hgap⟩, _, ha, hclose⟩
  obtain ⟨used, rfl, hused⟩ := h.closes ha
  obtain ⟨gap', rfl, hgap'⟩ := hclose
  have hinside : Closes d (used ++ gap') :=
    hused.append ((closes_of_blank hgap').mono (Nat.zero_le d))
  refine ⟨gap ++ '(' :: (used ++ gap' ++ [')']), by simp, ?_⟩
  exact ((closes_of_blank hgap).mono (Nat.zero_le _)).append hinside.group

/-- A keyword between two parts. -/
theorem Nests.joined {d : Nat} {A B : List Char → List Char → Prop} (hA : Nests d A) {word : String}
    (hword : word.toList.all Char.isAlpha = true) (hB : Nests d B) :
    Nests d (Comp A (Comp Blanks (Comp (Keyword word) B))) :=
  hA.comp ((nests_blanks.mono (Nat.zero_le d)).comp
    (((nests_keyword hword).mono (Nat.zero_le d)).comp hB))

mutual

/-- An expression closes its parentheses, of which no more are open at once than its tree nests. -/
theorem nests_derivesExpr : ∀ e : Expr, Nests e.nesting (DerivesExpr g e)
  | .one t => (nests_derivesTerm t).imp derivesExpr_one_iff.mp
  | .more t e => by
    refine .imp ?_ derivesExpr_more_iff.mp
    exact ((nests_derivesTerm t).mono (Nat.le_max_left ..)).joined (by decide)
      ((nests_derivesExpr e).mono (Nat.le_max_right ..))

theorem nests_derivesTerm : ∀ t : Term, Nests t.nesting (DerivesTerm g t)
  | .one f => (nests_derivesFactor f).imp derivesTerm_one_iff.mp
  | .more f t => by
    refine .imp ?_ derivesTerm_more_iff.mp
    exact ((nests_derivesFactor f).mono (Nat.le_max_left ..)).joined (by decide)
      ((nests_derivesTerm t).mono (Nat.le_max_right ..))

theorem nests_derivesFactor : ∀ f : Factor, Nests f.nesting (DerivesFactor g f)
  | .comparison k =>
    (nests_blanks.comp (nests_derivesComparison k)).imp derivesFactor_comparison_iff.mp
  | .group e => (nests_derivesExpr e).group.imp derivesFactor_group_iff.mp

end

/-- No place of a text that reads as an expression has more parentheses open than may nest. -/
theorem Derives.closes {text : String} {e : Expr} (h : g.Derives text e) :
    Closes maxNesting text.toList := by
  obtain ⟨⟨rest, hderives, hblanks⟩, hdepth⟩ := h
  obtain ⟨used, hsplit, hused⟩ := (nests_derivesExpr e).closes hderives
  obtain ⟨gap, rfl, hgap⟩ := nests_blanks.closes hblanks
  rw [hsplit, List.append_nil]
  exact (hused.mono hdepth).append (hgap.mono (Nat.zero_le _))

end Grammar

end ClusterFilter
