import ClusterFilter.Proofs.Expression.Reading
import Mathlib.Logic.Relation

/-!
# ClusterFilter — other texts behind a token

What stands behind a token has a part in the token only through its first character: a run ends
there, a keyword needs a place where no word goes on, and a sign must not be the beginning of a
longer one. A delimiter ends every token. So the text behind a token, and behind anything that is
derived, can be exchanged for another one that begins with the same character or with a delimiter
(`Replaces`), and what stood in front of it is read as before. Which other characters may follow
depends on the last one of the token (`Fits`): behind one that is a delimiter any text can stand
(`Parted`), behind a name or a key all that is no part of a key (`Bounds`), behind a comparator all
that makes no longer one (`Severs`).

Main results:

* `Threads.comp` — parts that stand one after another can be treated as one.
* `threads_derivesComparison`, `threads_derivesExpr` — what stands behind a comparison or behind an
  expression can be exchanged.
-/

namespace ClusterFilter.Grammar

open Token Relation

-- ---------------------------------------------------------------------------
-- Exchanging the rest
-- ---------------------------------------------------------------------------

/-- The character is part of no token that stands in front of it, unless between quotes. -/
def EndsToken (x : Char) : Prop :=
  Text.isDelimiter x = true

instance (x : Char) : Decidable (EndsToken x) :=
  inferInstanceAs (Decidable (_ = true))

theorem not_isWordChar_of_endsToken {x : Char} (h : EndsToken x) : Text.isWordChar x = false := by
  rw [Bool.eq_false_iff]
  intro hword
  have hbare := isBareChar_of_isWordChar hword
  rw [Text.isBareChar, show Text.isDelimiter x = true from h] at hbare
  cases hbare

theorem not_isBareChar_of_endsToken {x : Char} (h : EndsToken x) : Text.isBareChar x = false := by
  rw [Text.isBareChar, show Text.isDelimiter x = true from h]
  rfl

theorem not_isKeyChar_of_endsToken {x : Char} (h : EndsToken x) : Text.isKeyChar x = false := by
  rw [Text.isKeyChar, not_isBareChar_of_endsToken h]
  rfl

theorem endsToken_of_isBlank {x : Char} (h : Text.isBlank x = true) : EndsToken x := by
  unfold EndsToken Text.isDelimiter
  simp only [h, Bool.true_or]

/-- The first text may take the place of the second one behind a token: it is empty, or begins with
the same character or with one that ends every token. -/
def Replaces (rest' rest : List Char) : Prop :=
  ∀ x ∈ rest'.head?, rest.head? = some x ∨ EndsToken x

theorem Replaces.append {rest' rest : List Char} (h : Replaces rest' rest) (cs : List Char) :
    Replaces (cs ++ rest') (cs ++ rest) := by
  cases cs with
  | nil => exact h
  | cons x cs =>
    intro y hy
    exact .inl hy

theorem replaces_of_endsToken {x : Char} (hx : EndsToken x) (cs rest : List Char) :
    Replaces (x :: cs) rest :=
  Text.forall_mem_head?_cons (.inr hx)

theorem replaces_space (cs rest : List Char) : Replaces (' ' :: cs) rest :=
  replaces_of_endsToken (by decide) cs rest

theorem replaces_of_blank {gap : List Char} (h : ∀ x ∈ gap, Text.isBlank x = true)
    (rest : List Char) : Replaces gap rest :=
  fun x hx => .inr (endsToken_of_isBlank (h x (List.mem_of_mem_head? hx)))

/-- One of the characters is a delimiter, so that no token goes on from the first to the second. -/
def Parted (a b : Char) : Prop :=
  EndsToken a ∨ EndsToken b

/-- No run of such characters goes on from the first character to the second. -/
def Bounds (p : Char → Bool) (a b : Char) : Prop :=
  p a = true → p b = false

/-- No comparator goes on from the first character to the second. -/
structure Severs (a b : Char) : Prop where
  word : Bounds Text.isWordChar a b
  sign : ∀ op ∈ Operator.signs, op.symbol.toList ≠ [a, b]

theorem not_endsToken_of_sign {op : Operator} (hop : op ∈ Operator.signs) :
    ∀ x ∈ op.symbol.toList, ¬ EndsToken x := by
  have hsigns : ∀ op ∈ Operator.signs,
      op.symbol.toList.all (fun x => !Text.isDelimiter x) = true := by decide
  intro x hx hends
  have := List.all_eq_true.mp (hsigns op hop) x hx
  rw [show Text.isDelimiter x = true from hends] at this
  cases this

section

variable {a b : Char}

theorem Parted.bounds {p : Char → Bool} (h : Parted a b)
    (hp : ∀ {x}, EndsToken x → p x = false) : Bounds p a b := by
  intro ha
  rcases h with h | h
  · rw [hp h] at ha
    cases ha
  · exact hp h

theorem Parted.word (h : Parted a b) : Bounds Text.isWordChar a b :=
  h.bounds not_isWordChar_of_endsToken

theorem Parted.key (h : Parted a b) : Bounds Text.isKeyChar a b :=
  h.bounds not_isKeyChar_of_endsToken

theorem Parted.severs (h : Parted a b) : Severs a b := by
  refine ⟨h.word, fun op hop hsign => ?_⟩
  have hpart := not_endsToken_of_sign hop
  rw [hsign] at hpart
  rcases h with h | h
  · exact hpart a (by simp) h
  · exact hpart b (by simp) h

theorem Bounds.word (h : Bounds Text.isKeyChar a b) : Bounds Text.isWordChar a b := by
  intro ha
  rw [Bool.eq_false_iff]
  intro hb
  have := h (isKeyChar_of_isWordChar ha)
  rw [isKeyChar_of_isWordChar hb] at this
  cases this

end

/-- The text `rest'` may take the place of `rest` behind the text `used`: it may behind any token,
or the characters that meet are such that the last token of `used` ends there. -/
def Fits (R : Char → Char → Prop) (used rest' rest : List Char) : Prop :=
  Replaces rest' rest ∨ ∀ a ∈ used.getLast?, ∀ b ∈ rest'.head?, R a b

section

variable {R : Char → Char → Prop} {used rest' rest : List Char}

/-- What stands first behind a text stood there before, or ends every token, or the last token of
the text ends there. -/
theorem Fits.meet (h : Fits R used rest' rest) (hne : used ≠ []) :
    ∀ b ∈ rest'.head?, rest.head? = some b ∨ EndsToken b ∨ ∃ a ∈ used.getLast?, R a b := by
  intro b hb
  rcases h with h | hmeet
  · exact (h b hb).imp_right .inl
  · obtain ⟨a, ha⟩ := Option.isSome_iff_exists.mp (List.getLast?_isSome.mpr hne)
    exact .inr (.inr ⟨a, ha, hmeet a ha b hb⟩)

/-- What fits behind two parts fits behind the second one, and the first one is as before. -/
theorem Fits.split {u v : List Char} (h : Fits R (u ++ v) rest' rest) :
    Fits R u (v ++ rest') (v ++ rest) ∧ Fits R v rest' rest := by
  rcases h with h | hmeet
  · exact ⟨.inl (h.append v), .inl h⟩
  · cases v with
    | nil =>
      rw [List.append_nil] at hmeet
      exact ⟨.inr hmeet, .inr nofun⟩
    | cons x v =>
      rw [List.getLast?_append_of_ne_nil _ (List.cons_ne_nil x v)] at hmeet
      exact ⟨.inl fun y hy => .inl hy, .inr hmeet⟩

end

/-- The relation takes something off the front of a text, and takes it as well where another text
stands behind. Where two characters are related, what is taken ends between them. -/
structure Threads (R : Char → Char → Prop) (D : List Char → List Char → Prop) : Prop where
  exchange : ∀ {cs rest : List Char}, D cs rest →
    ∃ used, cs = used ++ rest ∧ ∀ rest', Fits R used rest' rest → D (used ++ rest') rest'

section

variable {R : Char → Char → Prop} {A B : List Char → List Char → Prop}

theorem Threads.comp (hA : Threads R A) (hB : Threads R B) : Threads R (Comp A B) := by
  constructor
  rintro cs rest ⟨mid, ha, hb⟩
  obtain ⟨u, rfl, hu⟩ := hA.exchange ha
  obtain ⟨v, rfl, hv⟩ := hB.exchange hb
  refine ⟨u ++ v, (List.append_assoc ..).symm, fun rest' hr => ?_⟩
  obtain ⟨hr', hr⟩ := hr.split
  rw [List.append_assoc]
  exact ⟨v ++ rest', hu _ hr', hv rest' hr⟩

theorem Threads.or (hA : Threads R A) (hB : Threads R B) :
    Threads R fun cs rest => A cs rest ∨ B cs rest := by
  constructor
  rintro cs rest (ha | hb)
  · obtain ⟨used, hsplit, hused⟩ := hA.exchange ha
    exact ⟨used, hsplit, fun rest' hr => .inl (hused rest' hr)⟩
  · obtain ⟨used, hsplit, hused⟩ := hB.exchange hb
    exact ⟨used, hsplit, fun rest' hr => .inr (hused rest' hr)⟩

theorem Threads.congr (hA : Threads R A) (h : ∀ {cs rest}, B cs rest ↔ A cs rest) :
    Threads R B := by
  constructor
  intro cs rest hb
  obtain ⟨used, hsplit, hused⟩ := hA.exchange (h.mp hb)
  exact ⟨used, hsplit, fun rest' hr => h.mpr (hused rest' hr)⟩

theorem threads_exists {α : Type} {D : α → List Char → List Char → Prop}
    (h : ∀ a, Threads R (D a)) : Threads R fun cs rest => ∃ a, D a cs rest := by
  constructor
  rintro cs rest ⟨a, ha⟩
  obtain ⟨used, hsplit, hused⟩ := (h a).exchange ha
  exact ⟨used, hsplit, fun rest' hr => ⟨a, hused rest' hr⟩⟩

theorem threads_guarded {P : Prop} (h : P → Threads R A) :
    Threads R fun cs rest => P ∧ A cs rest := by
  constructor
  rintro cs rest ⟨hP, ha⟩
  obtain ⟨used, hsplit, hused⟩ := (h hP).exchange ha
  exact ⟨used, hsplit, fun rest' hr => ⟨hP, hused rest' hr⟩⟩

end

-- ---------------------------------------------------------------------------
-- Tokens
-- ---------------------------------------------------------------------------

/-- Behind white space the character stands, and then the rest. -/
def Sign (x : Char) (cs rest : List Char) : Prop :=
  Blanks cs (x :: rest)

theorem isWordChar_of_isAlpha {x : Char} (h : x.isAlpha = true) : Text.isWordChar x = true := by
  rw [Text.isWordChar, Char.isAlphanum, h, Bool.true_or, Bool.true_or]

section

variable {R : Char → Char → Prop}

theorem threads_blanks : Threads R Blanks := by
  constructor
  rintro cs rest ⟨gap, rfl, hgap⟩
  exact ⟨gap, rfl, fun rest' _ => ⟨gap, rfl, hgap⟩⟩

theorem threads_sign (x : Char) : Threads R (Sign x) := by
  constructor
  rintro cs rest ⟨gap, rfl, hgap⟩
  refine ⟨gap ++ [x], by simp, fun rest' _ => ⟨gap, by simp, hgap⟩⟩

theorem threads_quoted (text : List Char) : Threads R (Quoted text) := by
  constructor
  rintro cs rest ⟨quote, body, hquote, rfl, hspell⟩
  exact ⟨quote :: (body ++ [quote]), by simp, fun rest' _ => ⟨quote, body, hquote, by simp, hspell⟩⟩

theorem threads_run {p : Char → Bool} (hp : ∀ {x}, EndsToken x → p x = false)
    (hR : ∀ {a b}, R a b → Bounds p a b) (word : List Char) : Threads R (Run p word) := by
  constructor
  intro cs rest h
  refine ⟨word, h.split, fun rest' hr => ⟨rfl, h.ne_nil, h.all, fun x hx => ?_⟩⟩
  rcases hr.meet h.ne_nil x hx with hsame | hends | ⟨a, ha, hmeet⟩
  · exact h.longest x hsame
  · exact hp hends
  · exact hR hmeet (h.all a (List.mem_of_getLast? ha))

theorem threads_identifier (hR : ∀ {a b}, R a b → Bounds Text.isWordChar a b)
    (name : List Char) : Threads R (Identifier name) := by
  constructor
  intro cs rest h
  obtain ⟨used, hsplit, hused⟩ :=
    (threads_run not_isWordChar_of_endsToken hR name).exchange h.run
  exact ⟨used, hsplit, fun rest' hr => ⟨hused rest' hr, h.head⟩⟩

theorem threads_keyword (hR : ∀ {a b}, R a b → Bounds Text.isWordChar a b) {word : String}
    (hne : word.toList ≠ []) (hword : word.toList.all Char.isAlpha = true) :
    Threads R (Keyword word) := by
  constructor
  rintro cs rest ⟨w, rfl, hw, hend⟩
  refine ⟨w, rfl, fun rest' hr => ⟨w, rfl, hw, ?_⟩⟩
  have hletters := isAlpha_of_sameIgnoringCase hw hword
  have hw : w ≠ [] := ne_nil_of_sameIgnoringCase hw hne
  cases rest' with
  | nil => rfl
  | cons x xs =>
    rcases hr.meet hw x rfl with hsame | hends | ⟨a, ha, hmeet⟩
    · obtain ⟨ys, rfl⟩ := List.head?_eq_some_iff.mp hsame
      exact hend
    · rw [Text.endsWord, not_isWordChar_of_endsToken hends]
      rfl
    · rw [Text.endsWord,
        hR hmeet (isWordChar_of_isAlpha (hletters a (List.mem_of_getLast? ha)))]
      rfl

/-- A sign that begins with another one is a single character longer. -/
theorem sign_eq_of_prefix {op op' : Operator} (hop' : op' ∈ Operator.signs)
    (hbegins : op.symbol.toList <+: op'.symbol.toList)
    (hlength : op.symbol.toList.length < op'.symbol.toList.length) :
    ∃ a b, op.symbol.toList = [a] ∧ op'.symbol.toList = [a, b] := by
  have hshort : ∀ op ∈ Operator.signs, op.symbol.toList.length ≤ 2 := by decide
  have htwo := hshort op' hop'
  obtain ⟨more, hmore⟩ := hbegins
  rw [← hmore, List.length_append] at hlength htwo
  have hne := List.length_pos_of_ne_nil (symbol_ne_nil op)
  obtain ⟨a, ha⟩ := List.length_eq_one_iff.mp (show op.symbol.toList.length = 1 by omega)
  obtain ⟨b, rfl⟩ := List.length_eq_one_iff.mp (show more.length = 1 by omega)
  exact ⟨a, b, ha, by rw [← hmore, ha]; rfl⟩

/-- A sign of two characters is no longer than the sign in front of it unless its second character
stands behind that one; no sign has a delimiter in it. -/
theorem threads_comparator (hR : ∀ {a b}, R a b → Severs a b) (op : Operator) :
    Threads R (Comparator op) := by
  constructor
  rintro cs rest (⟨hop, rfl, hlongest⟩ | ⟨hop, hword⟩)
  · refine ⟨op.symbol.toList, rfl, fun rest' hr => .sign hop rfl fun op' hop' hfits => ?_⟩
    by_contra hlonger
    obtain ⟨a, b, hshort, hlong⟩ := sign_eq_of_prefix hop'
      (List.prefix_of_prefix_length_le ⟨rest', rfl⟩ hfits (by omega)) (by omega)
    obtain ⟨tail, htail⟩ := hfits
    obtain rfl : b :: tail = rest' := by
      rw [hshort, hlong] at htail
      exact (List.cons.inj htail).2
    rcases hr.meet (symbol_ne_nil op) b rfl with hsame | hends | ⟨a', ha, hmeet⟩
    · obtain ⟨ys, rfl⟩ := List.head?_eq_some_iff.mp hsame
      have := hlongest op' hop' ⟨ys, by rw [hshort, hlong]; rfl⟩
      omega
    · exact not_endsToken_of_sign hop' b (by simp [hlong]) hends
    · rw [hshort] at ha
      obtain rfl : a = a' := Option.some.inj ha
      exact (hR hmeet).sign op' hop' hlong
  · obtain ⟨used, hsplit, hused⟩ := (threads_keyword (fun h => (hR h).word) (symbol_ne_nil op)
      (isAlpha_symbol hop)).exchange hword
    exact ⟨used, hsplit, fun rest' hr => .word hop (hused rest' hr)⟩

end

-- ---------------------------------------------------------------------------
-- Comparisons
-- ---------------------------------------------------------------------------

/-- A key is written with a point or with brackets. -/
theorem key_iff {key : String} {cs rest : List Char} :
    Key key cs rest ↔
      Comp (Sign '.') (Comp Blanks (Run Text.isKeyChar key.toList)) cs rest ∨
      Comp (Sign '[') (Comp Blanks (Comp (Quoted key.toList) (Sign ']'))) cs rest := by
  constructor
  · rintro (⟨hpoint, hb, hkey⟩ | ⟨hopen, hb, hkey, hclose⟩)
    · exact .inl ⟨_, hpoint, _, hb, hkey⟩
    · exact .inr ⟨_, hopen, _, hb, _, hkey, hclose⟩
  · rintro (⟨_, hpoint, _, hb, hkey⟩ | ⟨_, hopen, _, hb, _, hkey, hclose⟩)
    · exact .dotted hpoint hb hkey
    · exact .bracketed hopen hb hkey hclose

section

variable {R : Char → Char → Prop} (hR : ∀ {a b}, R a b → Bounds Text.isKeyChar a b)

include hR

theorem threads_key (key : String) : Threads R (Key key) := by
  have hdotted : Threads R (Comp (Sign '.') (Comp Blanks (Run Text.isKeyChar key.toList))) :=
    (threads_sign '.').comp
      (threads_blanks.comp (threads_run not_isKeyChar_of_endsToken hR key.toList))
  have hbracketed : Threads R
      (Comp (Sign '[') (Comp Blanks (Comp (Quoted key.toList) (Sign ']')))) :=
    (threads_sign '[').comp
      (threads_blanks.comp ((threads_quoted key.toList).comp (threads_sign ']')))
  exact (hdotted.or hbracketed).congr key_iff

theorem threads_keyPart (p : Production) (key : Option String) : Threads R (KeyPart p key) := by
  constructor
  intro cs rest h
  cases h with
  | absent hplain => exact ⟨[], rfl, fun _ _ => .absent hplain⟩
  | present hkeyed hkey =>
    obtain ⟨used, hsplit, hused⟩ := (threads_key hR _).exchange hkey
    exact ⟨used, hsplit, fun rest' hr => .present hkeyed (hused rest' hr)⟩

end

theorem Parted.bare {a b : Char} (h : Parted a b) : Bounds Text.isBareChar a b :=
  h.bounds not_isBareChar_of_endsToken

theorem threads_literalToken (kind : ValueKind) (l : Literal) :
    Threads Parted (LiteralToken kind l) := by
  constructor
  intro cs rest h
  cases h with
  | bare hkind hplain hrun hshape =>
    obtain ⟨used, hsplit, hused⟩ :=
      (threads_run not_isBareChar_of_endsToken Parted.bare _).exchange hrun
    exact ⟨used, hsplit, fun rest' hr => .bare hkind hplain (hused rest' hr) hshape⟩
  | quoted hstring hkind hq hquoted =>
    obtain ⟨used, hsplit, hused⟩ := (threads_quoted _).exchange hquoted
    exact ⟨used, hsplit, fun rest' hr => .quoted hstring hkind hq (hused rest' hr)⟩

/-- Behind white space stands a comparator of the family. -/
def OperatorPart (comparators : Comparators) (op : Operator) : List Char → List Char → Prop :=
  Comp Blanks fun cs rest => comparators.allows op = true ∧ Comparator op cs rest

/-- Behind white space stands a literal of the kind. -/
def LiteralPart (kind : ValueKind) (l : Literal) : List Char → List Char → Prop :=
  Comp Blanks (LiteralToken kind l)

variable {g : Grammar}

/-- A comparison is a field name, a key part, an operator and a literal, one after another. -/
theorem derivesComparison_iff {k : Comparison} {cs rest : List Char} :
    DerivesComparison g k cs rest ↔ ∃ p, (p ∈ g.productions ∧ p.field = k.field) ∧
      Comp (Identifier k.field.toList) (Comp (KeyPart p k.key)
        (Comp (OperatorPart p.comparators k.op) (LiteralPart p.token k.literal))) cs rest := by
  constructor
  · rintro ⟨p, hp, hname, hallowed, _, _, _, _, _, hid, hkey, hb, hop, hd, hl⟩
    exact ⟨p, ⟨hp, hname⟩, _, hid, _, hkey, _, ⟨_, hb, hallowed, hop⟩, _, hd, hl⟩
  · rintro ⟨p, ⟨hp, hname⟩, _, hid, _, hkey, _, ⟨_, hb, hallowed, hop⟩, _, hd, hl⟩
    exact ⟨p, hp, hname, hallowed, _, _, _, _, _, hid, hkey, hb, hop, hd, hl⟩

theorem threads_operatorPart {R : Char → Char → Prop} (hR : ∀ {a b}, R a b → Severs a b)
    (comparators : Comparators) (op : Operator) : Threads R (OperatorPart comparators op) :=
  threads_blanks.comp (threads_guarded fun _ => threads_comparator hR op)

theorem threads_literalPart (kind : ValueKind) (l : Literal) :
    Threads Parted (LiteralPart kind l) :=
  threads_blanks.comp (threads_literalToken kind l)

theorem threads_derivesComparison (k : Comparison) :
    Threads Parted (DerivesComparison g k) := by
  refine (threads_exists fun p => threads_guarded fun _ => ?_).congr derivesComparison_iff
  exact (threads_identifier Parted.word _).comp ((threads_keyPart Parted.key p k.key).comp
    ((threads_operatorPart Parted.severs p.comparators k.op).comp
      (threads_literalPart p.token k.literal)))

-- ---------------------------------------------------------------------------
-- Expressions
-- ---------------------------------------------------------------------------

section

variable {cs rest : List Char}

theorem derivesExpr_one_iff {t : Term} :
    DerivesExpr g (.one t) cs rest ↔ DerivesTerm g t cs rest :=
  ⟨fun h => by cases h; assumption, .one⟩

theorem derivesExpr_more_iff {t : Term} {e : Expr} :
    DerivesExpr g (.more t e) cs rest ↔ Comp (DerivesTerm g t)
      (Comp Blanks (Comp (Keyword "or") (DerivesExpr g e))) cs rest := by
  constructor
  · rintro (_ | ⟨h, hb, hword, he⟩)
    exact ⟨_, h, _, hb, _, hword, he⟩
  · rintro ⟨_, h, _, hb, _, hword, he⟩
    exact .more h hb hword he

theorem derivesTerm_one_iff {f : Factor} :
    DerivesTerm g (.one f) cs rest ↔ DerivesFactor g f cs rest :=
  ⟨fun h => by cases h; assumption, .one⟩

theorem derivesTerm_more_iff {f : Factor} {t : Term} :
    DerivesTerm g (.more f t) cs rest ↔ Comp (DerivesFactor g f)
      (Comp Blanks (Comp (Keyword "and") (DerivesTerm g t))) cs rest := by
  constructor
  · rintro (_ | ⟨h, hb, hword, ht⟩)
    exact ⟨_, h, _, hb, _, hword, ht⟩
  · rintro ⟨_, h, _, hb, _, hword, ht⟩
    exact .more h hb hword ht

theorem derivesFactor_comparison_iff {k : Comparison} :
    DerivesFactor g (.comparison k) cs rest ↔ Comp Blanks (DerivesComparison g k) cs rest := by
  constructor
  · rintro (⟨hb, h⟩ | _)
    exact ⟨_, hb, h⟩
  · rintro ⟨_, hb, h⟩
    exact .comparison hb h

theorem derivesFactor_group_iff {e : Expr} :
    DerivesFactor g (.group e) cs rest ↔
      Comp (Sign '(') (Comp (DerivesExpr g e) (Sign ')')) cs rest := by
  constructor
  · rintro (_ | ⟨hopen, he, hclose⟩)
    exact ⟨_, hopen, _, he, hclose⟩
  · rintro ⟨_, hopen, _, he, hclose⟩
    exact .group hopen he hclose

end

mutual

/-- What stands behind an expression can be exchanged. -/
theorem threads_derivesExpr : ∀ e : Expr, Threads Parted (DerivesExpr g e)
  | .one t => (threads_derivesTerm t).congr derivesExpr_one_iff
  | .more t e => by
    refine .congr ?_ derivesExpr_more_iff
    exact (threads_derivesTerm t).comp
      (threads_blanks.comp ((threads_keyword Parted.word (by decide) (by decide)).comp
        (threads_derivesExpr e)))

theorem threads_derivesTerm : ∀ t : Term, Threads Parted (DerivesTerm g t)
  | .one f => (threads_derivesFactor f).congr derivesTerm_one_iff
  | .more f t => by
    refine .congr ?_ derivesTerm_more_iff
    exact (threads_derivesFactor f).comp
      (threads_blanks.comp ((threads_keyword Parted.word (by decide) (by decide)).comp
        (threads_derivesTerm t)))

theorem threads_derivesFactor : ∀ f : Factor, Threads Parted (DerivesFactor g f)
  | .comparison k =>
    (threads_blanks.comp (threads_derivesComparison k)).congr derivesFactor_comparison_iff
  | .group e => by
    refine .congr ?_ derivesFactor_group_iff
    exact (threads_sign '(').comp ((threads_derivesExpr e).comp (threads_sign ')'))

end

end ClusterFilter.Grammar
