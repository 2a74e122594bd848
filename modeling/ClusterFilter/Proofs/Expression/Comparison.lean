import ClusterFilter.Proofs.Expression.Derivation
import ClusterFilter.Proofs.Outcome
import ClusterFilter.Proofs.Text.Decimal
import Mathlib.Data.List.Nodup

/-!
# ClusterFilter — how comparisons are read

The readers of keys, operators, literals and comparisons give what the grammar derives from the
text, and all of it. For keys and operators this is one equivalence (`Reads`). Literals and
comparisons note where they stand, and for them the two directions are apart: what is read is
derived as it is, and what is derived is read but for its place.

Main results:

* `readKey_reads`, `readOperator_reads` — keys and operators are read exactly.
* `readLiteral_sound`, `readLiteral_complete` — literals, of the shape that their kind asks for.
* `readComparison_sound`, `readComparison_complete` — comparisons; they are read only if every
  field name finds its own alternative (`Unambiguous`).
-/

namespace ClusterFilter

namespace Grammar

open Token Cursor

-- ---------------------------------------------------------------------------
-- Keys and operators
-- ---------------------------------------------------------------------------

/-- The reader gives exactly the readings that the token has. -/
def Reads {α : Type} (read : Reader α) (token : α → List Char → List Char → Prop) : Prop :=
  ∀ c a rest, (∃ after, read c = .ok (a, after) ∧ after.rest = rest) ↔ token a c.rest rest

theorem key_of_readKey {c after : Cursor} {key : String} (h : readKey c = .ok (key, after)) :
    Key key c.rest after.rest := by
  unfold readKey at h
  dsimp only at h
  split at h
  · next c₁ hpoint =>
    have hpoint := (char?_skipBlanks_iff (by decide)).mp ⟨c₁, hpoint, rfl⟩
    split at h
    · next key' c₂ hkey =>
      injection h with h
      injection h with hk hc
      subst hk hc
      obtain ⟨b, hb, hkey⟩ :=
        (key?_recognizes.afterBlanks (Run.startsBare isBlank_eq_false_of_isKeyChar)).mp
          ⟨c₂, hkey, rfl⟩
      exact .dotted hpoint hb (by rwa [String.toList_ofList])
    · cases h
  · split at h
    · cases h
    · next c₁ hopen =>
      have hopen := (char?_skipBlanks_iff (by decide)).mp ⟨c₁, hopen, rfl⟩
      split at h
      · cases h
      · next quote hquote =>
        split at h
        · cases h
        · next key' c₂ hkey =>
          have hquoted := (quoted?_recognizes.afterBlanks Quoted.startsBare).mp
            ⟨c₂, Option.bind_eq_some_iff.mpr ⟨quote, hquote, hkey⟩, rfl⟩
          obtain ⟨b, hb, hquoted⟩ := hquoted
          split at h
          · next c₃ hclose =>
            injection h with h
            injection h with hk hc
            subst hk hc
            have hclose := (char?_skipBlanks_iff (by decide)).mp ⟨c₃, hclose, rfl⟩
            exact .bracketed hopen hb (by rwa [String.toList_ofList]) hclose
          · cases h

theorem readKey_of_key {c : Cursor} {key : String} {rest : List Char} (h : Key key c.rest rest) :
    ∃ after, readKey c = .ok (key, after) ∧ after.rest = rest := by
  cases h with
  | @dotted a b hpoint hb hkey =>
    obtain ⟨c₁, hc₁, rfl⟩ := (char?_skipBlanks_iff (by decide)).mpr hpoint
    obtain ⟨c₂, hc₂, rfl⟩ :=
      (key?_recognizes.afterBlanks (Run.startsBare isBlank_eq_false_of_isKeyChar)).mpr
        ⟨b, hb, hkey⟩
    refine ⟨c₂, ?_, rfl⟩
    unfold readKey
    dsimp only
    rw [hc₁]
    dsimp only
    rw [hc₂]
    dsimp only
    rw [String.ofList_toList]
  | @bracketed a b d hopen hb hquoted hclose =>
    have hpoint : c.skipBlanks.char? '.' = none := by
      apply char?_eq_none
      rw [skipBlanks_eq_of_blanks hopen (startsBare_cons (by decide)), List.head?_cons]
      decide
    obtain ⟨c₁, hc₁, rfl⟩ := (char?_skipBlanks_iff (by decide)).mpr hopen
    obtain ⟨c₂, hc₂, rfl⟩ :=
      (quoted?_recognizes.afterBlanks Quoted.startsBare).mpr ⟨b, hb, hquoted⟩
    obtain ⟨quote, hquote, hkey⟩ := Option.bind_eq_some_iff.mp hc₂
    obtain ⟨c₃, hc₃, rfl⟩ := (char?_skipBlanks_iff (by decide)).mpr hclose
    refine ⟨c₃, ?_, rfl⟩
    unfold readKey
    dsimp only
    rw [hpoint]
    dsimp only
    rw [hc₁]
    dsimp only
    rw [hquote]
    dsimp only
    rw [hkey]
    dsimp only
    rw [hc₃]
    dsimp only
    rw [String.ofList_toList]

theorem readKey_reads : Reads readKey Key :=
  fun _ _ _ => ⟨fun ⟨_, h, hrest⟩ => hrest ▸ key_of_readKey h, readKey_of_key⟩

theorem readKeyOf_reads (p : Production) : Reads (readKeyOf p) (KeyPart p) := by
  intro c key rest
  unfold readKeyOf
  constructor
  · rintro ⟨after, h, rfl⟩
    split at h
    · next hkeyed =>
      obtain ⟨⟨key', c'⟩, hkey, h⟩ := bind_eq_ok.mp h
      injection h with h
      injection h with hk hc
      subst hk hc
      exact .present hkeyed ((readKey_reads ..).mp ⟨c', hkey, rfl⟩)
    · next hkeyed =>
      injection h with h
      injection h with hk hc
      subst hk hc
      exact .absent (Bool.eq_false_iff.mpr hkeyed)
  · intro h
    generalize hcs : c.rest = cs at h
    cases h with
    | absent hkeyed =>
      refine ⟨c, ?_, hcs⟩
      rw [hkeyed]
      rfl
    | present hkeyed hkey =>
      obtain ⟨after, hafter, rfl⟩ := (readKey_reads ..).mpr (hcs ▸ hkey)
      refine ⟨after, ?_, rfl⟩
      rw [if_pos hkeyed]
      exact bind_eq_ok.mpr ⟨_, hafter, rfl⟩

/-- The operator behind any white space is read if it is one of the family. -/
theorem readOperator_reads (comparators : Comparators) :
    Reads (readOperator comparators) fun op cs rest =>
      comparators.allows op = true ∧ ∃ b, Blanks cs b ∧ Comparator op b rest := by
  intro c op rest
  dsimp only
  rw [← comparator?_recognizes.afterBlanks Comparator.startsBare]
  unfold readOperator
  dsimp only
  constructor
  · rintro ⟨after, h, rfl⟩
    split at h
    · cases h
    · next op' c' hop =>
      split at h
      · next hallowed =>
        injection h with h
        injection h with ho hc
        subst ho hc
        exact ⟨hallowed, c', hop, rfl⟩
      · cases h
  · rintro ⟨hallowed, after, hop, rfl⟩
    refine ⟨after, ?_, rfl⟩
    rw [hop]
    exact if_pos hallowed

-- ---------------------------------------------------------------------------
-- Literals
-- ---------------------------------------------------------------------------

theorem isShaped_iff {kind : ValueKind} {cs : List Char} :
    isShaped kind cs = true ↔ IsShape kind cs := by
  cases kind with
  | boolean => exact Iff.of_eq (Bool.or_eq_true ..)
  | number =>
    refine Text.readInteger?_isSome.trans ?_
    simp only [IsShape, Text.isNumeral_iff]
  | string => exact ⟨fun _ => trivial, fun _ => rfl⟩
  | date => exact ⟨fun _ => trivial, fun _ => rfl⟩
  | duration => exact ⟨fun _ => trivial, fun _ => rfl⟩
  | status => exact ⟨fun _ => trivial, fun _ => rfl⟩

/-- What is read as a literal is a literal of the kind. -/
theorem readLiteral_sound {kind : ValueKind} {c after : Cursor} {l : Literal}
    (h : readLiteral kind c = .ok (l, after)) :
    ∃ b, Blanks c.rest b ∧ LiteralToken kind l b after.rest := by
  have hbare : ∀ {c' : Cursor}, readBareLiteral kind c' = .ok (l, after) →
      LiteralToken kind l c'.rest after.rest := by
    intro c' h
    unfold readBareLiteral at h
    split at h
    · cases h
    · next text after' htext =>
      split at h
      · next hshape =>
        injection h with h
        injection h with hl hc
        subst hl hc
        have hrun := (bare?_recognizes ..).mp ⟨after', htext, rfl⟩
        exact .bare rfl rfl (by rwa [String.toList_ofList])
          (by rw [String.toList_ofList]; exact isShaped_iff.mp hshape)
      · cases h
  unfold readLiteral at h
  dsimp only at h
  refine ⟨_, blanks_skipBlanks c, ?_⟩
  split at h
  · next quote hquote =>
    split at h
    · next hstring =>
      split at h
      · cases h
      · next text after' htext =>
        injection h with h
        injection h with hl hc
        subst hl hc
        have hquoted := (quoted?_recognizes ..).mp
          ⟨after', Option.bind_eq_some_iff.mpr ⟨quote, hquote, htext⟩, rfl⟩
        exact .quoted hstring rfl rfl (by rwa [String.toList_ofList])
    · exact hbare h
  · exact hbare h

/-- No quotation mark stands where a bare text begins. -/
theorem quote?_eq_none_of_run {c : Cursor} {word b rest : List Char} (hb : Blanks c.rest b)
    (h : Run Text.isBareChar word b rest) : c.skipBlanks.quote? = none := by
  rw [Option.eq_none_iff_forall_ne_some]
  intro quote hquote
  obtain ⟨hkind, hhead⟩ := quote?_eq_some_iff.mp hquote
  rw [skipBlanks_eq_of_blanks hb (h.startsBare isBlank_eq_false_of_isBareChar)] at hhead
  rcases hkind with rfl | rfl
  · exact h.head?_ne (by decide) hhead
  · exact h.head?_ne (by decide) hhead

theorem readLiteral_of_bare {kind : ValueKind} {c : Cursor} {word b rest : List Char}
    (hb : Blanks c.rest b) (hrun : Run Text.isBareChar word b rest) (hshape : IsShape kind word) :
    ∃ span after, readLiteral kind c = .ok (⟨kind, String.ofList word, false, span⟩, after) ∧
      after.rest = rest := by
  obtain ⟨after, htext, rfl⟩ :=
    (bare?_recognizes.afterBlanks (Run.startsBare isBlank_eq_false_of_isBareChar)).mpr ⟨b, hb, hrun⟩
  refine ⟨⟨c.skipBlanks.offset, after.offset⟩, after, ?_, rfl⟩
  unfold readLiteral
  dsimp only
  rw [quote?_eq_none_of_run hb hrun]
  dsimp only
  unfold readBareLiteral
  rw [htext]
  exact if_pos (isShaped_iff.mpr hshape)

theorem readLiteral_of_quoted {c : Cursor} {text b rest : List Char} (hb : Blanks c.rest b)
    (hquoted : Quoted text b rest) :
    ∃ span after, readLiteral .string c = .ok (⟨.string, String.ofList text, true, span⟩, after) ∧
      after.rest = rest := by
  obtain ⟨after, htext, rfl⟩ :=
    (quoted?_recognizes.afterBlanks Quoted.startsBare).mpr ⟨b, hb, hquoted⟩
  obtain ⟨quote, hquote, htext⟩ := Option.bind_eq_some_iff.mp htext
  refine ⟨⟨c.skipBlanks.offset, after.offset⟩, after, ?_, rfl⟩
  unfold readLiteral
  dsimp only
  rw [hquote]
  dsimp only
  rw [if_pos rfl, htext]

/-- A literal of the kind is read, but for its place. -/
theorem readLiteral_complete {kind : ValueKind} {c : Cursor} {l : Literal} {b rest : List Char}
    (hb : Blanks c.rest b) (h : LiteralToken kind l b rest) :
    ∃ l' after, readLiteral kind c = .ok (l', after) ∧ l'.withoutSpan = l.withoutSpan ∧
      after.rest = rest := by
  obtain ⟨lkind, text, isQuoted, span⟩ := l
  cases h with
  | bare hkind hplain hrun hshape =>
    dsimp only at hkind hplain hrun hshape
    subst hkind hplain
    obtain ⟨span', after, hread, hrest⟩ := readLiteral_of_bare hb hrun hshape
    rw [String.ofList_toList] at hread
    exact ⟨_, after, hread, rfl, hrest⟩
  | quoted hstring hkind hq hquoted =>
    dsimp only at hkind hq hquoted
    subst hstring hkind hq
    obtain ⟨span', after, hread, hrest⟩ := readLiteral_of_quoted hb hquoted
    rw [String.ofList_toList] at hread
    exact ⟨_, after, hread, rfl, hrest⟩

-- ---------------------------------------------------------------------------
-- Comparisons
-- ---------------------------------------------------------------------------

/-- Every alternative is the one that its field name has. -/
def Unambiguous (g : Grammar) : Prop :=
  ∀ p ∈ g.productions, g.resolve? p.field = some p

theorem resolve?_eq_some {g : Grammar} {name : String} {p : Production}
    (h : g.resolve? name = some p) : p ∈ g.productions ∧ p.field = name := by
  unfold resolve? at h
  have hfield := List.find?_some h
  exact ⟨List.mem_reverse.mp (List.mem_of_find?_eq_some h), eq_of_beq hfield⟩

theorem productions_of_generate {resource : String} {fields : List Field}
    {statuses : Option (List Status)} {g : Grammar}
    (hg : generate resource fields statuses = .ok g) :
    g.productions = fields.filterMap Field.production? := by
  unfold generate at hg
  dsimp only at hg
  split at hg
  · cases hg
  · injection hg with hg
    rw [← hg]

/-- Where the alternatives have distinct field names, every one is found by its name. -/
theorem unambiguous_of_nodup {g : Grammar} (h : (g.productions.map Production.field).Nodup) :
    g.Unambiguous := by
  intro p hp
  cases hresolve : g.resolve? p.field with
  | none =>
    have := List.find?_eq_none.mp hresolve p (List.mem_reverse.mpr hp)
    exact absurd (beq_self_eq_true p.field) this
  | some q =>
    obtain ⟨hq, hfield⟩ := resolve?_eq_some hresolve
    rw [List.inj_on_of_nodup_map h hq hp hfield]

/-- The alternatives have the names of their fields. -/
theorem productions_sublist (fields : List Field) :
    ((fields.filterMap Field.production?).map Production.field).Sublist
      (fields.map Field.name) := by
  induction fields with
  | nil => exact .slnil
  | cons f fields ih =>
    rw [List.map_cons]
    cases hf : f.production? with
    | none =>
      rw [List.filterMap_cons_none hf]
      exact ih.cons f.name
    | some p =>
      obtain ⟨kind, -, rfl⟩ := Option.map_eq_some_iff.mp hf
      rw [List.filterMap_cons_some hf, List.map_cons]
      exact ih.cons_cons f.name

/-- Where field names are distinct, the grammar that is generated from them is unambiguous. -/
theorem unambiguous_of_generate {resource : String} {fields : List Field}
    {statuses : Option (List Status)} {g : Grammar}
    (hg : generate resource fields statuses = .ok g) (hnames : (fields.map Field.name).Nodup) :
    g.Unambiguous := by
  refine unambiguous_of_nodup ?_
  rw [productions_of_generate hg]
  exact hnames.sublist (productions_sublist fields)

/-- What is read as a comparison is derived from the text. -/
theorem readComparison_sound {g : Grammar} {c after : Cursor} {k : Comparison}
    (h : g.readComparison c = .ok (k, after)) : DerivesComparison g k c.rest after.rest := by
  unfold readComparison at h
  split at h
  · cases h
  · next name afterName hname =>
    split at h
    · cases h
    · next p hp =>
      obtain ⟨⟨key, c₁⟩, hkey, h⟩ := bind_eq_ok.mp h
      obtain ⟨⟨op, c₂⟩, hop, h⟩ := bind_eq_ok.mp h
      obtain ⟨⟨l, c₃⟩, hl, h⟩ := bind_eq_ok.mp h
      injection h with h
      injection h with hk hc
      subst hk hc
      obtain ⟨hmem, hfield⟩ := resolve?_eq_some hp
      obtain ⟨hallowed, b, hb, hop⟩ := (readOperator_reads ..).mp ⟨c₂, hop, rfl⟩
      obtain ⟨d, hd, hl⟩ := readLiteral_sound hl
      have hname := (identifier?_recognizes ..).mp ⟨afterName, hname, rfl⟩
      have hkey := (readKeyOf_reads ..).mp ⟨c₁, hkey, rfl⟩
      exact ⟨p, hmem, hfield, hallowed, _, _, b, _, d, by rwa [String.toList_ofList], hkey, hb, hop,
        hd, hl⟩

/-- What is derived from the text as a comparison is read, but for its place. -/
theorem readComparison_complete {g : Grammar} (hg : g.Unambiguous) {c : Cursor} {k : Comparison}
    {rest : List Char} (h : DerivesComparison g k c.rest rest) :
    ∃ k' after, g.readComparison c = .ok (k', after) ∧ k'.withoutSpans = k.withoutSpans ∧
      after.rest = rest := by
  obtain ⟨p, hmem, hfield, hallowed, _, _, b, _, d, hname, hkey, hb, hop, hd, hl⟩ := h
  obtain ⟨afterName, hreadName, rfl⟩ := (identifier?_recognizes ..).mpr hname
  obtain ⟨c₁, hreadKey, rfl⟩ := (readKeyOf_reads ..).mpr hkey
  obtain ⟨c₂, hreadOp, rfl⟩ := (readOperator_reads ..).mpr ⟨hallowed, b, hb, hop⟩
  obtain ⟨l, c₃, hreadLiteral, hsame, rfl⟩ := readLiteral_complete hd hl
  refine ⟨⟨k.field, k.key, k.op, l, ⟨c.offset, l.span.stop⟩⟩, c₃, ?_, ?_, rfl⟩
  · unfold readComparison
    rw [hreadName]
    dsimp only
    rw [String.ofList_toList, ← hfield, hg p hmem]
    dsimp only
    exact bind_eq_ok.mpr ⟨_, hreadKey, bind_eq_ok.mpr ⟨_, hreadOp,
      bind_eq_ok.mpr ⟨_, hreadLiteral, rfl⟩⟩⟩
  · unfold Comparison.withoutSpans
    dsimp only
    rw [hsame]

end Grammar

end ClusterFilter
