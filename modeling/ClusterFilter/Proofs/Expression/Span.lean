import ClusterFilter.Proofs.Expression.Continuation
import ClusterFilter.Proofs.Expression.Position

/-!
# ClusterFilter — the places of comparisons

Every comparison of a tree knows the bytes that it was read from, and its literal knows its own
share of them. Here is shown that these places are right: they lie between characters of the text,
one after another, and what stands there is the comparison and nothing else.

Two gaps are bridged:

* **Cursors vs texts** — a cursor counts bytes and holds the text that is left. That both agree is
  said between two cursors (`Moves`), and kept by every method; the reader of expressions goes on
  from one comparison to the next (`ReadAlong`).
* **A part alone vs in its text** — behind a comparison stands another text than behind the same
  comparison alone. What stands behind can be exchanged, and the tokens in front of the literal
  lead to it in one way only (`LeadsTo.unique`), so that the literal is found at the same place.

Main results:

* `readComparison_alone` — the bytes of a comparison are read as the comparison, at their own place.
* `parse_spans` — the places of all comparisons and literals of a tree.
-/

namespace ClusterFilter

-- ---------------------------------------------------------------------------
-- Places
-- ---------------------------------------------------------------------------

/-- The bytes of the span are the given part of the text, and so they begin and end between
characters. -/
def Span.Covers (s : Span) (text part : String) : Prop :=
  ∃ before after, text = before ++ part ++ after ∧ before.utf8ByteSize = s.start ∧
    (before ++ part).utf8ByteSize = s.stop

/-- The span `n` bytes further on. -/
def Span.shift (n : Nat) (s : Span) : Span :=
  ⟨n + s.start, n + s.stop⟩

/-- The comparison as it stands in a text with `n` more bytes in front. -/
def Comparison.shift (n : Nat) (k : Comparison) : Comparison :=
  { k with
    literal := { k.literal with span := k.literal.span.shift n }
    span := k.span.shift n }

-- ---------------------------------------------------------------------------
-- Moving a cursor
-- ---------------------------------------------------------------------------

namespace Cursor

/-- Between the cursors stands the given text, and its bytes are counted. -/
structure Passes (c : Cursor) (used : List Char) (c' : Cursor) : Prop where
  rest : c.rest = used ++ c'.rest
  offset : c'.offset = c.offset + Text.utf8Length used

/-- The second cursor stands behind the first one in the same text. -/
def Moves (c c' : Cursor) : Prop :=
  ∃ used, c.Passes used c'

variable {c c' c'' : Cursor}

theorem Passes.unique {used used' : List Char} (h : c.Passes used c')
    (h' : c.rest = used' ++ c'.rest) : used = used' :=
  List.append_cancel_right (h.rest.symm.trans h')

theorem Moves.refl (c : Cursor) : c.Moves c :=
  ⟨[], rfl, rfl⟩

theorem Passes.trans {used used' : List Char} (h : c.Passes used c') (h' : c'.Passes used' c'') :
    c.Passes (used ++ used') c'' := by
  refine ⟨?_, ?_⟩
  · rw [h.rest, h'.rest, List.append_assoc]
  · rw [h'.offset, h.offset, Text.utf8Length_append, Nat.add_assoc]

theorem Moves.trans (h : c.Moves c') (h' : c'.Moves c'') : c.Moves c'' := by
  obtain ⟨used, hused⟩ := h
  obtain ⟨used', hused'⟩ := h'
  exact ⟨used ++ used', hused.trans hused'⟩

theorem Moves.offset_le (h : c.Moves c') : c.offset ≤ c'.offset := by
  obtain ⟨used, -, hoffset⟩ := h
  rw [hoffset]
  exact Nat.le_add_right ..

theorem moves_skip (n : Nat) (c : Cursor) : c.Moves (c.skip n) :=
  ⟨c.rest.take n, (List.take_append_drop ..).symm, rfl⟩

theorem moves_skipBlanks (c : Cursor) : c.Moves c.skipBlanks :=
  moves_skip _ c

theorem moves_char? {x : Char} (h : c.char? x = some c') : c.Moves c' := by
  unfold char? at h
  split at h
  · exact Option.some.inj h ▸ moves_skip 1 c
  · cases h

theorem moves_keyword? {word : String} (h : c.keyword? word = some c') : c.Moves c' := by
  unfold keyword? at h
  dsimp only at h
  split at h
  · exact Option.some.inj h ▸ moves_skip _ c
  · cases h

theorem moves_takeWhile {p : Char → Bool} {word : List Char} (h : c.takeWhile p = (word, c')) :
    c.Moves c' := by
  injection h with _ h
  exact h ▸ moves_skip _ c

theorem moves_identifier? {name : List Char} (h : c.identifier? = some (name, c')) :
    c.Moves c' := by
  unfold identifier? at h
  split at h
  · split at h
    · exact moves_takeWhile (Option.some.inj h)
    · cases h
  · cases h

theorem moves_comparator? {op : Operator} (h : c.comparator? = some (op, c')) : c.Moves c' := by
  unfold comparator? at h
  split at h
  · injection h with h
    injection h with _ h
    exact h ▸ moves_skip _ c
  · dsimp only at h
    split at h
    · split at h
      · injection h with h
        injection h with _ h
        exact h ▸ moves_skip _ c
      · cases h
    · cases h

theorem moves_bare? {text : List Char} (h : c.bare? = some (text, c')) : c.Moves c' := by
  unfold bare? at h
  split at h
  · cases h
  · next htake =>
    rw [Option.some.inj h] at htake
    exact moves_takeWhile htake

theorem moves_key? {key : List Char} (h : c.key? = some (key, c')) : c.Moves c' := by
  unfold key? at h
  split at h
  · cases h
  · next htake =>
    rw [Option.some.inj h] at htake
    exact moves_takeWhile htake

theorem moves_quoted? {quote : Char} {text : List Char} (h : c.quoted? quote = some (text, c')) :
    c.Moves c' := by
  obtain ⟨_, -, h⟩ := Option.map_eq_some_iff.mp h
  injection h with _ h
  exact h ▸ moves_skip _ c

/-- A method that recognizes a token takes the same text whenever it takes the token. -/
theorem Recognizes.unique {α : Type} {read : Cursor → Option (α × Cursor)}
    {token : α → List Char → List Char → Prop} (h : Recognizes read token) {a : α}
    {cs rest rest' : List Char} (ha : token a cs rest) (ha' : token a cs rest') : rest = rest' := by
  obtain ⟨after, hread, rfl⟩ := (h (Cursor.start cs) a rest).mpr ha
  obtain ⟨after', hread', rfl⟩ := (h (Cursor.start cs) a rest').mpr ha'
  rw [hread] at hread'
  injection hread' with hread'
  injection hread' with _ hsame
  rw [hsame]

end Cursor

namespace Grammar

open Token Cursor Relation

variable {g : Grammar} {c after : Cursor}

theorem moves_readKey {key : String} (h : readKey c = .ok (key, after)) : c.Moves after := by
  unfold readKey at h
  dsimp only at h
  split at h
  · next c₁ hpoint =>
    have hmoves := ((moves_skipBlanks c).trans (moves_char? hpoint)).trans (moves_skipBlanks c₁)
    split at h
    · next key' c₂ hkey =>
      injection h with h
      injection h with _ h
      exact h ▸ hmoves.trans (moves_key? hkey)
    · cases h
  · split at h
    · cases h
    · next c₁ hopen =>
      have hmoves := ((moves_skipBlanks c).trans (moves_char? hopen)).trans (moves_skipBlanks c₁)
      split at h
      · cases h
      · split at h
        · cases h
        · next key' c₂ hkey =>
          have hmoves := (hmoves.trans (moves_quoted? hkey)).trans (moves_skipBlanks c₂)
          split at h
          · next c₃ hclose =>
            injection h with h
            injection h with _ h
            exact h ▸ hmoves.trans (moves_char? hclose)
          · cases h

theorem moves_readKeyOf {p : Production} {key : Option String}
    (h : readKeyOf p c = .ok (key, after)) : c.Moves after := by
  unfold readKeyOf at h
  split at h
  · obtain ⟨⟨key', c'⟩, hkey, h⟩ := bind_eq_ok.mp h
    injection h with h
    injection h with _ h
    exact h ▸ moves_readKey hkey
  · injection h with h
    injection h with _ h
    exact h ▸ .refl c

theorem moves_readOperator {comparators : Comparators} {op : Operator}
    (h : readOperator comparators c = .ok (op, after)) : c.Moves after := by
  unfold readOperator at h
  dsimp only at h
  split at h
  · cases h
  · next op' c' hop =>
    split at h
    · injection h with h
      injection h with _ h
      exact h ▸ (moves_skipBlanks c).trans (moves_comparator? hop)
    · cases h

/-- A literal stands behind the white space, and its span says where. -/
theorem readLiteral_place {kind : ValueKind} {l : Literal}
    (h : readLiteral kind c = .ok (l, after)) :
    c.skipBlanks.Moves after ∧ l.span = ⟨c.skipBlanks.offset, after.offset⟩ := by
  have hbare : ∀ {c' : Cursor}, readBareLiteral kind c' = .ok (l, after) →
      c'.Moves after ∧ l.span = ⟨c'.offset, after.offset⟩ := by
    intro c' h
    unfold readBareLiteral at h
    split at h
    · cases h
    · next text after' htext =>
      split at h
      · injection h with h
        injection h with hl hc
        subst hl hc
        exact ⟨moves_bare? htext, rfl⟩
      · cases h
  unfold readLiteral at h
  dsimp only at h
  split at h
  · split at h
    · split at h
      · cases h
      · next text after' htext =>
        injection h with h
        injection h with hl hc
        subst hl hc
        exact ⟨moves_quoted? htext, rfl⟩
    · exact hbare h
  · exact hbare h

-- ---------------------------------------------------------------------------
-- The place of a comparison
-- ---------------------------------------------------------------------------

/-- In front of the second text stands what the comparison has in front of its literal. -/
def LeadsTo (p : Production) (k : Comparison) : List Char → List Char → Prop :=
  Comp (Identifier k.field.toList) (Comp (KeyPart p k.key)
    (Comp (OperatorPart p.comparators k.op) Blanks))

/-- The comparison was read between the two cursors with an alternative of its field, and its
literal between a third cursor and the second one. -/
structure Located (g : Grammar) (p : Production) (k : Comparison) (c d after : Cursor) : Prop where
  mem : p ∈ g.productions
  field : p.field = k.field
  before : c.Moves d
  behind : d.Moves after
  leads : LeadsTo p k c.rest d.rest
  literal : LiteralToken p.token k.literal d.rest after.rest
  literal_span : k.literal.span = ⟨d.offset, after.offset⟩
  span : k.span = ⟨c.offset, after.offset⟩

theorem LiteralToken.startsBare {kind : ValueKind} {l : Literal} {cs rest : List Char}
    (h : LiteralToken kind l cs rest) : StartsBare cs := by
  cases h with
  | bare _ _ hrun _ => exact hrun.startsBare isBlank_eq_false_of_isBareChar
  | quoted _ _ _ hquoted => exact hquoted.startsBare

theorem readComparison_located {k : Comparison} (h : g.readComparison c = .ok (k, after)) :
    ∃ p d, Located g p k c d after := by
  unfold readComparison at h
  split at h
  · cases h
  · next name afterName hname =>
    split at h
    · cases h
    · next p hp =>
      obtain ⟨⟨key, c₁⟩, hkey, h⟩ := bind_eq_ok.mp h
      obtain ⟨⟨op, c₂⟩, hop, h⟩ := bind_eq_ok.mp h
      obtain ⟨⟨l, c₃⟩, hl, h⟩ := bind_eq_ok.mp h
      injection h with h
      injection h with hk hc
      subst hk hc
      obtain ⟨hmem, hfield⟩ := resolve?_eq_some hp
      obtain ⟨hbehind, hspan⟩ := readLiteral_place hl
      have hmoves := ((moves_identifier? hname).trans (moves_readKeyOf hkey)).trans
        ((moves_readOperator hop).trans (moves_skipBlanks c₂))
      obtain ⟨hallowed, b, hb, hop⟩ := (readOperator_reads ..).mp ⟨c₂, hop, rfl⟩
      obtain ⟨d, hd, hl⟩ := readLiteral_sound hl
      have hname := (identifier?_recognizes ..).mp ⟨afterName, hname, rfl⟩
      have hkey := (readKeyOf_reads ..).mp ⟨c₁, hkey, rfl⟩
      rw [← skipBlanks_eq_of_blanks hd hl.startsBare] at hl
      refine ⟨p, c₂.skipBlanks, hmem, hfield, hmoves, hbehind, ?_, hl, hspan, ?_⟩
      · exact ⟨_, by rwa [String.toList_ofList], _, hkey, _, ⟨b, hb, hallowed, hop⟩,
          blanks_skipBlanks c₂⟩
      · rw [hspan]

-- ---------------------------------------------------------------------------
-- The same comparison alone
-- ---------------------------------------------------------------------------

theorem threads_leadsTo (p : Production) (k : Comparison) : Threads Parted (LeadsTo p k) :=
  (threads_identifier Parted.word _).comp ((threads_keyPart Parted.key p k.key).comp
    ((threads_operatorPart Parted.severs p.comparators k.op).comp threads_blanks))

theorem Reads.unique {α : Type} {read : Reader α} {token : α → List Char → List Char → Prop}
    (h : Reads read token) {a : α} {cs rest rest' : List Char} (ha : token a cs rest)
    (ha' : token a cs rest') : rest = rest' := by
  obtain ⟨after, hread, rfl⟩ := (h (Cursor.start cs) a rest).mpr ha
  obtain ⟨after', hread', rfl⟩ := (h (Cursor.start cs) a rest').mpr ha'
  rw [hread] at hread'
  injection hread' with hread'
  injection hread' with _ hsame
  rw [hsame]

/-- What a comparison has in front of its literal leads to one place only. -/
theorem LeadsTo.unique {p : Production} {k : Comparison} {cs d d' : List Char}
    (h : LeadsTo p k cs d) (h' : LeadsTo p k cs d') (hd : StartsBare d) (hd' : StartsBare d') :
    d = d' := by
  obtain ⟨a, hname, b, hkey, o, ⟨_, hb, hallowed, hop⟩, hgap⟩ := h
  obtain ⟨a', hname', b', hkey', o', ⟨_, hb', hallowed', hop'⟩, hgap'⟩ := h'
  obtain rfl := identifier?_recognizes.unique hname hname'
  obtain rfl := (readKeyOf_reads p).unique hkey hkey'
  obtain rfl := (readOperator_reads p.comparators).unique ⟨hallowed, _, hb, hop⟩
    ⟨hallowed', _, hb', hop'⟩
  rw [← hgap.dropBlanks_eq hd, ← hgap'.dropBlanks_eq hd']

theorem Located.derives {p : Production} {k : Comparison} {d : Cursor}
    (h : Located g p k c d after) : DerivesComparison g k c.rest after.rest := by
  obtain ⟨_, hname, _, hkey, _, hop, hgap⟩ := h.leads
  exact derivesComparison_iff.mpr
    ⟨p, ⟨h.mem, h.field⟩, _, hname, _, hkey, _, hop, _, hgap, h.literal⟩

/-- Alone, the literal of a comparison begins and ends at the bytes that it has in its text, counted
from the start of the comparison: nothing else leads to it. -/
theorem Located.alone_offsets {p : Production} {k k' : Comparison} {d d' after' : Cursor}
    {front written : List Char} (h : Located g p k c d after) (hfront : c.Passes front d)
    (hwritten : d.Passes written after)
    (h' : Located g p k' (Cursor.start (front ++ written)) d' after') (hend : after'.rest = [])
    (hsame : LeadsTo p k' = LeadsTo p k) :
    d'.offset = Text.utf8Length front ∧ after'.offset = Text.utf8Length (front ++ written) := by
  have hreplaces : Replaces written d.rest := by
    have hempty : Replaces [] after.rest := nofun
    have := hempty.append written
    rwa [List.append_nil, ← hwritten.rest] at this
  have hbare : StartsBare written := by
    intro x hx
    refine h.literal.startsBare x ?_
    rw [hwritten.rest, List.head?_append, Option.mem_def.mp hx]
    rfl
  have hplace : d'.rest = written := by
    obtain ⟨used, hsplit, hexchange⟩ := (threads_leadsTo p k).exchange h.leads
    obtain rfl := hfront.unique hsplit
    exact (hsame ▸ h'.leads).unique (hexchange written (.inl hreplaces)) h'.literal.startsBare hbare
  obtain ⟨used, hused⟩ := h'.before
  obtain ⟨all, hall⟩ := h'.before.trans h'.behind
  have hstart : used = front := hused.unique (by rw [hplace]; rfl)
  have hwhole : all = front ++ written := hall.unique (by rw [hend, List.append_nil]; rfl)
  refine ⟨?_, ?_⟩
  · rw [hused.offset, hstart]
    exact Nat.zero_add _
  · rw [hall.offset, hwhole]
    exact Nat.zero_add _

/-- A comparison is read alone as in its text, with all places counted from its own start. -/
theorem readComparison_alone (hg : g.Unambiguous) {k : Comparison}
    (h : g.readComparison c = .ok (k, after)) :
    ∃ used k' after', c.Passes used after ∧
      g.readComparison (Cursor.start used) = .ok (k', after') ∧ after'.rest = [] ∧
      k'.shift c.offset = k := by
  obtain ⟨p, d, hlocated⟩ := readComparison_located h
  -- the text of the comparison is what leads to the literal, and the literal
  obtain ⟨front, hfront⟩ := hlocated.before
  obtain ⟨written, hwritten⟩ := hlocated.behind
  have hused : c.Passes (front ++ written) after := hfront.trans hwritten
  obtain ⟨used, hsplit, hexchange⟩ := (threads_derivesComparison k).exchange hlocated.derives
  obtain rfl := hused.unique hsplit
  have halone : DerivesComparison g k (front ++ written) [] := by
    have := hexchange [] (.inl nofun)
    rwa [List.append_nil] at this
  obtain ⟨k', after', hread, hsame, hend⟩ :=
    readComparison_complete (c := Cursor.start (front ++ written)) hg halone
  refine ⟨_, k', after', hused, hread, hend, ?_⟩
  obtain ⟨p', d', hlocated'⟩ := readComparison_located hread
  unfold Comparison.withoutSpans Literal.withoutSpan at hsame
  simp only [Comparison.mk.injEq, Literal.mk.injEq] at hsame
  obtain ⟨hfield, hkey, hop, ⟨hkind, htext, hquoted, -⟩, -⟩ := hsame
  have hproduction : p' = p := by
    have hresolve := hg p' hlocated'.mem
    rw [hlocated'.field, hfield, ← hlocated.field, hg p hlocated.mem] at hresolve
    exact (Option.some.inj hresolve).symm
  subst hproduction
  have hleads : LeadsTo p' k' = LeadsTo p' k := by
    unfold LeadsTo
    rw [hfield, hkey, hop]
  obtain ⟨hstart, hstop⟩ := hlocated.alone_offsets hfront hwritten hlocated' hend hleads
  have hspan : k'.span.shift c.offset = k.span := by
    rw [hlocated'.span, hlocated.span, hstop, hused.offset]
    rfl
  have hliteral : k'.literal.span.shift c.offset = k.literal.span := by
    rw [hlocated'.literal_span, hlocated.literal_span, hstart, hstop, hfront.offset, hused.offset]
    rfl
  unfold Comparison.shift
  rw [hspan, hliteral, hfield, hkey, hop]
  dsimp only
  rw [hkind, htext, hquoted]

/-- A comparison takes at least one byte. -/
theorem offset_lt_of_readComparison {k : Comparison} (h : g.readComparison c = .ok (k, after)) :
    c.offset < after.offset := by
  obtain ⟨p, d, hlocated⟩ := readComparison_located h
  obtain ⟨used, hused⟩ := hlocated.before.trans hlocated.behind
  have hlength := hlocated.derives.length_lt
  cases used with
  | nil =>
    rw [hused.rest] at hlength
    exact absurd hlength (Nat.lt_irrefl _)
  | cons x used =>
    have hpos := x.utf8Size_pos
    rw [hused.offset, Text.utf8Length_cons]
    omega

/-- The whole text is a comparison if the reader of comparisons takes all of it. -/
theorem parse_of_readComparison {cs : List Char} {k : Comparison}
    (h : g.readComparison (Cursor.start cs) = .ok (k, after)) (hend : after.rest = []) :
    g.parse (String.ofList cs) = .ok (.one (.one (.comparison k))) := by
  have hname : Token.StartsBare cs ∧ cs.head? ≠ some '(' := by
    obtain ⟨p, d, hlocated⟩ := readComparison_located h
    obtain ⟨_, hname, -⟩ := hlocated.leads
    exact ⟨hname.startsBare, hname.run.head?_ne (by decide)⟩
  have hskip : (Cursor.start cs).skipBlanks = Cursor.start cs := by
    have hrun : cs.takeWhile Text.isBlank = [] := (Text.takeWhile_eq_nil_of_head hname.1).1
    show (Cursor.start cs).skip (cs.takeWhile Text.isBlank).length = _
    rw [hrun]
    rfl
  have hopen : (Cursor.start cs).skipBlanks.char? '(' = none := by
    rw [hskip]
    exact char?_eq_none hname.2
  have hfactor : g.readFactor maxNesting (Cursor.start cs) = .ok (.comparison k, after) :=
    readFactor_of_comparison hopen (by rwa [hskip])
  have hblanks : Token.Blanks after.rest [] := hend ▸ .refl []
  obtain ⟨hand, hor⟩ := isLast_of_blanks hblanks (.inl rfl)
  have hread : readExpr (g.readFactor maxNesting) (Cursor.start cs) =
      .ok (.one (.one (.comparison k)), after) :=
    readTerms_one (readFactors_one hfactor hand) hor
  rw [parse_eq_ok_iff, String.toList_ofList]
  refine bind_eq_ok.mpr ⟨_, hread, ?_⟩
  dsimp only
  rw [skipBlanks_eq_of_blanks hblanks startsBare_nil, List.isEmpty_nil, if_pos rfl]

-- ---------------------------------------------------------------------------
-- One comparison after another
-- ---------------------------------------------------------------------------

/-- On the way from the first cursor to the second one the comparisons are read, in this order. -/
def ReadAlong (g : Grammar) : List Comparison → Cursor → Cursor → Prop
  | [], c, after => c.Moves after
  | k :: ks, c, after =>
    ∃ c₁ c₂, c.Moves c₁ ∧ g.readComparison c₁ = .ok (k, c₂) ∧ ReadAlong g ks c₂ after

variable {ks ks' : List Comparison} {c' : Cursor}

theorem moves_readComparison {k : Comparison} (h : g.readComparison c = .ok (k, after)) :
    c.Moves after := by
  obtain ⟨p, d, hlocated⟩ := readComparison_located h
  exact hlocated.before.trans hlocated.behind

theorem ReadAlong.of_moves (hm : c.Moves c') (h : ReadAlong g ks c' after) :
    ReadAlong g ks c after := by
  cases ks with
  | nil => exact hm.trans h
  | cons k ks =>
    obtain ⟨c₁, c₂, hmoves, hread, hrest⟩ := h
    exact ⟨c₁, c₂, hm.trans hmoves, hread, hrest⟩

theorem ReadAlong.append (h : ReadAlong g ks c c') (h' : ReadAlong g ks' c' after) :
    ReadAlong g (ks ++ ks') c after := by
  induction ks generalizing c with
  | nil => exact .of_moves h h'
  | cons k ks ih =>
    obtain ⟨c₁, c₂, hmoves, hread, hrest⟩ := h
    exact ⟨c₁, c₂, hmoves, hread, ih hrest⟩

section

variable {factor : Reader Factor}
  (hfactor : ∀ {c f after}, factor c = .ok (f, after) → ReadAlong g f.comparisons c after)

include hfactor

theorem readFactors_along {more : Nat} {t : Term} (h : readFactors factor more c = .ok (t, after)) :
    ReadAlong g t.comparisons c after := by
  induction more generalizing c t with
  | zero =>
    obtain ⟨⟨f, c₁⟩, hf, h⟩ := bind_eq_ok.mp h
    injection h with h
    injection h with ht hc
    subst ht hc
    exact hfactor hf
  | succ more ih =>
    obtain ⟨⟨f, c₁⟩, hf, h⟩ := bind_eq_ok.mp h
    dsimp only at h
    split at h
    · next c₂ hword =>
      obtain ⟨⟨t', c₃⟩, ht, h⟩ := bind_eq_ok.mp h
      injection h with h
      injection h with ht' hc
      subst ht' hc
      have hgap := (moves_skipBlanks c₁).trans (moves_keyword? hword)
      exact (hfactor hf).append (.of_moves hgap (ih ht))
    · injection h with h
      injection h with ht hc
      subst ht hc
      exact hfactor hf

theorem readTerms_along {more : Nat} {e : Expr} (h : readTerms factor more c = .ok (e, after)) :
    ReadAlong g e.comparisons c after := by
  induction more generalizing c e with
  | zero =>
    obtain ⟨⟨t, c₁⟩, ht, h⟩ := bind_eq_ok.mp h
    injection h with h
    injection h with he hc
    subst he hc
    exact readFactors_along hfactor ht
  | succ more ih =>
    obtain ⟨⟨t, c₁⟩, ht, h⟩ := bind_eq_ok.mp h
    have ht := readFactors_along hfactor ht
    dsimp only at h
    split at h
    · next c₂ hword =>
      obtain ⟨⟨e', c₃⟩, he, h⟩ := bind_eq_ok.mp h
      injection h with h
      injection h with he' hc
      subst he' hc
      have hgap := (moves_skipBlanks c₁).trans (moves_keyword? hword)
      exact ht.append (.of_moves hgap (ih he))
    · injection h with h
      injection h with he hc
      subst he hc
      exact ht

end

/-- The comparisons of a factor are read one after another on the way to its end. -/
theorem readFactor_along {depth : Nat} {f : Factor} (h : g.readFactor depth c = .ok (f, after)) :
    ReadAlong g f.comparisons c after := by
  have hcomparison : ∀ {c after : Cursor} {k : Comparison},
      g.readComparison c.skipBlanks = .ok (k, after) → ReadAlong g [k] c after := fun h =>
    ⟨_, _, moves_skipBlanks _, h, .refl _⟩
  induction depth generalizing c after f with
  | zero =>
    unfold readFactor at h
    dsimp only at h
    split at h
    · cases h
    · obtain ⟨⟨k, c₁⟩, hk, h⟩ := bind_eq_ok.mp h
      injection h with h
      injection h with hf hc
      subst hf hc
      exact hcomparison hk
  | succ depth ih =>
    unfold readFactor at h
    dsimp only at h
    split at h
    · next c₁ hopen =>
      obtain ⟨⟨e, c₂⟩, he, h⟩ := bind_eq_ok.mp h
      dsimp only at h
      split at h
      · next c₃ hclose =>
        injection h with h
        injection h with hf hc
        subst hf hc
        have hbehind : ReadAlong g [] c₂ c₃ := (moves_skipBlanks c₂).trans (moves_char? hclose)
        have hinside := (readTerms_along ih he).append hbehind
        rw [List.append_nil] at hinside
        exact .of_moves ((moves_skipBlanks c).trans (moves_char? hopen)) hinside
      · cases h
    · obtain ⟨⟨k, c₁⟩, hk, h⟩ := bind_eq_ok.mp h
      injection h with h
      injection h with hf hc
      subst hf hc
      exact hcomparison hk

/-- The spans of comparisons that are read one after another are apart and in order. -/
theorem ReadAlong.pairwise (h : ReadAlong g ks c after) :
    (∀ k ∈ ks, c.offset ≤ k.span.start) ∧
      ks.Pairwise fun a b => a.span.stop ≤ b.span.start := by
  induction ks generalizing c with
  | nil => exact ⟨nofun, .nil⟩
  | cons k ks ih =>
    obtain ⟨c₁, c₂, hmoves, hread, hrest⟩ := h
    obtain ⟨hbehind, hpairwise⟩ := ih hrest
    obtain ⟨p, d, hlocated⟩ := readComparison_located hread
    have hspan := hlocated.span
    have hfirst : c.offset ≤ k.span.start := hspan ▸ hmoves.offset_le
    refine ⟨List.forall_mem_cons.mpr ⟨hfirst, fun k' hk' => ?_⟩,
      List.pairwise_cons.mpr ⟨fun k' hk' => ?_, hpairwise⟩⟩
    · have := (hmoves.trans (moves_readComparison hread)).offset_le
      exact Nat.le_trans this (hbehind k' hk')
    · rw [hspan]
      exact hbehind k' hk'

theorem ReadAlong.of_mem (h : ReadAlong g ks c after) {k : Comparison} (hk : k ∈ ks) :
    ∃ c₁ c₂, c.Moves c₁ ∧ g.readComparison c₁ = .ok (k, c₂) := by
  induction ks generalizing c with
  | nil => cases hk
  | cons k' ks ih =>
    obtain ⟨c₁, c₂, hmoves, hread, hrest⟩ := h
    rcases List.mem_cons.mp hk with rfl | hk
    · exact ⟨c₁, c₂, hmoves, hread⟩
    · obtain ⟨c₃, c₄, hmoves', hread'⟩ := ih hrest hk
      exact ⟨c₃, c₄, (hmoves.trans (moves_readComparison hread)).trans hmoves', hread'⟩

-- ---------------------------------------------------------------------------
-- The places of a tree
-- ---------------------------------------------------------------------------

/-- The text between two cursors, of which the first one is behind the start, is covered by the span
between their offsets. -/
theorem covers_of_passes {text : String} {used : List Char}
    (h : (Cursor.start text.toList).Moves c) (h' : c.Passes used after) :
    Span.Covers ⟨c.offset, after.offset⟩ text (String.ofList used) := by
  obtain ⟨front, hfront⟩ := h
  have hboth := hfront.trans h'
  refine ⟨String.ofList front, String.ofList after.rest, ?_, ?_, ?_⟩
  · rw [← String.ofList_append, ← String.ofList_append, ← hboth.rest]
    exact String.ofList_toList.symm
  · rw [Text.utf8ByteSize_ofList, hfront.offset]
    exact (Nat.zero_add _).symm
  · rw [← String.ofList_append, Text.utf8ByteSize_ofList, hboth.offset]
    exact (Nat.zero_add _).symm

/-- A bare literal is written as its text, and a quoted one as a spelling of its text between two
quotes. -/
theorem LiteralToken.written {kind : ValueKind} {l : Literal} {used : List Char}
    (h : LiteralToken kind l c.rest after.rest) (hused : c.Passes used after) :
    (l.quoted = false → used = l.text.toList) ∧
      (l.quoted = true → ∃ quote body, (quote = '\x27' ∨ quote = '\x22') ∧
        used = quote :: (body ++ [quote]) ∧ QuotedBody quote body l.text.toList) := by
  cases h with
  | bare _ hplain hrun _ =>
    refine ⟨fun _ => hused.unique hrun.split, fun hq => ?_⟩
    rw [hplain] at hq
    cases hq
  | quoted _ _ hq hquoted =>
    refine ⟨fun hplain => ?_, fun _ => ?_⟩
    · rw [hplain] at hq
      cases hq
    · obtain ⟨quote, body, hquote, hsplit, hspell⟩ := hquoted
      refine ⟨quote, body, hquote, hused.unique ?_, hspell⟩
      rw [hsplit]
      simp only [List.cons_append, List.append_assoc, List.nil_append]

/--
**Exact places.** Let the field names of a grammar be distinct and a text be parsed to a tree. The
spans of the comparisons, from left to right, are apart and in order, and not empty. What stands at
such a span, alone, is parsed to the same comparison at its own place. The span of its literal is
part of it and ends with it. At that stands the text of the literal, or else a quote, a spelling of
the text and the quote again.
-/
theorem parse_spans (hnames : (g.productions.map Production.field).Nodup) {text : String} {e : Expr}
    (h : g.parse text = .ok e) :
    (e.comparisons.Pairwise fun a b => a.span.stop ≤ b.span.start) ∧
    ∀ k ∈ e.comparisons,
      k.span.start < k.span.stop ∧
      (∃ part k', k.span.Covers text part ∧
        g.parse part = .ok (.one (.one (.comparison k'))) ∧ k'.shift k.span.start = k) ∧
      k.span.start ≤ k.literal.span.start ∧ k.literal.span.stop = k.span.stop ∧
      ∃ written, k.literal.span.Covers text written ∧
        (k.literal.quoted = false → k.literal.text = written) ∧
        (k.literal.quoted = true → ∃ quote body, (quote = '\x27' ∨ quote = '\x22') ∧
          written.toList = quote :: (body ++ [quote]) ∧
            QuotedBody quote body k.literal.text.toList) := by
  obtain ⟨⟨e', last⟩, he, h⟩ := bind_eq_ok.mp (parse_eq_ok_iff.mp h)
  have hsame : e' = e := by
    dsimp only at h
    split at h
    · exact Except.ok.inj h
    · cases h
  subst hsame
  have halong := readTerms_along readFactor_along he
  refine ⟨halong.pairwise.2, fun k hk => ?_⟩
  obtain ⟨c₁, c₂, hstart, hread⟩ := halong.of_mem hk
  obtain ⟨p, d, hlocated⟩ := readComparison_located hread
  obtain ⟨used, k', after', hused, halone, hend, hshift⟩ :=
    readComparison_alone (unambiguous_of_nodup hnames) hread
  obtain ⟨written, hwritten⟩ := hlocated.behind
  obtain ⟨hplain, hquoted⟩ := hlocated.literal.written hwritten
  refine ⟨?_, ⟨String.ofList used, k', ?_, parse_of_readComparison halone hend, ?_⟩, ?_, ?_,
    String.ofList written, ?_, ?_, ?_⟩
  · rw [hlocated.span]
    exact offset_lt_of_readComparison hread
  · exact hlocated.span ▸ covers_of_passes hstart hused
  · rw [hlocated.span]
    exact hshift
  · rw [hlocated.span, hlocated.literal_span]
    exact hlocated.before.offset_le
  · rw [hlocated.span, hlocated.literal_span]
  · exact hlocated.literal_span ▸ covers_of_passes (hstart.trans hlocated.before) hwritten
  · intro hq
    rw [hplain hq, String.ofList_toList]
  · intro hq
    rw [String.toList_ofList]
    exact hquoted hq

/-- A quoted literal of more bytes than characters, and a comparison in a group. -/
theorem parse_spans_twoFields :
    ∃ g e, (Grammar.productions g).map Production.field = ["size", "tags"] ∧
      g.parse "tags.os = 'é\\'s' and ( size>=+3 )" = .ok e ∧
      e.comparisons.map Comparison.span = [⟨0, 17⟩, ⟨24, 32⟩] ∧
      ∀ k ∈ e.comparisons, ∃ part k',
        k.span.Covers "tags.os = 'é\\'s' and ( size>=+3 )" part ∧
          g.parse part = .ok (.one (.one (.comparison k'))) ∧ k'.shift k.span.start = k := by
  let g : Grammar := ⟨"node", [⟨"size", .number, false, .ordered, .number⟩,
    ⟨"tags", .string, true, .text, .string⟩], []⟩
  have hspans : ((g.parse "tags.os = 'é\\'s' and ( size>=+3 )").toOption.map fun e =>
      e.comparisons.map Comparison.span) = some [⟨0, 17⟩, ⟨24, 32⟩] := by
    decide +kernel
  obtain ⟨e, he, hspans⟩ := Option.map_eq_some_iff.mp hspans
  have he : g.parse "tags.os = 'é\\'s' and ( size>=+3 )" = .ok e := by
    revert he
    cases g.parse "tags.os = 'é\\'s' and ( size>=+3 )" with
    | ok e' => exact fun he => congrArg Except.ok (Option.some.inj he)
    | error failure => exact nofun
  have hnames : (g.productions.map Production.field).Nodup := by
    decide
  exact ⟨g, e, rfl, he, hspans, fun k hk => ((parse_spans hnames he).2 k hk).2.1⟩

end Grammar

end ClusterFilter
