import ClusterFilter.Proofs.Expression.Completion

/-!
# ClusterFilter — the place of an error

An error in the form of an expression says where it is in bytes and in characters, and what stands
there. The three belong together: the text is split at one place, and white space in front of a
token is never part of what follows the split.

That the place is within the text holds of every grammar, also of one without fields, where nothing
can be completed.

Main results:

* `parse_malformed_split` — the error splits the text, and what it found begins the second part.
* `parse_malformed_stuck` — what the error lists is offered there.
* `parse_error_positioned` — the same over a resource, in bytes and characters of the text.
-/

namespace ClusterFilter

open Token Cursor Relation

theorem Text.utf8ByteSize_ofList (cs : List Char) :
    (String.ofList cs).utf8ByteSize = Text.utf8Length cs := by
  induction cs with
  | nil => rfl
  | cons x cs ih =>
    rw [String.ofList_cons, String.utf8ByteSize_append, String.utf8ByteSize_singleton, ih,
      Text.utf8Length_cons]

-- ---------------------------------------------------------------------------
-- Failures within a text
-- ---------------------------------------------------------------------------

/-- The failure is about a place in the text. -/
def Failure.Within (g : Grammar) (failure : Failure) (cs : List Char) : Prop :=
  ∃ pre post, cs = pre ++ post ∧ failure.At g post

namespace Grammar

section

variable {g : Grammar} {failure : Failure} {A : List Char → List Char → Prop}
  {cs mid mid' post : List Char}

theorem within_of_at (h : failure.At g cs) : failure.Within g cs :=
  ⟨[], cs, rfl, h⟩

theorem Stuck.within {aside : Expectation → List Char → Prop} (h : Stuck g aside failure A cs) :
    failure.Within g cs := by
  obtain ⟨pre, post, hsplit, hat, -⟩ := h
  exact ⟨pre, post, hsplit, hat⟩

theorem within_append (used : List Char) (h : failure.Within g cs) :
    failure.Within g (used ++ cs) := by
  obtain ⟨pre, post, rfl, hat⟩ := h
  exact ⟨used ++ pre, post, (List.append_assoc ..).symm, hat⟩

theorem within_behind (hA : Threads Parted A) (ha : A cs mid) (h : failure.Within g mid) :
    failure.Within g cs := by
  obtain ⟨used, rfl, -⟩ := hA.exchange ha
  exact within_append used h

theorem within_joined {word : String} (hA : Threads Parted A) (ha : A cs mid)
    (hb : Blanks mid mid') (hword : Keyword word mid' post) (h : failure.Within g post) :
    failure.Within g cs := by
  obtain ⟨w, rfl, -⟩ := hword
  exact within_behind hA ha (within_behind threads_blanks hb (within_append w h))

end

section

variable {g : Grammar} {factor : Reader Factor} {depth : Nat}
  (hsound : ∀ {c f after}, factor c = .ok (f, after) →
    DerivesFactor g f c.rest after.rest ∧ f.nesting ≤ depth)
  (hwithin : ∀ {c failure}, factor c = .error failure → failure.Within g c.rest)

include hsound hwithin

theorem readFactors_within {more : Nat} {c : Cursor} {failure : Failure}
    (h : readFactors factor more c = .error failure) : failure.Within g c.rest := by
  induction more generalizing c with
  | zero =>
    rcases bind_eq_error.mp h with h | ⟨_, _, h⟩
    · exact hwithin h
    · cases h
  | succ more ih =>
    rcases bind_eq_error.mp h with h | ⟨⟨f, c₁⟩, hf, h⟩
    · exact hwithin h
    obtain ⟨hderives, hdepth⟩ := hsound hf
    dsimp only at h
    split at h
    · next c₂ hword =>
      have hword := keyword?_eq_some_iff.mp ⟨c₂, hword, rfl⟩
      rcases bind_eq_error.mp h with h | ⟨_, _, h⟩
      · exact within_joined (threads_factorWithin depth) ⟨f, hdepth, hderives⟩
          (blanks_skipBlanks c₁) hword (ih h)
      · cases h
    · cases h

theorem readTerms_within {more : Nat} {c : Cursor} {failure : Failure}
    (h : readTerms factor more c = .error failure) : failure.Within g c.rest := by
  induction more generalizing c with
  | zero =>
    rcases bind_eq_error.mp h with h | ⟨_, _, h⟩
    · exact readFactors_within hsound hwithin h
    · cases h
  | succ more ih =>
    rcases bind_eq_error.mp h with h | ⟨⟨t, c₁⟩, ht, h⟩
    · exact readFactors_within hsound hwithin h
    obtain ⟨hderives, hdepth⟩ := readFactors_sound hsound ht
    dsimp only at h
    split at h
    · next c₂ hword =>
      have hword := keyword?_eq_some_iff.mp ⟨c₂, hword, rfl⟩
      rcases bind_eq_error.mp h with h | ⟨_, _, h⟩
      · exact within_joined (threads_termWithin depth) ⟨t, hdepth, hderives⟩
          (blanks_skipBlanks c₁) hword (ih h)
      · cases h
    · cases h

end

variable {g : Grammar} {failure : Failure}

theorem readComparison_skipBlanks_within {c : Cursor}
    (h : g.readComparison c.skipBlanks = .error failure) : failure.Within g c.rest := by
  refine within_behind threads_blanks (blanks_skipBlanks c) ?_
  rcases readComparison_stuck (startsBare_skipBlanks c) h with ⟨hat, -⟩ | hstuck
  · exact within_of_at hat
  · exact hstuck.within

/-- Behind an expression, what cannot follow it is within the text. -/
theorem within_behindExpr {depth : Nat} {cs : List Char} {c : Cursor} (expected : List Expectation)
    (he : ExprWithin g depth cs c.rest) :
    (Failure.unexpected c.skipBlanks expected).Within g cs :=
  within_behind (threads_exprWithin depth) he (within_behind threads_blanks (blanks_skipBlanks c)
    (within_of_at (Failure.at_afterBlanks g c expected)))

theorem readFactor_within {depth : Nat} {c : Cursor}
    (h : g.readFactor depth c = .error failure) : failure.Within g c.rest := by
  induction depth generalizing c failure with
  | zero =>
    unfold readFactor at h
    dsimp only at h
    split at h
    · next hopen =>
      injection h with h
      subst h
      exact within_behind threads_blanks (blanks_skipBlanks c)
        (within_of_at (Failure.at_misfit g (beginsWith_char (by decide) hopen) _))
    · rcases bind_eq_error.mp h with h | ⟨_, _, h⟩
      · exact readComparison_skipBlanks_within h
      · cases h
  | succ depth ih =>
    unfold readFactor at h
    dsimp only at h
    split at h
    · next c₁ hopen =>
      have hopen : Sign '(' c.rest c₁.rest :=
        (char?_skipBlanks_iff (by decide)).mp ⟨c₁, hopen, rfl⟩
      refine within_behind (threads_sign '(') hopen ?_
      rcases bind_eq_error.mp h with h | ⟨⟨e, c₂⟩, he, h⟩
      · exact readTerms_within readFactor_sound ih h
      · obtain ⟨hderives, hdepth⟩ := readTerms_sound readFactor_sound he
        dsimp only at h
        split at h
        · cases h
        · injection h with h
          exact h ▸ within_behindExpr _ ⟨e, hdepth, hderives⟩
    · rcases bind_eq_error.mp h with h | ⟨_, _, h⟩
      · exact readComparison_skipBlanks_within h
      · cases h

theorem readAll_within {input : List Char} (h : g.readAll input = .error failure) :
    failure.Within g input := by
  rcases bind_eq_error.mp h with h | ⟨⟨e, c⟩, he, h⟩
  · exact readTerms_within readFactor_sound readFactor_within h
  · obtain ⟨hderives, hdepth⟩ := readTerms_sound readFactor_sound he
    dsimp only at h
    split at h
    · cases h
    · injection h with h
      exact h ▸ within_behindExpr _ ⟨e, hdepth, hderives⟩

-- ---------------------------------------------------------------------------
-- The text on both sides
-- ---------------------------------------------------------------------------

/-- An error of a text is a failure that is about a place in it. -/
theorem parse_eq_malformed {text : String} {m : Misfit}
    (h : g.parse text = .error (.malformed m)) :
    ∃ failure, g.readAll text.toList = .error failure ∧ failure.expected = m.expected ∧
      ∀ {pre post}, text.toList = pre ++ post → failure.At g post →
        m.before = pre ∧ m.after = post ∧ Finds m.found post := by
  unfold parse at h
  split at h
  · cases h
  · next failure hfailure =>
    injection h with h
    cases failure with
    | misfit place found expected =>
      refine ⟨_, hfailure, ?_, ?_⟩
      · injection h with h
        exact h ▸ rfl
      · rintro pre post hsplit ⟨hplace, hfinds⟩
        rw [toError_misfit hsplit hplace found expected] at h
        injection h with h
        subst h
        exact ⟨rfl, rfl, hfinds⟩
    | unknownField name => cases h

/-- A text that is not read is split at the place of the error. -/
theorem parse_malformed_split {text : String} {m : Misfit}
    (h : g.parse text = .error (.malformed m)) :
    text.toList = m.before ++ m.after ∧ Finds m.found m.after := by
  obtain ⟨failure, hfailure, -, hplace⟩ := parse_eq_malformed h
  obtain ⟨pre, post, hsplit, hat⟩ := readAll_within hfailure
  obtain ⟨rfl, rfl, hfinds⟩ := hplace hsplit hat
  exact ⟨hsplit, hfinds⟩

/-- What the error lists is offered at its place, or set aside. -/
theorem parse_malformed_stuck (hg : g.HasField) {text : String} {m : Misfit}
    (h : g.parse text = .error (.malformed m)) :
    text.toList = m.before ++ m.after ∧ Finds m.found m.after ∧ ∀ x ∈ m.expected,
      g.Offers (Comp (ExprWithin g maxNesting) Blanks) m.before x ∨ g.Aside x m.before := by
  obtain ⟨failure, hfailure, hexpected, hplace⟩ := parse_eq_malformed h
  obtain ⟨pre, post, hsplit, hat, -, hoffers, -⟩ := readAll_stuck hg hfailure
  obtain ⟨rfl, rfl, hfinds⟩ := hplace hsplit hat
  exact ⟨hsplit, hfinds, hexpected ▸ hoffers⟩

end Grammar

/-- Where a token begins there is a character, and it is no white space. -/
theorem Token.BeginsWith.exists_cons {token cs : List Char} (h : BeginsWith token cs) :
    ∃ x xs, cs = x :: xs ∧ Text.isBlank x = false := by
  obtain ⟨hne, hbare, w, rest, rfl, hsame⟩ := h
  cases w with
  | nil => exact absurd (List.map_eq_nil_iff.mp (eq_of_beq hsame)) hne
  | cons x xs => exact ⟨x, xs ++ rest, rfl, hbare x rfl⟩

/-- No token is found exactly where nothing is left of the text. -/
theorem Token.Finds.eq_none_iff {found : Option (List Char)} {cs : List Char}
    (h : Finds found cs) : found = none ↔ cs = [] := by
  cases found with
  | none => exact ⟨fun _ => h, fun _ => rfl⟩
  | some token =>
    obtain ⟨x, xs, rfl, -⟩ := BeginsWith.exists_cons h
    exact ⟨nofun, nofun⟩

/--
**Well-placed errors.** The offset of an error lies between two characters of the text or at one of
its ends, and the column counts the characters before it. An error says that the text ends too early
exactly if it stands at the end. Otherwise no white space stands at its place, and the text goes on
with the token that the error shows, in one letter case or another.
-/
theorem parse_error_positioned (r : Resource) (text : String) (m : Misfit)
    (h : r.parse text = .error (.malformed m)) :
    String.Pos.Raw.IsValid text ⟨m.offset⟩ ∧ m.offset ≤ text.utf8ByteSize ∧
    (m.found = none ↔ m.offset = text.utf8ByteSize) ∧
    ∃ before after, text = before ++ after ∧ before.toList = m.before ∧ after.toList = m.after ∧
      before.utf8ByteSize = m.offset ∧ m.column = before.length + 1 ∧
      ∀ found, m.found = some found →
        (∃ x cs, after.toList = x :: cs ∧ Text.isBlank x = false) ∧ found ≠ [] ∧
        ∃ shown, shown <+: after.toList ∧ Text.sameIgnoringCase found shown = true := by
  obtain ⟨g, hg, -⟩ := r.exists_grammar
  rw [Resource.parse_eq hg] at h
  obtain ⟨hsplit, hfinds⟩ := Grammar.parse_malformed_split h
  have htext : text = String.ofList m.before ++ String.ofList m.after := by
    rw [← String.ofList_append, ← hsplit, String.ofList_toList]
  have hoffset : (String.ofList m.before).utf8ByteSize = m.offset :=
    Text.utf8ByteSize_ofList m.before
  have hsize : text.utf8ByteSize = m.offset + (String.ofList m.after).utf8ByteSize := by
    rw [← hoffset, ← String.utf8ByteSize_append, ← htext]
  refine ⟨?_, ?_, ?_, String.ofList m.before, String.ofList m.after, htext, String.toList_ofList,
    String.toList_ofList, hoffset, ?_, ?_⟩
  · refine String.Pos.Raw.isValid_iff_exists_append.mpr ⟨_, _, htext, ?_⟩
    rw [← hoffset]
    rfl
  · rw [hsize]
    exact Nat.le_add_right ..
  · rw [hfinds.eq_none_iff, hsize, Nat.left_eq_add, String.utf8ByteSize_eq_zero_iff,
      ← String.ofList_nil, String.ofList_inj]
  · rw [String.length_ofList]
    rfl
  · intro found hfound
    have hbegins : BeginsWith found m.after := by rwa [hfound] at hfinds
    obtain ⟨w, rest, hshown, hsame⟩ := hbegins.shown
    rw [String.toList_ofList]
    exact ⟨hbegins.exists_cons, hbegins.ne_nil, w, ⟨rest, hshown.symm⟩, hsame⟩

/-- A comparator that its field does not admit, in capital letters, behind letters and white space
of more than one byte. -/
theorem parse_error_positioned_capitals :
    ∃ m, Resource.session.parse "session_id = é and\u2003status CONTAINS x" =
        .error (.malformed m) ∧
      m.offset = 29 ∧ m.column = 27 ∧ m.found = some "contains".toList ∧
      String.Pos.Raw.IsValid "session_id = é and\u2003status CONTAINS x" ⟨m.offset⟩ ∧
      ∃ shown, shown <+: m.after ∧ Text.sameIgnoringCase "contains".toList shown = true := by
  obtain ⟨m, hm, hoffset, hcolumn, hfound⟩ : ∃ m,
      Resource.session.parse "session_id = é and\u2003status CONTAINS x" = .error (.malformed m) ∧
      m.offset = 29 ∧ m.column = 27 ∧ m.found = some "contains".toList := ⟨_, rfl, rfl, rfl, rfl⟩
  obtain ⟨hvalid, -, -, before, after, -, -, hafter, -, -, hshown⟩ :=
    parse_error_positioned .session _ m hm
  obtain ⟨-, -, shown, hprefix, hsame⟩ := hshown _ hfound
  exact ⟨m, hm, hoffset, hcolumn, hfound, hvalid, shown, hafter ▸ hprefix, hsame⟩

end ClusterFilter
