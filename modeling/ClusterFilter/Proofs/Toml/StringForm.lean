import ClusterFilter.Proofs.Text.Run
import ClusterFilter.Toml.StringForm

/-!
# ClusterFilter — TOML strings read back

A text that is written as a string is read as the same text, whatever its characters are. The form
is chosen by the text, and each form has its own dangers: escapes in one pair, marks of the text
that could be taken for the end of the string in the other, and a first line feed that reading
leaves out.

Two gaps are bridged:

* **Writing vs reading** — what stands between the delimiters is described without either
  (`Spells`): characters for themselves, escapes, and marks in runs that are shorter than the
  delimiter. Each form writes such a text, and reading resolves it.
* **Marks at the end** — marks of the text in front of the closing delimiter make one long run with
  it. Reading ends at the start of that run and gives the text its part of it (`close?_marks`).

Main results:

* `spells_written` — what is written between delimiters spells the text.
* `body_of_spells` — what spells a text is read as the text.
* `readString?_writeString` — the round trip.
-/

namespace ClusterFilter.Toml

theorem toNat_lt_of_isControl {c : Char} (hc : isControl c = true) : c.toNat < 128 := by
  unfold isControl at hc
  simp only [Bool.or_eq_true, Bool.and_eq_true, decide_eq_true_eq, beq_iff_eq] at hc
  omega

theorem forall_of_any_isControl {cs : List Char} (h : cs.any isControl = false) :
    ∀ c ∈ cs, isControl c = false :=
  fun c hc => Bool.eq_false_iff.mpr (List.any_eq_false.mp h c hc)

/-- Behind a backslash the written characters stand for the character, and none of them is a
control character. -/
structure Escapes (c : Char) (written : List Char) : Prop where
  reads : ∀ rest, takeEscape? (written ++ rest) = some (c, rest)
  shows : ∀ x ∈ written, isControl x = false

namespace StringForm

/-- What is written between delimiters, with `run` marks in front of it, and the text that it
spells. In a row there are fewer marks for themselves than the delimiter has. -/
inductive Spells (f : StringForm) : (run : Nat) → (written text : List Char) → Prop where
  | nil {run : Nat} : Spells f run [] []
  | plain {run : Nat} {c : Char} {written text : List Char} : c ≠ f.mark →
      (f.escaped = true → c ≠ '\\') → (f.long = false → c ≠ '\n') → isControl c = false →
      Spells f 0 written text → Spells f run (c :: written) (c :: text)
  | mark {run : Nat} {written text : List Char} : run + 1 < f.delimiter.length →
      Spells f (run + 1) written text → Spells f run (f.mark :: written) (f.mark :: text)
  | escape {run : Nat} {c : Char} {escape written text : List Char} : f.escaped = true →
      Escapes c escape → Spells f 0 written text →
      Spells f run ('\\' :: (escape ++ written)) (c :: text)

variable {f : StringForm} {run : Nat} {w t : List Char}

-- ---------------------------------------------------------------------------
-- Marks and delimiters
-- ---------------------------------------------------------------------------

theorem delimiter_eq (f : StringForm) :
    f.delimiter = List.replicate f.delimiter.length f.mark := by
  rw [delimiter, List.length_replicate]

theorem length_delimiter (f : StringForm) : f.delimiter.length = if f.long then 3 else 1 := by
  rw [delimiter, List.length_replicate]

theorem delimiter_pos (f : StringForm) : 0 < f.delimiter.length := by
  rw [length_delimiter]
  split <;> decide

theorem delimiter_eq_cons (f : StringForm) : ∃ more, f.delimiter = f.mark :: more := by
  unfold delimiter
  split <;> exact ⟨_, rfl⟩

theorem mark_ne_backslash (f : StringForm) : f.mark ≠ '\\' := by
  unfold mark
  split <;> decide

theorem mark_ne_lineFeed (f : StringForm) : f.mark ≠ '\n' := by
  unfold mark
  split <;> decide

theorem isControl_mark (f : StringForm) : isControl f.mark = false := by
  unfold mark
  split <;> decide

-- ---------------------------------------------------------------------------
-- What is written
-- ---------------------------------------------------------------------------

theorem escapes_letter {c letter : Char}
    (hreads : ∀ rest, takeEscape? (letter :: rest) = some (c, rest))
    (hshows : isControl letter = false) : Escapes c [letter] :=
  ⟨hreads, List.forall_mem_singleton.mpr hshows⟩

theorem escapes_short : ∀ e ∈ shortEscapes, Escapes e.2 [e.1] := by
  unfold shortEscapes
  simp only [List.forall_mem_cons, List.not_mem_nil, false_imp_iff, implies_true, and_true]
  exact ⟨escapes_letter (fun _ => rfl) rfl, escapes_letter (fun _ => rfl) rfl,
    escapes_letter (fun _ => rfl) rfl, escapes_letter (fun _ => rfl) rfl,
    escapes_letter (fun _ => rfl) rfl, escapes_letter (fun _ => rfl) rfl,
    escapes_letter (fun _ => rfl) rfl⟩

theorem escapes_unicode {c : Char} (hc : isControl c = true) :
    Escapes c ('u' :: Text.upperHex 4 c.toNat) := by
  have hdigits : ∀ n < 128, (Text.upperHex 4 n).length = 4 ∧
      hexChar? (Text.upperHex 4 n) = some (Char.ofNat n) ∧
      (Text.upperHex 4 n).any isControl = false := by
    decide +kernel
  obtain ⟨hlength, hchar, hshows⟩ := hdigits _ (toNat_lt_of_isControl hc)
  refine ⟨fun rest => ?_, List.forall_mem_cons.mpr ⟨by decide, forall_of_any_isControl hshows⟩⟩
  rw [List.cons_append, takeEscape?, List.length_append, hlength, if_pos (Nat.le_add_right ..),
    List.take_left' hlength, List.drop_left' hlength, hchar, Char.ofNat_toNat]
  rfl

/-- A character between quotation marks stands for itself or is escaped. -/
theorem spells_writeChar (hf : f.escaped = true) {c : Char} (hc : c ≠ '\x22')
    (h : Spells f 0 w t) : Spells f run (f.writeChar c ++ w) (c :: t) := by
  have hmark : c ≠ f.mark := by rwa [mark, if_pos hf]
  have hshort : ∀ letter, (letter, c) ∈ shortEscapes →
      Spells f run (['\\', letter] ++ w) (c :: t) :=
    fun letter hletter => .escape hf (escapes_short _ hletter) h
  unfold writeChar
  split
  · next hb => exact hshort 'b' (hb ▸ by decide)
  · split
    · next ht => exact hshort 't' (ht ▸ by decide)
    · split
      · next hn =>
        subst hn
        split
        · next hlong =>
          have hlines : f.long = false → '\n' ≠ '\n' :=
            fun hfalse => absurd (hlong.symm.trans hfalse) nofun
          exact .plain hmark (fun _ => by decide) hlines (by decide) h
        · exact hshort 'n' (by decide)
      · next hn =>
        split
        · next hff => exact hshort 'f' (hff ▸ by decide)
        · split
          · next hr => exact hshort 'r' (hr ▸ by decide)
          · split
            · next hs =>
              subst hs
              exact hshort '\\' (by decide)
            · next hs =>
              split
              · next hcontrol => exact .escape hf (escapes_unicode hcontrol) h
              · next hcontrol =>
                exact .plain hmark (fun _ => hs) (fun _ => hn) (Bool.eq_false_iff.mpr hcontrol) h

theorem spells_writeEscaped (hf : f.escaped = true) (run : Nat) (cs : List Char) :
    Spells f run (f.writeEscaped run cs) cs := by
  have hmark : f.mark = '\x22' := by rw [mark, if_pos hf]
  induction cs generalizing run with
  | nil => exact .nil
  | cons c cs ih =>
    unfold writeEscaped
    split
    · next hc =>
      subst hc
      split
      · next hraw =>
        rw [Bool.and_eq_true, decide_eq_true_iff] at hraw
        have hrun : run + 1 < f.delimiter.length := by
          rw [length_delimiter, if_pos hraw.1]
          omega
        have h := Spells.mark hrun (ih (run + 1))
        rwa [hmark] at h
      · exact .escape hf (escapes_short ('\x22', '\x22') (by decide)) (ih 0)
    · next hc => exact spells_writeChar hf hc (ih 0)

theorem le_longestRun (mark : Char) (run : Nat) (cs : List Char) :
    run ≤ longestRun mark run cs := by
  induction cs generalizing run with
  | nil => exact Nat.le_refl run
  | cons c cs ih =>
    unfold longestRun
    split
    · exact Nat.le_of_succ_le (ih (run + 1))
    · exact Nat.le_max_left ..

/-- A text with short runs of marks and without control characters spells itself. -/
theorem spells_self (hf : f.escaped = false) {cs : List Char}
    (hrun : longestRun f.mark run cs < f.delimiter.length)
    (hshows : ∀ c ∈ cs, isControl c = false) (hlines : f.long = false → '\n' ∉ cs) :
    Spells f run cs cs := by
  induction cs generalizing run with
  | nil => exact .nil
  | cons c cs ih =>
    obtain ⟨hc, hcs⟩ := List.forall_mem_cons.mp hshows
    have hlines' : f.long = false → c ≠ '\n' ∧ '\n' ∉ cs := by
      intro hshort
      obtain ⟨hne, hmem⟩ := not_or.mp (List.mem_cons.not.mp (hlines hshort))
      exact ⟨fun h => hne h.symm, hmem⟩
    unfold longestRun at hrun
    split at hrun
    · next hmark =>
      subst hmark
      exact .mark (Nat.lt_of_le_of_lt (le_longestRun ..) hrun)
        (ih hrun hcs fun hshort => (hlines' hshort).2)
    · next hmark =>
      refine .plain hmark (fun h => ?_) (fun hshort => (hlines' hshort).1) hc
        (ih (Nat.lt_of_le_of_lt (Nat.le_max_right ..) hrun) hcs fun hshort => (hlines' hshort).2)
      rw [hf] at h
      cases h

/-- Where a text is written as it is, nothing in it needs an escape. -/
theorem best_of_raw {cs : List Char} (h : (best cs).escaped = false) :
    longestRun (best cs).mark 0 cs < (best cs).delimiter.length ∧
      (∀ c ∈ cs, isControl c = false) ∧ ((best cs).long = false → '\n' ∉ cs) := by
  have hshows : cs.any isControl = false → ∀ c ∈ cs, isControl c = false :=
    forall_of_any_isControl
  unfold best at h ⊢
  dsimp only at h ⊢
  split at h
  · cases h
  · next hbasic =>
    rw [if_neg hbasic]
    split at h
    · next hliteral =>
      rw [if_pos hliteral]
      simp only [Bool.and_eq_true, Bool.not_eq_true', beq_iff_eq] at hliteral
      obtain ⟨⟨hcontrols, hlines⟩, hmarks⟩ := hliteral
      refine ⟨Nat.lt_of_le_of_lt (Nat.le_of_eq hmarks) Nat.one_pos, hshows hcontrols, fun _ => ?_⟩
      simpa using hlines
    · next hliteral =>
      rw [if_neg hliteral]
      split at h
      · cases h
      · next hlong =>
        rw [if_neg hlong]
        split at h
        · next hraw =>
          rw [if_pos hraw]
          simp only [Bool.and_eq_true, Bool.not_eq_true', decide_eq_true_eq] at hraw
          exact ⟨Nat.lt_succ_of_le hraw.2, hshows hraw.1, nofun⟩
        · cases h

/-- What the best form writes between its delimiters. -/
def written (cs : List Char) : List Char :=
  if (best cs).escaped then (best cs).writeEscaped 0 cs else cs

theorem spells_written (cs : List Char) : (best cs).Spells 0 (written cs) cs := by
  unfold written
  split
  · next hf => exact spells_writeEscaped hf 0 cs
  · next hf =>
    have hf := Bool.eq_false_iff.mpr hf
    obtain ⟨hrun, hshows, hlines⟩ := best_of_raw hf
    exact spells_self hf hrun hshows hlines

-- ---------------------------------------------------------------------------
-- What is read
-- ---------------------------------------------------------------------------

/-- Too few marks make no delimiter. -/
theorem not_isPrefixOf_delimiter {k : Nat} (hk : k < f.delimiter.length) {rest : List Char}
    (hrest : ∀ x ∈ rest.head?, x ≠ f.mark) :
    ¬ f.delimiter.isPrefixOf (List.replicate k f.mark ++ rest) = true := by
  intro hprefix
  obtain ⟨more, hmore⟩ := List.isPrefixOf_iff_prefix.mp hprefix
  obtain ⟨n, hn⟩ := Nat.exists_eq_add_of_lt hk
  rw [delimiter_eq, hn, Nat.add_assoc, ← List.replicate_append_replicate, List.append_assoc,
    List.append_cancel_left_eq, List.replicate_succ, List.cons_append] at hmore
  exact hrest f.mark (by rw [← hmore, List.head?_cons]; rfl) rfl

/-- A string does not end where another character stands behind too few marks. -/
theorem close?_eq_none {k : Nat} (hk : k < f.delimiter.length) {x : Char} (hx : x ≠ f.mark)
    (cs : List Char) : f.close? (List.replicate k f.mark ++ x :: cs) = none :=
  if_neg (not_isPrefixOf_delimiter hk (Text.forall_mem_head?_cons hx))

/-- A string ends with a delimiter. Marks in front of it belong to the text. -/
theorem close?_marks {k : Nat} (hk : k < f.delimiter.length) {rest : List Char}
    (hrest : ∀ x ∈ rest.head?, x ≠ f.mark) :
    f.close? (List.replicate k f.mark ++ (f.delimiter ++ rest)) =
      some (List.replicate k f.mark, rest) := by
  have hswap : List.replicate k f.mark ++ (f.delimiter ++ rest) =
      f.delimiter ++ (List.replicate k f.mark ++ rest) := by
    rw [delimiter_eq, ← List.append_assoc, ← List.append_assoc, List.replicate_append_replicate,
      List.replicate_append_replicate, Nat.add_comm]
  have hextra : (if f.long then ((List.replicate k f.mark ++ rest).take 2).takeWhile
      (· == f.mark) else []) = List.replicate k f.mark := by
    rw [length_delimiter] at hk
    split at hk
    · next hlong =>
      have hhead : ∀ x ∈ (rest.take (2 - k)).head?, (x == f.mark) = false := by
        intro x hx
        rw [List.head?_take] at hx
        split at hx
        · cases hx
        · exact beq_eq_false_iff_ne.mpr (hrest x hx)
      have hmarks : ∀ x ∈ List.replicate k f.mark, (x == f.mark) = true :=
        fun x hx => beq_iff_eq.mpr (List.eq_of_mem_replicate hx)
      rw [if_pos hlong, List.take_append, List.length_replicate, List.take_of_length_le
        (by rw [List.length_replicate]; omega), (Text.takeWhile_append_of_head hmarks hhead).1]
    · next hshort =>
      rw [if_neg hshort, Nat.lt_one_iff.mp hk]
      rfl
  unfold close?
  rw [hswap, if_pos (List.isPrefixOf_iff_prefix.mpr ⟨_, rfl⟩), List.drop_left]
  dsimp only
  rw [hextra, List.drop_left]

/-- What spells a text behind a run of marks goes on with marks only, or has another character
behind too few of them. -/
theorem Spells.marks (h : Spells f run w t) (hrun : run < f.delimiter.length) :
    ∃ k, run + k < f.delimiter.length ∧
      ((w = List.replicate k f.mark ∧ t = List.replicate k f.mark) ∨
        ∃ x more, x ≠ f.mark ∧ w = List.replicate k f.mark ++ x :: more) := by
  induction h with
  | nil => exact ⟨0, hrun, .inl ⟨rfl, rfl⟩⟩
  | plain hc _ _ _ _ _ => exact ⟨0, hrun, .inr ⟨_, _, hc, rfl⟩⟩
  | escape _ _ _ _ => exact ⟨0, hrun, .inr ⟨_, _, f.mark_ne_backslash.symm, rfl⟩⟩
  | mark hnext _ ih =>
    obtain ⟨k, hk, ⟨rfl, rfl⟩ | ⟨x, more, hx, rfl⟩⟩ := ih hnext
    · exact ⟨k + 1, by omega, .inl ⟨rfl, rfl⟩⟩
    · exact ⟨k + 1, by omega, .inr ⟨x, more, hx, rfl⟩⟩

theorem body_of_close {cs : List Char} {result : List Char × List Char}
    (h : f.close? cs = some result) : f.body cs = some result := by
  rw [body.eq_def, h]

theorem body_of_char {c : Char} {cs : List Char} (hclose : f.close? (c :: cs) = none)
    (hescape : f.escaped = true → c ≠ '\\') (hline : f.long = false → c ≠ '\n') :
    f.body (c :: cs) = (f.body cs).map fun (text, after) => (c :: text, after) := by
  have hescape : ¬ (f.escaped && c == '\\') = true := by
    rw [Bool.and_eq_true, beq_iff_eq]
    exact fun h => hescape h.1 h.2
  have hline : ¬ (c == '\n' && !f.long) = true := by
    rw [Bool.and_eq_true, beq_iff_eq, Bool.not_eq_true']
    exact fun h => hline h.2 h.1
  rw [body.eq_def, hclose]
  dsimp only
  rw [if_neg hescape, if_neg hline]

theorem body_of_escape {c : Char} {cs rest : List Char} (hf : f.escaped = true)
    (hread : takeEscape? cs = some (c, rest)) :
    f.body ('\\' :: cs) = (f.body rest).map fun (text, after) => (c :: text, after) := by
  have hclose : f.close? ('\\' :: cs) = none :=
    close?_eq_none (k := 0) f.delimiter_pos f.mark_ne_backslash.symm cs
  rw [body.eq_def, hclose]
  dsimp only
  rw [if_pos (by rw [hf]; rfl)]
  split
  · next e after h =>
    rw [hread] at h
    injection h with h
    injection h with he hafter
    rw [he, hafter]
  · next h =>
    rw [hread] at h
    cases h

/-- What spells a text is read as the text. -/
theorem body_of_spells (h : Spells f run w t) (hrun : run < f.delimiter.length) {rest : List Char}
    (hrest : ∀ x ∈ rest.head?, x ≠ f.mark) :
    f.body (w ++ (f.delimiter ++ rest)) = some (t, rest) := by
  have hpos := f.delimiter_pos
  induction h with
  | nil => exact body_of_close (close?_marks hpos hrest)
  | plain hc hescape hline _ _ ih =>
    rw [List.cons_append, body_of_char (close?_eq_none hpos hc _) hescape hline, ih hpos]
    rfl
  | escape hf hescape _ ih =>
    rw [List.cons_append, List.append_assoc, body_of_escape hf (hescape.reads _), ih hpos]
    rfl
  | @mark run w t hnext hspells ih =>
    -- The marks from here on are in front of the delimiter, or something else follows them.
    obtain ⟨k, hk, ⟨hw, ht⟩ | ⟨x, more, hx, hw⟩⟩ := (Spells.mark hnext hspells).marks hrun
    · rw [hw, ht]
      exact body_of_close (close?_marks (by omega) hrest)
    · have hclose : f.close? (f.mark :: w ++ (f.delimiter ++ rest)) = none := by
        rw [hw, List.append_assoc, List.cons_append]
        exact close?_eq_none (by omega) hx _
      rw [List.cons_append] at hclose ⊢
      rw [body_of_char hclose (fun _ => f.mark_ne_backslash) (fun _ => f.mark_ne_lineFeed),
        ih hnext]
      rfl

-- ---------------------------------------------------------------------------
-- Whole strings
-- ---------------------------------------------------------------------------

/-- What spells a text begins with a line feed only if the text does. -/
theorem Spells.head_ne_lineFeed (h : Spells f run w t) (ht : '\n' ∉ t) :
    ∀ x ∈ w.head?, x ≠ '\n' := by
  cases h with
  | nil => exact nofun
  | plain =>
    refine Text.forall_mem_head?_cons ?_
    rintro rfl
    exact ht (List.mem_cons_self ..)
  | mark => exact Text.forall_mem_head?_cons f.mark_ne_lineFeed
  | escape => exact Text.forall_mem_head?_cons (by decide)

theorem Spells.shows (h : Spells f run w t) : ∀ x ∈ w, isControl x = false := by
  induction h with
  | nil => exact nofun
  | plain _ _ _ hc _ ih => exact List.forall_mem_cons.mpr ⟨hc, ih⟩
  | mark _ _ ih => exact List.forall_mem_cons.mpr ⟨f.isControl_mark, ih⟩
  | escape _ hescape _ ih =>
    exact List.forall_mem_cons.mpr ⟨by decide, List.forall_mem_append.mpr ⟨hescape.shows, ih⟩⟩

/-- One mark opens a short string where no two more marks follow. -/
theorem opening?_of_short (hf : f.long = false) {k : Nat} (hk : k < 2) {rest : List Char}
    (hrest : ∀ x ∈ rest.head?, x ≠ f.mark) :
    opening? (f.delimiter ++ (List.replicate k f.mark ++ rest)) = some f := by
  obtain ⟨escaped, long⟩ := f
  subst hf
  have hlong : (⟨escaped, true⟩ : StringForm).delimiter.isPrefixOf
      ((⟨escaped, false⟩ : StringForm).delimiter ++
        (List.replicate k (⟨escaped, false⟩ : StringForm).mark ++ rest)) = false :=
    Bool.eq_false_iff.mpr (not_isPrefixOf_delimiter (f := ⟨escaped, true⟩) (k := k + 1)
      (by rw [length_delimiter]; exact Nat.succ_lt_succ hk) hrest)
  cases escaped with
  | true =>
    have hother : (⟨false, true⟩ : StringForm).delimiter.isPrefixOf
      ((⟨true, false⟩ : StringForm).delimiter ++
        (List.replicate k (⟨true, false⟩ : StringForm).mark ++ rest)) = false := rfl
    rw [opening?, List.find?_cons, hlong, List.find?_cons, hother]
    rfl
  | false =>
    have hother : ∀ long, (⟨true, long⟩ : StringForm).delimiter.isPrefixOf
      ((⟨false, false⟩ : StringForm).delimiter ++
        (List.replicate k (⟨false, false⟩ : StringForm).mark ++ rest)) = false := by
      intro long
      cases long <;> rfl
    rw [opening?, List.find?_cons, hother, List.find?_cons, hlong, List.find?_cons, hother]
    rfl

theorem opening?_of_long (hf : f.long = true) (rest : List Char) :
    opening? (f.delimiter ++ rest) = some f := by
  obtain ⟨escaped, long⟩ := f
  subst hf
  cases escaped <;> rfl

/-- A short string opens with one mark, whatever its text is. -/
theorem opening?_of_spells (hf : f.long = false) (h : Spells f 0 w t) {rest : List Char}
    (hrest : ∀ x ∈ rest.head?, x ≠ f.mark) :
    opening? (f.delimiter ++ (w ++ (f.delimiter ++ rest))) = some f := by
  have hone : f.delimiter = [f.mark] := by rw [delimiter, hf]; rfl
  obtain ⟨k, hk, ⟨rfl, -⟩ | ⟨x, more, hx, rfl⟩⟩ := h.marks f.delimiter_pos
  · rw [hone, List.length_singleton] at hk
    obtain rfl : k = 0 := by omega
    have h := opening?_of_short hf (k := 1) (by decide) hrest
    rwa [hone] at h ⊢
  · rw [hone, List.length_singleton] at hk
    obtain rfl : k = 0 := by omega
    exact opening?_of_short hf (k := 0) (by decide) (Text.forall_mem_head?_cons hx)

end StringForm

open StringForm

/-- The text of a string is read back, and what follows the string is left. -/
theorem readString?_writeString (cs : List Char) {rest : List Char}
    (hrest : ∀ x ∈ rest.head?, x ≠ '\x22' ∧ x ≠ '\x27') :
    readString? (writeString cs ++ rest) = some (cs, rest) := by
  have hspells := spells_written cs
  have hmark : ∀ x ∈ rest.head?, x ≠ (best cs).mark := by
    intro x hx
    unfold mark
    split
    · exact (hrest x hx).1
    · exact (hrest x hx).2
  have hbody := body_of_spells hspells (best cs).delimiter_pos hmark
  have hwrite : writeString cs ++ rest = (best cs).delimiter ++
      ((if (best cs).long && cs.contains '\n' then ['\n'] else []) ++
        (written cs ++ ((best cs).delimiter ++ rest))) := by
    rw [writeString, write, written]
    simp only [List.append_assoc]
  unfold readString?
  rw [hwrite]
  cases hlong : (best cs).long with
  | false =>
    rw [Bool.false_and, if_neg Bool.false_ne_true, List.nil_append,
      opening?_of_spells hlong hspells hmark]
    show (best cs).body _ = _
    rw [hlong, Bool.false_and, if_neg Bool.false_ne_true, List.drop_left, hbody]
  | true =>
    rw [Bool.true_and, opening?_of_long hlong]
    show (best cs).body _ = _
    rw [hlong, Bool.true_and, List.drop_left]
    by_cases hline : '\n' ∈ cs
    · rw [if_pos (List.contains_iff_mem.mpr hline)]
      exact hbody
    · rw [if_neg (fun h => hline (List.contains_iff_mem.mp h)), List.nil_append, if_neg, hbody]
      have hhead : ∀ x ∈ (written cs ++ ((best cs).delimiter ++ rest)).head?, x ≠ '\n' := by
        cases hw : written cs with
        | nil =>
          rw [delimiter, hlong]
          exact Text.forall_mem_head?_cons (mark_ne_lineFeed _)
        | cons c w =>
          rw [hw] at hspells
          exact hspells.head_ne_lineFeed hline
      rw [beq_iff_eq]
      exact fun h => hhead _ h rfl

/-- A string has no control characters, whatever its text is. -/
theorem shows_writeString (cs : List Char) : ∀ x ∈ writeString cs, isControl x = false := by
  have hdelimiter : ∀ x ∈ (best cs).delimiter, isControl x = false := by
    intro x hx
    rw [List.eq_of_mem_replicate hx, isControl_mark]
  have hline : ∀ x ∈ (if (best cs).long && cs.contains '\n' then ['\n'] else []),
      isControl x = false := by
    split
    · exact List.forall_mem_singleton.mpr (by decide)
    · exact nofun
  unfold writeString write
  rw [← written]
  simp only [List.forall_mem_append]
  exact ⟨⟨⟨hdelimiter, hline⟩, (spells_written cs).shows⟩, hdelimiter⟩

end ClusterFilter.Toml
