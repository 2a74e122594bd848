import Mathlib
import ClusterFilter.Expression.Cursor
import ClusterFilter.Proofs.Text.Run

/-!
# ClusterFilter — the tokens of expressions

What a token is, said of texts: each token is a relation between a text that begins with the token
and the text that follows it. Runs are as long as they can be, keywords end where no word goes on,
and of the signs the longest one counts. None of the relations mentions a cursor.

Against them stand the methods of cursors. A method recognizes a token if it gives exactly what
the relation admits (`Recognizes`); since each token has one reading at most, nothing else is left
to say about the method. Offsets play no part here.

Main results:

* `identifier?_recognizes`, `comparator?_recognizes`, `bare?_recognizes`, `key?_recognizes`,
  `quoted?_recognizes` — the methods of cursors take the tokens that their names say.
* `keyword?_eq_some_iff`, `char?_eq_some_iff` — the same for keywords and single characters.
* `skipBlanks_eq_of_blanks` — white space in front of a token is passed over in one way only.
-/

namespace ClusterFilter.Token

-- ---------------------------------------------------------------------------
-- Tokens as relations
-- ---------------------------------------------------------------------------

/-- White space, or nothing, stands between the text and its rest. -/
def Blanks (cs rest : List Char) : Prop :=
  ∃ gap, cs = gap ++ rest ∧ ∀ x ∈ gap, Text.isBlank x = true

/-- The text begins with the word, which is the longest run of characters with the property and
not empty. -/
structure Run (p : Char → Bool) (word cs rest : List Char) : Prop where
  split : cs = word ++ rest
  ne_nil : word ≠ []
  all : ∀ x ∈ word, p x = true
  longest : ∀ x ∈ rest.head?, p x = false

/-- The text begins with the name: a run of word characters whose first one is no digit. -/
structure Identifier (name cs rest : List Char) : Prop where
  run : Run Text.isWordChar name cs rest
  head : ∀ x ∈ name.head?, x.isAlpha = true ∨ x = '_'

/-- The text begins with the keyword in any letter case, and no word character follows. -/
def Keyword (word : String) (cs rest : List Char) : Prop :=
  ∃ w, cs = w ++ rest ∧ Text.sameIgnoringCase w word.toList = true ∧ Text.endsWord rest = true

/-- The text begins with the operator: the longest sign that fits, or a word. -/
inductive Comparator (op : Operator) (cs rest : List Char) : Prop where
  | sign : op ∈ Operator.signs → cs = op.symbol.toList ++ rest →
      (∀ op' ∈ Operator.signs, op'.symbol.toList <+: cs →
        op'.symbol.toList.length ≤ op.symbol.toList.length) → Comparator op cs rest
  | word : op ∉ Operator.signs → Keyword op.symbol cs rest → Comparator op cs rest

/-- What stands between quotes spells the text: a backslash makes the next character stand for
itself, and the quote needs one. -/
inductive QuotedBody (quote : Char) : (body text : List Char) → Prop where
  | nil : QuotedBody quote [] []
  | plain {c : Char} {body text : List Char} : c ≠ quote → c ≠ '\\' →
      QuotedBody quote body text → QuotedBody quote (c :: body) (c :: text)
  | escaped {c : Char} {body text : List Char} :
      QuotedBody quote body text → QuotedBody quote ('\\' :: c :: body) (c :: text)

/-- The text begins with an opening quote, a spelling of `text` and the same quote again. -/
def Quoted (text cs rest : List Char) : Prop :=
  ∃ quote body, (quote = '\x27' ∨ quote = '\x22') ∧ cs = quote :: (body ++ quote :: rest) ∧
    QuotedBody quote body text

-- ---------------------------------------------------------------------------
-- Runs
-- ---------------------------------------------------------------------------

/-- The longest run is what `takeWhile` takes, and `dropWhile` leaves its rest. -/
theorem run_iff {p : Char → Bool} {word cs rest : List Char} :
    Run p word cs rest ↔ cs.takeWhile p = word ∧ cs.dropWhile p = rest ∧ word ≠ [] := by
  constructor
  · rintro ⟨rfl, hne, hall, hlongest⟩
    obtain ⟨htake, hdrop⟩ := Text.takeWhile_append_of_head hall hlongest
    exact ⟨htake, hdrop, hne⟩
  · rintro ⟨rfl, rfl, hne⟩
    exact ⟨List.takeWhile_append_dropWhile.symm, hne, fun _ => List.mem_takeWhile_imp,
      Text.head?_dropWhile_eq_false⟩

-- ---------------------------------------------------------------------------
-- White space
-- ---------------------------------------------------------------------------

/-- The text does not begin with white space. -/
def StartsBare (cs : List Char) : Prop :=
  ∀ x ∈ cs.head?, Text.isBlank x = false

theorem startsBare_nil : StartsBare [] :=
  nofun

theorem startsBare_cons {x : Char} {cs : List Char} (h : Text.isBlank x = false) :
    StartsBare (x :: cs) :=
  Text.forall_mem_head?_cons h

theorem Blanks.refl (cs : List Char) : Blanks cs cs :=
  ⟨[], rfl, nofun⟩

theorem Blanks.trans {a b c : List Char} (h : Blanks a b) (h' : Blanks b c) : Blanks a c := by
  obtain ⟨gap, rfl, hgap⟩ := h
  obtain ⟨gap', rfl, hgap'⟩ := h'
  exact ⟨gap ++ gap', (List.append_assoc ..).symm, List.forall_mem_append.mpr ⟨hgap, hgap'⟩⟩

theorem blanks_space (cs : List Char) : Blanks (' ' :: cs) cs := by
  refine ⟨[' '], rfl, fun x hx => ?_⟩
  rw [List.mem_singleton.mp hx]
  decide

theorem blanks_dropBlanks (cs : List Char) : Blanks cs (Text.dropBlanks cs) :=
  ⟨cs.takeWhile Text.isBlank, List.takeWhile_append_dropWhile.symm,
    fun _ => List.mem_takeWhile_imp⟩

/-- White space leads to one text only that does not begin with white space. -/
theorem Blanks.dropBlanks_eq {cs rest : List Char} (h : Blanks cs rest) (hr : StartsBare rest) :
    Text.dropBlanks cs = rest := by
  obtain ⟨gap, rfl, hgap⟩ := h
  exact (Text.takeWhile_append_of_head hgap hr).2

-- ---------------------------------------------------------------------------
-- How tokens begin
-- ---------------------------------------------------------------------------

/-- No visible ASCII character is white space. -/
theorem isBlank_eq_false_of_ascii {x : Char} (hmin : 33 ≤ x.toNat) (hmax : x.toNat < 128) :
    Text.isBlank x = false := by
  unfold Text.isBlank
  simp only [Bool.or_eq_false_iff, Bool.and_eq_false_iff, decide_eq_false_iff_not,
    beq_eq_false_iff_ne, ne_eq]
  omega

theorem isBlank_eq_false_of_isWordChar {x : Char} (h : Text.isWordChar x = true) :
    Text.isBlank x = false := by
  have hrange : 33 ≤ x.toNat ∧ x.toNat < 128 := by
    have hval : x.toNat = x.val.toNat := rfl
    simp only [Text.isWordChar, Char.isAlphanum, Char.isAlpha, Char.isUpper, Char.isLower,
      Char.isDigit, Bool.or_eq_true, Bool.and_eq_true, decide_eq_true_eq, beq_iff_eq,
      UInt32.le_iff_toNat_le] at h
    rcases h with ((h | h) | h) | rfl
    · simp at h
      omega
    · simp at h
      omega
    · simp at h
      omega
    · decide
  exact isBlank_eq_false_of_ascii hrange.1 hrange.2

theorem isBlank_eq_false_of_isAlpha {x : Char} (h : x.isAlpha = true) : Text.isBlank x = false := by
  apply isBlank_eq_false_of_isWordChar
  rw [Text.isWordChar, Char.isAlphanum, h, Bool.true_or, Bool.true_or]

theorem isBlank_eq_false_of_isBareChar {x : Char} (h : Text.isBareChar x = true) :
    Text.isBlank x = false := by
  unfold Text.isBareChar Text.isDelimiter at h
  cases hx : Text.isBlank x with
  | false => rfl
  | true => simp [hx] at h

theorem isBlank_eq_false_of_isKeyChar {x : Char} (h : Text.isKeyChar x = true) :
    Text.isBlank x = false := by
  rw [Text.isKeyChar, Bool.and_eq_true] at h
  exact isBlank_eq_false_of_isBareChar h.1

theorem beq_eq_false_of_isWordChar {x y : Char} (h : Text.isWordChar x = true)
    (hy : Text.isWordChar y = false) : (x == y) = false := by
  rw [beq_eq_false_iff_ne]
  rintro rfl
  rw [h] at hy
  cases hy

theorem isBareChar_of_isWordChar {x : Char} (h : Text.isWordChar x = true) :
    Text.isBareChar x = true := by
  have hne : ∀ {y : Char}, Text.isWordChar y = false → (x == y) = false :=
    beq_eq_false_of_isWordChar h
  rw [Text.isBareChar, Text.isDelimiter, isBlank_eq_false_of_isWordChar h, hne (by decide),
    hne (by decide), hne (by decide), hne (by decide)]
  rfl

theorem isKeyChar_of_isWordChar {x : Char} (h : Text.isWordChar x = true) :
    Text.isKeyChar x = true := by
  have hne : ∀ {y : Char}, Text.isWordChar y = false → (x == y) = false :=
    beq_eq_false_of_isWordChar h
  rw [Text.isKeyChar, isBareChar_of_isWordChar h, hne (by decide), hne (by decide),
    hne (by decide), hne (by decide), hne (by decide), hne (by decide)]
  rfl

/-- A run of characters that are no white space does not begin with white space. -/
theorem Run.startsBare {p : Char → Bool} (hp : ∀ {x}, p x = true → Text.isBlank x = false)
    {word cs rest : List Char} (h : Run p word cs rest) : StartsBare cs := by
  obtain ⟨x, xs, rfl⟩ := List.exists_cons_of_ne_nil h.ne_nil
  rw [h.split, List.cons_append]
  exact startsBare_cons (hp (h.all x (List.mem_cons_self ..)))

/-- A run does not begin with a character that does not have the property. -/
theorem Run.head?_ne {p : Char → Bool} {x : Char} (hx : p x = false) {word cs rest : List Char}
    (h : Run p word cs rest) : cs.head? ≠ some x := by
  obtain ⟨y, ys, rfl⟩ := List.exists_cons_of_ne_nil h.ne_nil
  have hy := h.all y (List.mem_cons_self ..)
  rw [h.split, List.cons_append, List.head?_cons]
  intro hyx
  rw [Option.some.inj hyx, hx] at hy
  cases hy

theorem Identifier.startsBare {name cs rest : List Char} (h : Identifier name cs rest) :
    StartsBare cs :=
  h.run.startsBare isBlank_eq_false_of_isWordChar

theorem Quoted.startsBare {text cs rest : List Char} (h : Quoted text cs rest) :
    StartsBare cs := by
  obtain ⟨quote, body, hquote, rfl, -⟩ := h
  rcases hquote with rfl | rfl
  · exact startsBare_cons (by decide)
  · exact startsBare_cons (by decide)

/-- A text that differs from letters at most in their case consists of letters. -/
theorem isAlpha_of_sameIgnoringCase {w word : List Char}
    (h : Text.sameIgnoringCase w word = true) (hword : word.all Char.isAlpha = true) :
    ∀ x ∈ w, x.isAlpha = true := by
  intro x hx
  have hmap : w.map Char.toLower = word.map Char.toLower := eq_of_beq h
  have hmem : x.toLower ∈ word.map Char.toLower := hmap ▸ List.mem_map_of_mem hx
  obtain ⟨y, hy, hxy⟩ := List.mem_map.mp hmem
  rw [← Char.isAlpha_toLower_eq_isAlpha, ← hxy, Char.isAlpha_toLower_eq_isAlpha]
  exact List.all_eq_true.mp hword y hy

/-- A text that begins with a keyword begins with the first letter of the keyword. -/
theorem Keyword.head_eq {word : String} {y : Char} {ys : List Char} (hword : word.toList = y :: ys)
    {cs rest : List Char} (h : Keyword word cs rest) :
    ∃ x xs, cs = x :: xs ∧ x.toLower = y.toLower := by
  obtain ⟨w, rfl, hw, -⟩ := h
  have hmap : w.map Char.toLower = (y :: ys).map Char.toLower := hword ▸ eq_of_beq hw
  cases w with
  | nil => cases hmap
  | cons x w =>
    injection hmap with hx
    exact ⟨x, w ++ rest, rfl, hx⟩

/-- A text that begins with a keyword made of letters begins with a letter. -/
theorem Keyword.isAlpha_head {word : String} (hne : word.toList ≠ [])
    (hword : word.toList.all Char.isAlpha = true) {cs rest : List Char}
    (h : Keyword word cs rest) : ∃ x xs, cs = x :: xs ∧ x.isAlpha = true := by
  obtain ⟨y, ys, hy⟩ := List.exists_cons_of_ne_nil hne
  obtain ⟨x, xs, rfl, hx⟩ := h.head_eq hy
  refine ⟨x, xs, rfl, ?_⟩
  rw [← Char.isAlpha_toLower_eq_isAlpha, hx, Char.isAlpha_toLower_eq_isAlpha]
  exact List.all_eq_true.mp hword y (hy ▸ List.mem_cons_self ..)

theorem Keyword.startsBare {word : String} (hne : word.toList ≠ [])
    (hword : word.toList.all Char.isAlpha = true) {cs rest : List Char}
    (h : Keyword word cs rest) : StartsBare cs := by
  obtain ⟨x, xs, rfl, hx⟩ := h.isAlpha_head hne hword
  exact startsBare_cons (isBlank_eq_false_of_isAlpha hx)

/-- An operator that is no sign is written in letters. -/
theorem isAlpha_symbol {op : Operator} (hop : op ∉ Operator.signs) :
    op.symbol.toList.all Char.isAlpha = true := by
  revert hop
  cases op <;> decide

theorem ne_nil_of_sameIgnoringCase {w word : List Char} (h : Text.sameIgnoringCase w word = true)
    (hne : word ≠ []) : w ≠ [] := by
  rintro rfl
  exact hne (List.map_eq_nil_iff.mp (eq_of_beq h).symm)

theorem symbol_ne_nil (op : Operator) : op.symbol.toList ≠ [] := by
  cases op <;> decide

theorem Comparator.startsBare {op : Operator} {cs rest : List Char} (h : Comparator op cs rest) :
    StartsBare cs := by
  cases h with
  | sign hop hsplit _ =>
    have hsign : ∀ op ∈ Operator.signs, ∃ x xs, op.symbol.toList = x :: xs ∧
        Text.isBlank x = false := by
      intro op _
      cases op <;> exact ⟨_, _, rfl, by decide⟩
    obtain ⟨x, xs, hx, hblank⟩ := hsign op hop
    rw [hsplit, hx]
    exact startsBare_cons hblank
  | word hop hkey => exact hkey.startsBare (symbol_ne_nil op) (isAlpha_symbol hop)

-- ---------------------------------------------------------------------------
-- What is written
-- ---------------------------------------------------------------------------

/-- An escaped text spells the text. -/
theorem quotedBody_escape (cs : List Char) : QuotedBody '\x27' (Text.escape cs) cs := by
  induction cs with
  | nil => exact .nil
  | cons c cs ih =>
    rw [Text.escape]
    split
    · exact .escaped ih
    · next h => exact .plain (fun hq => h (.inl hq)) (fun hs => h (.inr hs)) ih

theorem quoted_quote (cs rest : List Char) : Quoted cs (Text.quote cs ++ rest) rest := by
  refine ⟨'\x27', Text.escape cs, .inl rfl, ?_, quotedBody_escape cs⟩
  rw [Text.quote, List.append_assoc]
  rfl

-- ---------------------------------------------------------------------------
-- How much tokens take
-- ---------------------------------------------------------------------------

section

variable {cs rest : List Char}

theorem Blanks.length_le (h : Blanks cs rest) : rest.length ≤ cs.length := by
  obtain ⟨gap, rfl, -⟩ := h
  rw [List.length_append]
  omega

theorem Run.length_lt {p : Char → Bool} {word : List Char} (h : Run p word cs rest) :
    rest.length < cs.length := by
  have := List.length_pos_iff.mpr h.ne_nil
  rw [h.split, List.length_append]
  omega

theorem Keyword.length_le {word : String} (h : Keyword word cs rest) :
    rest.length ≤ cs.length := by
  obtain ⟨w, rfl, -⟩ := h
  rw [List.length_append]
  omega

theorem Keyword.length_lt {word : String} (hne : word.toList ≠ []) (h : Keyword word cs rest) :
    rest.length < cs.length := by
  obtain ⟨w, rfl, hsame, -⟩ := h
  have := List.length_pos_iff.mpr (ne_nil_of_sameIgnoringCase hsame hne)
  rw [List.length_append]
  omega

theorem Comparator.length_lt {op : Operator} (h : Comparator op cs rest) :
    rest.length < cs.length := by
  cases h with
  | sign _ hsplit _ =>
    have := List.length_pos_iff.mpr (symbol_ne_nil op)
    rw [hsplit, List.length_append]
    omega
  | word _ hkey => exact hkey.length_lt (symbol_ne_nil op)

theorem Quoted.length_lt {text : List Char} (h : Quoted text cs rest) :
    rest.length < cs.length := by
  obtain ⟨quote, body, -, rfl, -⟩ := h
  rw [List.length_cons, List.length_append, List.length_cons]
  omega

end

end ClusterFilter.Token

namespace ClusterFilter.Cursor

open Token

-- ---------------------------------------------------------------------------
-- Moving a cursor
-- ---------------------------------------------------------------------------

@[simp] theorem rest_skip (n : Nat) (c : Cursor) : (c.skip n).rest = c.rest.drop n := rfl

@[simp] theorem fst_takeWhile (p : Char → Bool) (c : Cursor) :
    (c.takeWhile p).1 = c.rest.takeWhile p := rfl

@[simp] theorem rest_takeWhile (p : Char → Bool) (c : Cursor) :
    (c.takeWhile p).2.rest = c.rest.dropWhile p := by
  have h : (c.rest.takeWhile p ++ c.rest.dropWhile p).drop (c.rest.takeWhile p).length =
      c.rest.dropWhile p := List.drop_left ..
  rwa [List.takeWhile_append_dropWhile] at h

@[simp] theorem rest_skipBlanks (c : Cursor) : c.skipBlanks.rest = Text.dropBlanks c.rest :=
  rest_takeWhile Text.isBlank c

theorem skipBlanks_eq_of_blanks {c : Cursor} {rest : List Char} (h : Blanks c.rest rest)
    (hr : StartsBare rest) : c.skipBlanks.rest = rest := by
  rw [rest_skipBlanks, h.dropBlanks_eq hr]

theorem blanks_skipBlanks (c : Cursor) : Blanks c.rest c.skipBlanks.rest := by
  rw [rest_skipBlanks]
  exact blanks_dropBlanks c.rest

/-- What stands behind the white space stands behind any white space that leads to it. -/
theorem skipBlanks_iff {c : Cursor} {P : List Char → Prop} (hP : ∀ {cs}, P cs → StartsBare cs) :
    P c.skipBlanks.rest ↔ ∃ cs, Blanks c.rest cs ∧ P cs := by
  constructor
  · exact fun h => ⟨_, blanks_skipBlanks c, h⟩
  · rintro ⟨cs, hblanks, h⟩
    rwa [skipBlanks_eq_of_blanks hblanks (hP h)]

-- ---------------------------------------------------------------------------
-- Single characters and keywords
-- ---------------------------------------------------------------------------

theorem char?_eq_some_iff {x : Char} {c : Cursor} {rest : List Char} :
    (∃ after, c.char? x = some after ∧ after.rest = rest) ↔ c.rest = x :: rest := by
  unfold char?
  constructor
  · rintro ⟨after, h, rfl⟩
    split at h
    · next hx =>
      injection h with h
      obtain ⟨xs, hxs⟩ := List.head?_eq_some_iff.mp hx
      rw [← h, rest_skip, hxs, List.drop_one, List.tail_cons]
    · cases h
  · intro h
    refine ⟨c.skip 1, ?_, ?_⟩
    · rw [h, List.head?_cons, if_pos rfl]
    · rw [rest_skip, h, List.drop_one, List.tail_cons]

theorem char?_eq_none {x : Char} {c : Cursor} (h : c.rest.head? ≠ some x) : c.char? x = none :=
  if_neg h

theorem char?_skipBlanks_iff {x : Char} {c : Cursor} {rest : List Char}
    (hx : Text.isBlank x = false) :
    (∃ after, c.skipBlanks.char? x = some after ∧ after.rest = rest) ↔
      Blanks c.rest (x :: rest) := by
  rw [char?_eq_some_iff]
  constructor
  · intro h
    rw [← h]
    exact blanks_skipBlanks c
  · exact fun h => skipBlanks_eq_of_blanks h (startsBare_cons hx)

theorem keyword?_eq_some_iff {word : String} {c : Cursor} {rest : List Char} :
    (∃ after, c.keyword? word = some after ∧ after.rest = rest) ↔ Keyword word c.rest rest := by
  unfold keyword?
  constructor
  · rintro ⟨after, h, rfl⟩
    dsimp only at h
    split at h
    · next hw =>
      injection h with h
      rw [Bool.and_eq_true] at hw
      rw [← h, rest_skip]
      exact ⟨_, (List.take_append_drop ..).symm, hw.1, hw.2⟩
    · cases h
  · rintro ⟨w, hsplit, hw, hend⟩
    have hlen : w.length = word.toList.length := by
      have := congrArg List.length (eq_of_beq hw)
      rwa [Text.lower, Text.lower, List.length_map, List.length_map] at this
    refine ⟨c.skip word.toList.length, ?_, ?_⟩
    · dsimp only
      rw [hsplit, ← hlen, List.take_left, List.drop_left, hw, hend]
      rfl
    · rw [rest_skip, hsplit, ← hlen, List.drop_left]

-- ---------------------------------------------------------------------------
-- Tokens with a text
-- ---------------------------------------------------------------------------

/-- The method gives exactly the readings that the token has. -/
def Recognizes {α : Type} (read : Cursor → Option (α × Cursor))
    (token : α → List Char → List Char → Prop) : Prop :=
  ∀ c a rest, (∃ after, read c = some (a, after) ∧ after.rest = rest) ↔ token a c.rest rest

/-- Behind white space a token is recognized as well, if it does not begin with white space. -/
theorem Recognizes.afterBlanks {α : Type} {read : Cursor → Option (α × Cursor)}
    {token : α → List Char → List Char → Prop} (h : Recognizes read token)
    (hbare : ∀ {a cs rest}, token a cs rest → StartsBare cs) {c : Cursor} {a : α}
    {rest : List Char} :
    (∃ after, read c.skipBlanks = some (a, after) ∧ after.rest = rest) ↔
      ∃ cs, Blanks c.rest cs ∧ token a cs rest := by
  rw [h, skipBlanks_iff hbare]

theorem takeWhile_eq_iff {p : Char → Bool} {c : Cursor} {word rest : List Char} :
    (∃ after, c.takeWhile p = (word, after) ∧ after.rest = rest) ↔
      c.rest.takeWhile p = word ∧ c.rest.dropWhile p = rest := by
  rw [← rest_takeWhile, ← fst_takeWhile]
  constructor
  · rintro ⟨after, h, rfl⟩
    rw [h]
    exact ⟨rfl, rfl⟩
  · rintro ⟨rfl, rfl⟩
    exact ⟨_, rfl, rfl⟩

/-- The run at the cursor, unless it is empty. -/
theorem run_recognizes (p : Char → Bool) :
    Recognizes (fun c => match c.takeWhile p with
      | ([], _) => none
      | (word, after) => some (word, after)) (Run p) := by
  intro c word rest
  dsimp only
  rw [run_iff, ← rest_takeWhile, ← fst_takeWhile]
  obtain ⟨w, after⟩ := c.takeWhile p
  cases w with
  | nil => exact ⟨fun ⟨_, h, _⟩ => (nomatch h), fun ⟨h, _, hne⟩ => absurd h.symm hne⟩
  | cons x xs =>
    constructor
    · rintro ⟨after', h, rfl⟩
      injection h with h
      injection h with hw ha
      exact ⟨hw, by rw [ha], hw ▸ List.cons_ne_nil x xs⟩
    · rintro ⟨rfl, rfl, -⟩
      exact ⟨after, rfl, rfl⟩

theorem bare?_recognizes : Recognizes bare? (Run Text.isBareChar) :=
  run_recognizes Text.isBareChar

theorem key?_recognizes : Recognizes key? (Run Text.isKeyChar) :=
  run_recognizes Text.isKeyChar

theorem identifier?_recognizes : Recognizes identifier? Identifier := by
  intro c name rest
  unfold identifier?
  cases hc : c.rest with
  | nil =>
    refine ⟨fun ⟨_, h, _⟩ => (nomatch h), fun ⟨⟨hsplit, hne, _, _⟩, _⟩ => ?_⟩
    exact absurd (List.append_eq_nil_iff.mp hsplit.symm).1 hne
  | cons x xs =>
    dsimp only
    split
    · next hx =>
      have hword : Text.isWordChar x = true := by
        rw [Bool.or_eq_true, beq_iff_eq] at hx
        rw [Text.isWordChar, Char.isAlphanum]
        rcases hx with hx | hx
        · rw [hx, Bool.true_or, Bool.true_or]
        · rw [hx, beq_self_eq_true, Bool.or_true]
      have htake : (x :: xs).takeWhile Text.isWordChar = x :: xs.takeWhile Text.isWordChar :=
        List.takeWhile_cons_of_pos hword
      simp only [Option.some.injEq]
      rw [takeWhile_eq_iff, hc, htake]
      constructor
      · rintro ⟨rfl, rfl⟩
        refine ⟨run_iff.mpr ⟨htake, rfl, List.cons_ne_nil _ _⟩, Text.forall_mem_head?_cons ?_⟩
        rwa [← beq_iff_eq (a := x), ← Bool.or_eq_true]
      · rintro ⟨hrun, -⟩
        obtain ⟨hw, hr, -⟩ := run_iff.mp hrun
        exact ⟨htake ▸ hw, hr⟩
    · next hx =>
      refine ⟨fun ⟨_, h, _⟩ => (nomatch h), fun ⟨⟨hsplit, hne, _, _⟩, hhead⟩ => absurd ?_ hx⟩
      obtain ⟨y, ys, rfl⟩ := List.exists_cons_of_ne_nil hne
      rw [List.cons_append] at hsplit
      injection hsplit with hxy
      rw [Bool.or_eq_true, beq_iff_eq, hxy]
      exact hhead y rfl

-- ---------------------------------------------------------------------------
-- Comparators
-- ---------------------------------------------------------------------------

/-- The first sign that fits is the longest one, because longer signs are tried first. -/
theorem sign_longest {cs : List Char} {op : Operator}
    (h : Operator.signs.find? (fun op => op.symbol.toList.isPrefixOf cs) = some op) :
    op ∈ Operator.signs ∧ op.symbol.toList <+: cs ∧
      ∀ op' ∈ Operator.signs, op'.symbol.toList <+: cs →
        op'.symbol.toList.length ≤ op.symbol.toList.length := by
  have hsorted : Operator.signs.Pairwise
      fun a b => b.symbol.toList.length ≤ a.symbol.toList.length := by decide
  obtain ⟨hfits, before, after, hsigns, hbefore⟩ := List.find?_eq_some_iff_append.mp h
  refine ⟨List.mem_of_find?_eq_some h, List.isPrefixOf_iff_prefix.mp hfits, ?_⟩
  intro op' hop' hfits'
  rw [hsigns] at hop' hsorted
  rcases List.mem_append.mp hop' with hb | ha
  · have := hbefore op' hb
    rw [List.isPrefixOf_iff_prefix.mpr hfits'] at this
    cases this
  · rcases List.mem_cons.mp ha with rfl | ha
    · exact Nat.le_refl _
    · exact (List.pairwise_cons.mp (List.pairwise_append.mp hsorted).2.1).1 op' ha

/-- Two signs that fit and are both the longest one are the same. -/
theorem sign_unique {cs : List Char} {a b : Operator} (ha : a ∈ Operator.signs)
    (hb : b ∈ Operator.signs) (hfa : a.symbol.toList <+: cs) (hfb : b.symbol.toList <+: cs)
    (hlen : a.symbol.toList.length = b.symbol.toList.length) : a = b := by
  have hinj : ∀ a ∈ Operator.signs, ∀ b ∈ Operator.signs,
      a.symbol.toList = b.symbol.toList → a = b := by decide
  have hboth : a.symbol.toList <+: b.symbol.toList :=
    List.prefix_of_prefix_length_le hfa hfb (Nat.le_of_eq hlen)
  exact hinj a ha b hb (hboth.eq_of_length hlen)

/-- A word names an operator that is no sign, in any letter case. -/
theorem ofWord?_eq_some_iff {word : List Char} {op : Operator} :
    Operator.ofWord? word = some op ↔
      op ∉ Operator.signs ∧ Text.sameIgnoringCase word op.symbol.toList = true := by
  have hlower : ∀ op, op ∉ Operator.signs → Text.lower op.symbol.toList = op.symbol.toList := by
    intro op
    cases op <;> decide
  constructor
  · intro h
    have hword : op ∉ Operator.signs := by
      have hmem := List.mem_of_find?_eq_some h
      revert hmem
      cases op <;> decide
    have hsame := List.find?_some h
    rw [Text.sameIgnoringCase, hlower op hword]
    exact ⟨hword, hsame⟩
  · rintro ⟨hword, hsame⟩
    rw [Text.sameIgnoringCase, hlower op hword, beq_iff_eq] at hsame
    unfold Operator.ofWord?
    rw [hsame]
    revert hword
    cases op <;> decide

/-- No sign fits a text that begins with a letter. -/
theorem find?_signs_eq_none {x : Char} {cs : List Char} (hx : x.isAlpha = true) :
    Operator.signs.find? (fun op => op.symbol.toList.isPrefixOf (x :: cs)) = none := by
  have hhead : ∀ op ∈ Operator.signs, op.symbol.toList.head?.map Char.isAlpha = some false := by
    decide
  rw [List.find?_eq_none]
  intro op hop hfits
  obtain ⟨y, hy, hyalpha⟩ := Option.map_eq_some_iff.mp (hhead op hop)
  obtain ⟨s, hs⟩ := List.head?_eq_some_iff.mp hy
  rw [List.isPrefixOf_iff_prefix, hs, List.cons_prefix_cons] at hfits
  rw [hfits.1, hx] at hyalpha
  cases hyalpha

/-- An operator that is written as a word takes exactly the letters at the cursor. -/
theorem keyword_symbol_iff {op : Operator} (hop : op ∉ Operator.signs) {cs rest : List Char} :
    Keyword op.symbol cs rest ↔
      Text.sameIgnoringCase (cs.takeWhile Char.isAlpha) op.symbol.toList = true ∧
        cs.dropWhile Char.isAlpha = rest ∧ Text.endsWord rest = true := by
  constructor
  · rintro ⟨w, rfl, hw, hend⟩
    have hrest : ∀ x ∈ rest.head?, x.isAlpha = false := by
      intro x hx
      obtain ⟨xs, rfl⟩ := List.head?_eq_some_iff.mp hx
      rw [Text.endsWord, Text.isWordChar, Char.isAlphanum] at hend
      cases hx : x.isAlpha with
      | false => rfl
      | true => simp [hx] at hend
    have hall := isAlpha_of_sameIgnoringCase hw (isAlpha_symbol hop)
    obtain ⟨htake, hdrop⟩ := Text.takeWhile_append_of_head hall hrest
    rw [htake, hdrop]
    exact ⟨hw, rfl, hend⟩
  · rintro ⟨hw, rfl, hend⟩
    exact ⟨_, List.takeWhile_append_dropWhile.symm, hw, hend⟩

/-- Where signs fit, the comparator is the longest one of them. -/
theorem comparator?_of_sign {c : Cursor} {sign : Operator}
    (hsign : Operator.signs.find? (fun op => op.symbol.toList.isPrefixOf c.rest) = some sign)
    {op : Operator} {rest : List Char} :
    (∃ after, c.comparator? = some (op, after) ∧ after.rest = rest) ↔
      Comparator op c.rest rest := by
  obtain ⟨hmem, hfits, hlongest⟩ := sign_longest hsign
  unfold comparator?
  rw [hsign]
  dsimp only
  constructor
  · rintro ⟨after, h, rfl⟩
    injection h with h
    injection h with hop hafter
    obtain ⟨tail, htail⟩ := hfits
    subst hop hafter
    refine .sign hmem ?_ hlongest
    rw [rest_skip, ← htail, List.drop_left]
  · intro h
    cases h with
    | sign hop hsplit hlong =>
      have hfits' : op.symbol.toList <+: c.rest := ⟨rest, hsplit.symm⟩
      have hsame : sign = op := sign_unique hmem hop hfits hfits'
        (Nat.le_antisymm (hlong sign hmem hfits) (hlongest op hop hfits'))
      subst hsame
      exact ⟨_, rfl, by rw [rest_skip, hsplit, List.drop_left]⟩
    | word hop hkey =>
      -- a word begins with a letter, and then no sign fits
      obtain ⟨x, xs, hsplit, hx⟩ := hkey.isAlpha_head (symbol_ne_nil op) (isAlpha_symbol hop)
      rw [hsplit, find?_signs_eq_none hx] at hsign
      cases hsign

/-- Where no sign fits, the comparator is a word. -/
theorem comparator?_of_no_sign {c : Cursor}
    (hsign : Operator.signs.find? (fun op => op.symbol.toList.isPrefixOf c.rest) = none)
    {op : Operator} {rest : List Char} :
    (∃ after, c.comparator? = some (op, after) ∧ after.rest = rest) ↔
      Comparator op c.rest rest := by
  have hnosign : ¬ ∃ op' ∈ Operator.signs, op'.symbol.toList <+: c.rest := by
    rintro ⟨op', hmem, hfits⟩
    exact List.find?_eq_none.mp hsign op' hmem (List.isPrefixOf_iff_prefix.mpr hfits)
  unfold comparator?
  rw [hsign]
  dsimp only
  rw [fst_takeWhile]
  constructor
  · rintro ⟨after, h, rfl⟩
    split at h
    · next op' hword =>
      obtain ⟨hop', hsame⟩ := ofWord?_eq_some_iff.mp hword
      split at h
      · next hend =>
        injection h with h
        injection h with hop hafter
        subst hop hafter
        rw [rest_takeWhile] at hend ⊢
        exact .word hop' ((keyword_symbol_iff hop').mpr ⟨hsame, rfl, hend⟩)
      · cases h
    · cases h
  · intro h
    cases h with
    | sign hop hsplit _ => exact absurd ⟨op, hop, rest, hsplit.symm⟩ hnosign
    | word hop hkey =>
      obtain ⟨hsame, hrest, hend⟩ := (keyword_symbol_iff hop).mp hkey
      rw [ofWord?_eq_some_iff.mpr ⟨hop, hsame⟩]
      refine ⟨_, ?_, (rest_takeWhile ..).trans hrest⟩
      dsimp only
      rw [rest_takeWhile, hrest, if_pos hend]

theorem comparator?_recognizes : Recognizes comparator? Comparator := by
  intro c op rest
  cases hsign : Operator.signs.find? fun op => op.symbol.toList.isPrefixOf c.rest with
  | some sign => exact comparator?_of_sign hsign
  | none => exact comparator?_of_no_sign hsign

-- ---------------------------------------------------------------------------
-- Quoted texts
-- ---------------------------------------------------------------------------

/-- A body spells the text that is left when its escapes are resolved. -/
theorem unescape_of_quotedBody {quote : Char} {body text : List Char}
    (h : QuotedBody quote body text) : Text.unescape body = text := by
  induction h with
  | nil => rfl
  | plain _ hc _ ih => rw [Text.unescape_cons_of_ne hc, ih]
  | escaped _ ih => rw [Text.unescape, ih]

theorem splitQuoted_cons_self {quote : Char} (hq : quote ≠ '\\') (rest : List Char) :
    Text.splitQuoted quote (quote :: rest) = some ([], rest) := by
  cases rest <;> simp [Text.splitQuoted, hq]

/-- A body ends at the first quote that it does not protect. -/
theorem splitQuoted_of_quotedBody {quote : Char} (hq : quote ≠ '\\') {body text : List Char}
    (h : QuotedBody quote body text) (rest : List Char) :
    Text.splitQuoted quote (body ++ quote :: rest) = some (body, rest) := by
  induction h with
  | nil => exact splitQuoted_cons_self hq rest
  | plain hc hc' _ ih =>
    rw [List.cons_append, Text.splitQuoted_cons_of_ne hc hc', ih]
    rfl
  | escaped _ ih =>
    rw [List.cons_append, List.cons_append, Text.splitQuoted, ih]
    rfl

/-- What is split off in front of a closing quote is a body. -/
theorem quotedBody_of_splitQuoted {quote : Char} {cs body rest : List Char}
    (h : Text.splitQuoted quote cs = some (body, rest)) :
    cs = body ++ quote :: rest ∧ QuotedBody quote body (Text.unescape body) := by
  fun_induction Text.splitQuoted quote cs generalizing body with
  | case1 => cases h
  | case2 => cases h
  | case3 c cs ih =>
    obtain ⟨⟨body', rest'⟩, hsplit, heq⟩ := Option.map_eq_some_iff.mp h
    injection heq with hbody hrest
    subst hbody hrest
    obtain ⟨rfl, hspell⟩ := ih hsplit
    exact ⟨rfl, .escaped hspell⟩
  | case4 cs _ _ =>
    injection h with h
    injection h with hbody hrest
    subst hbody hrest
    exact ⟨rfl, .nil⟩
  | case5 c cs hlone hescape hc ih =>
    obtain ⟨⟨body', rest'⟩, hsplit, heq⟩ := Option.map_eq_some_iff.mp h
    injection heq with hbody hrest
    subst hbody hrest
    obtain ⟨rfl, hspell⟩ := ih hsplit
    have hslash : c ≠ '\\' := by
      rintro rfl
      cases hrest : body' ++ quote :: rest' with
      | nil => exact hlone rfl hrest
      | cons x xs => exact hescape x xs rfl hrest
    rw [Text.unescape_cons_of_ne hslash]
    exact ⟨rfl, .plain hc hslash hspell⟩

theorem quote?_eq_some_iff {quote : Char} {c : Cursor} :
    c.quote? = some quote ↔ (quote = '\x27' ∨ quote = '\x22') ∧ c.rest.head? = some quote := by
  unfold quote?
  cases c.rest with
  | nil => exact ⟨nofun, fun ⟨_, h⟩ => (nomatch h)⟩
  | cons x xs =>
    rw [List.head?_cons]
    dsimp only
    split
    · next hx =>
      rw [Bool.or_eq_true, beq_iff_eq, beq_iff_eq] at hx
      constructor
      · intro h
        exact ⟨Option.some.inj h ▸ hx, h⟩
      · exact fun h => h.2
    · next hx =>
      rw [Bool.or_eq_true, beq_iff_eq, beq_iff_eq] at hx
      exact ⟨nofun, fun ⟨hq, h⟩ => absurd (Option.some.inj h ▸ hq) hx⟩

/-- The quoted text at a cursor is read exactly if there is one. -/
theorem quoted?_recognizes :
    Recognizes (fun c => c.quote?.bind fun quote => c.quoted? quote) Quoted := by
  intro c text rest
  dsimp only
  constructor
  · rintro ⟨after, h, rfl⟩
    obtain ⟨quote, hquote, h⟩ := Option.bind_eq_some_iff.mp h
    obtain ⟨hkind, hhead⟩ := quote?_eq_some_iff.mp hquote
    obtain ⟨tail, htail⟩ := List.head?_eq_some_iff.mp hhead
    unfold quoted? at h
    rw [htail, List.drop_one, List.tail_cons] at h
    obtain ⟨⟨body, rest⟩, hsplit, heq⟩ := Option.map_eq_some_iff.mp h
    injection heq with htext hafter
    obtain ⟨rfl, hspell⟩ := quotedBody_of_splitQuoted hsplit
    subst htext hafter
    refine ⟨quote, body, hkind, ?_, hspell⟩
    have hdrop : List.drop (body.length + 2) (quote :: (body ++ quote :: rest)) = rest := by
      rw [List.drop_succ_cons, List.drop_length_add_append]
      rfl
    rw [rest_skip, htail, hdrop]
  · rintro ⟨quote, body, hkind, hsplit, hspell⟩
    have hslash : quote ≠ '\\' := by
      rcases hkind with rfl | rfl
      · decide
      · decide
    have hquote : c.quote? = some quote :=
      quote?_eq_some_iff.mpr ⟨hkind, by rw [hsplit, List.head?_cons]⟩
    refine ⟨c.skip (body.length + 2), ?_, ?_⟩
    · rw [hquote, Option.bind_some]
      unfold quoted?
      rw [hsplit, List.drop_one, List.tail_cons, splitQuoted_of_quotedBody hslash hspell,
        Option.map_some]
      dsimp only
      rw [unescape_of_quotedBody hspell]
    · rw [rest_skip, hsplit, List.drop_succ_cons, List.drop_length_add_append]
      rfl

end ClusterFilter.Cursor
