import ClusterFilter.Document.Json
import ClusterFilter.Proofs.Text.Decimal
import ClusterFilter.Text.Radix

/-!
# ClusterFilter — JSON is unambiguous

Compact JSON says exactly one document. Nothing in it tells how long a part is: strings run up to
the closing quotation mark, which is escaped inside of them, lists and records up to their closing
bracket, and integers as far as characters of numerals go. So a document is told from any text that
begins with it, provided that no numeral could go on behind it (`Legible`); in a document what
follows is a comma, a bracket or nothing.

Two gaps are bridged:

* **Escapes vs characters** — `readJsonChar?` takes one character off the front of a string, and
  `readJsonChar?_jsonChar` says that it takes what was written.
* **Parts vs lists** — lists and records are parts with commas between them; `joinWith_append_inj`
  tells the parts apart if each of them is legible.

Main result:

* `compact_injective` — documents with the same compact text are the same.
-/

namespace ClusterFilter.Document

open Text

-- ---------------------------------------------------------------------------
-- Strings
-- ---------------------------------------------------------------------------

/-- The character that an escape of two characters stands for. -/
def shortEscaped : Char → Char
  | 'b' => '\x08'
  | 'f' => '\x0c'
  | 'n' => '\n'
  | 'r' => '\r'
  | 't' => '\t'
  | c => c

/-- Takes one character off the front of what stands between quotation marks. -/
def readJsonChar? : List Char → Option (Char × List Char)
  | '\\' :: 'u' :: '0' :: '0' :: high :: low :: rest => do
    let h ← hexValue? high
    let l ← hexValue? low
    some (Char.ofNat (16 * h + l), rest)
  | '\\' :: e :: rest => some (shortEscaped e, rest)
  | c :: rest => some (c, rest)
  | [] => none

theorem hexValue?_hexDigit (n : Nat) : hexValue? (hexDigit n) = some (n % 16) := by
  have hall : ∀ d < 16, hexValue? (Nat.digitChar d) = some d := by decide
  exact hall (n % 16) (Nat.mod_lt n (by decide))

theorem readJsonChar?_plain {c : Char} (hc : c ≠ '\\') (rest : List Char) :
    readJsonChar? (c :: rest) = some (c, rest) := by
  unfold readJsonChar?
  split
  · next h => exact absurd (List.cons.inj h).1 hc
  · next h => exact absurd (List.cons.inj h).1 hc
  · next h =>
    injection h with hx hrest
    rw [hx, hrest]
  · next h => cases h

/-- A character is read back from its escape. -/
theorem readJsonChar?_jsonChar (c : Char) (rest : List Char) :
    readJsonChar? (jsonChar c ++ rest) = some (c, rest) := by
  unfold jsonChar
  split
  · next h => rw [h]; rfl
  split
  · next h => rw [h]; rfl
  split
  · next h => rw [h]; rfl
  split
  · next h => rw [h]; rfl
  split
  · next h => rw [h]; rfl
  split
  · next h => rw [h]; rfl
  split
  · next h => rw [h]; rfl
  split
  · next hcontrol =>
    have hcode : 16 * (c.toNat / 16 % 16) + c.toNat % 16 = c.toNat := by omega
    show ((hexValue? (hexDigit (c.toNat / 16))).bind fun h =>
      (hexValue? (hexDigit c.toNat)).bind fun l =>
        some (Char.ofNat (16 * h + l), rest)) = some (c, rest)
    rw [hexValue?_hexDigit, hexValue?_hexDigit, Option.bind_some, Option.bind_some, hcode,
      Char.ofNat_toNat]
  · next hslash _ _ _ _ _ _ => exact readJsonChar?_plain hslash rest

/-- What stands for a character does not begin with a quotation mark. -/
theorem jsonChar_head (c : Char) : ∃ x xs, jsonChar c = x :: xs ∧ x ≠ '\x22' := by
  unfold jsonChar
  split
  · exact ⟨_, _, rfl, by decide⟩
  · next hquote =>
    repeat' split
    all_goals first
      | exact ⟨_, _, rfl, by decide⟩
      | exact ⟨_, _, rfl, hquote⟩

/-- A closing character does not begin anything that begins with another one. -/
theorem cons_ne_append {close : Char} {part rest tail : List Char}
    (h : ∃ x xs, part = x :: xs ∧ x ≠ close) : close :: rest ≠ part ++ tail := by
  obtain ⟨x, xs, rfl, hx⟩ := h
  intro hsame
  injection hsame with hchar
  exact hx hchar.symm

/-- A string ends at the first quotation mark that does not belong to an escape. -/
theorem jsonString_append_inj {cs cs' rest rest' : List Char}
    (h : jsonString cs ++ rest = jsonString cs' ++ rest') : cs = cs' ∧ rest = rest' := by
  have hbody : ∀ {cs cs' : List Char}, cs.flatMap jsonChar ++ '\x22' :: rest =
      cs'.flatMap jsonChar ++ '\x22' :: rest' → cs = cs' ∧ rest = rest' := by
    intro cs
    induction cs with
    | nil =>
      intro cs' h
      cases cs' with
      | nil =>
        injection h with _ h
        exact ⟨rfl, h⟩
      | cons c cs' =>
        rw [List.flatMap_cons, List.append_assoc] at h
        exact absurd h (cons_ne_append (jsonChar_head c))
    | cons c cs ih =>
      intro cs' h
      rw [List.flatMap_cons, List.append_assoc] at h
      cases cs' with
      | nil => exact absurd h.symm (cons_ne_append (jsonChar_head c))
      | cons c' cs' =>
        rw [List.flatMap_cons, List.append_assoc] at h
        have hread := congrArg readJsonChar? h
        rw [readJsonChar?_jsonChar, readJsonChar?_jsonChar] at hread
        injection hread with hread
        injection hread with hc hcs
        obtain ⟨rfl, hrest⟩ := ih hcs
        exact ⟨by rw [hc], hrest⟩
  unfold jsonString at h
  rw [List.cons_append, List.cons_append, List.append_assoc, List.append_assoc] at h
  injection h with _ h
  exact hbody h

-- ---------------------------------------------------------------------------
-- Parts with commas between them
-- ---------------------------------------------------------------------------

section

variable {α : Type} {write : α → List Char}

/-- A part is told from any text that begins with it, if no numeral could go on behind it. -/
def Legible (write : α → List Char) (a : α) : Prop :=
  ∀ {b : α} {rest rest' : List Char}, EndsNumeral rest → EndsNumeral rest' →
    write a ++ rest = write b ++ rest' → a = b ∧ rest = rest'

/-- What stands behind a part: the closing bracket, or a comma and the other parts. -/
def behindPart (write : α → List Char) (close : List Char) : List α → List Char
  | [] => close
  | b :: bs => ',' :: (joinWith [','] ((b :: bs).map write) ++ close)

theorem joinWith_map_cons (a : α) (as : List α) (close : List Char) :
    joinWith [','] ((a :: as).map write) ++ close = write a ++ behindPart write close as := by
  cases as with
  | nil => rfl
  | cons b bs =>
    rw [List.map_cons, List.map_cons, joinWith, behindPart, List.map_cons, List.append_assoc,
      List.append_assoc]
    rfl

variable {close : Char} (hclose : isSignedChar close = false)

include hclose

theorem endsNumeral_behindPart (rest : List Char) (as : List α) :
    EndsNumeral (behindPart write (close :: rest) as) := by
  cases as with
  | nil => exact forall_mem_head?_cons hclose
  | cons a as => exact forall_mem_head?_cons rfl

/-- Legible parts with commas between them are told apart, up to the closing bracket. -/
theorem joinWith_append_inj (hcomma : close ≠ ',') (hhead : ∀ a, ∃ x xs, write a = x :: xs ∧
    x ≠ close) {as bs : List α} (has : ∀ a ∈ as, Legible write a) {rest rest' : List Char}
    (h : joinWith [','] (as.map write) ++ close :: rest =
      joinWith [','] (bs.map write) ++ close :: rest') : as = bs ∧ rest = rest' := by
  induction as generalizing bs with
  | nil =>
    cases bs with
    | nil =>
      injection h with _ h
      exact ⟨rfl, h⟩
    | cons b bs =>
      rw [joinWith_map_cons] at h
      exact absurd h (cons_ne_append (hhead b))
  | cons a as ih =>
    rw [joinWith_map_cons] at h
    cases bs with
    | nil => exact absurd h.symm (cons_ne_append (hhead a))
    | cons b bs =>
      rw [joinWith_map_cons] at h
      obtain ⟨rfl, hbehind⟩ := has a (List.mem_cons_self ..)
        (endsNumeral_behindPart hclose rest as) (endsNumeral_behindPart hclose rest' bs) h
      cases as with
      | nil =>
        cases bs with
        | nil =>
          injection hbehind with _ hrest
          exact ⟨rfl, hrest⟩
        | cons b' bs =>
          injection hbehind with hchar
          exact absurd hchar hcomma
      | cons a' as =>
        cases bs with
        | nil =>
          injection hbehind with hchar
          exact absurd hchar.symm hcomma
        | cons b' bs =>
          injection hbehind with _ hbehind
          obtain ⟨hsame, hrest⟩ := ih (fun c hc => has c (List.mem_cons_of_mem _ hc)) hbehind
          exact ⟨by rw [hsame], hrest⟩

end

-- ---------------------------------------------------------------------------
-- How documents begin
-- ---------------------------------------------------------------------------

/-- The five forms of documents. -/
inductive Form where
  | text
  | integer
  | flag
  | list
  | record
  deriving DecidableEq

/-- The form of the document. -/
def form : Document → Form
  | text _ => .text
  | integer _ => .integer
  | flag _ => .flag
  | list _ => .list
  | record _ => .record

/-- The form of documents whose JSON begins with the character. -/
def Form.ofChar (x : Char) : Form :=
  if x = '\x22' then .text
  else if x = '[' then .list
  else if x = '\x7b' then .record
  else if x = 't' ∨ x = 'f' then .flag
  else .integer

/-- The first character tells the form, and closes nothing. -/
theorem compact_head (d : Document) :
    ∃ x xs, d.compact = x :: xs ∧ Form.ofChar x = d.form ∧ x ≠ ']' ∧ x ≠ '\x7d' := by
  cases d with
  | text s => exact ⟨_, _, by rw [compact, jsonString]; rfl, rfl, by decide, by decide⟩
  | integer n =>
    obtain ⟨x, xs, hx⟩ : ∃ x xs, signedDigits n = x :: xs := by
      apply List.exists_cons_of_ne_nil
      cases n with
      | ofNat n => exact digits_ne_nil n
      | negSucc n => exact List.cons_ne_nil _ _
    have hsigned : isSignedChar x = true :=
      isSignedChar_of_mem_signedDigits (n := n) (hx ▸ List.mem_cons_self ..)
    have hne : ∀ {y : Char}, isSignedChar y = false → x ≠ y := by
      rintro y hy rfl
      rw [hsigned] at hy
      cases hy
    refine ⟨x, xs, by rw [compact, hx], ?_, hne rfl, hne rfl⟩
    unfold Form.ofChar
    rw [if_neg (hne rfl), if_neg (hne rfl), if_neg (hne rfl), if_neg]
    · rfl
    · exact fun h => h.elim (hne rfl) (hne rfl)
  | flag b => cases b <;> exact ⟨_, _, rfl, rfl, by decide, by decide⟩
  | list items => exact ⟨_, _, by rw [compact]; rfl, rfl, by decide, by decide⟩
  | record members => exact ⟨_, _, by rw [compact]; rfl, rfl, by decide, by decide⟩

theorem form_eq_of_compact_append {d d' : Document} {rest rest' : List Char}
    (h : d.compact ++ rest = d'.compact ++ rest') : d.form = d'.form := by
  obtain ⟨x, xs, hx, hform, -⟩ := d.compact_head
  obtain ⟨x', xs', hx', hform', -⟩ := d'.compact_head
  rw [hx, hx'] at h
  injection h with h
  rw [← hform, h, hform']

-- ---------------------------------------------------------------------------
-- Documents
-- ---------------------------------------------------------------------------

/-- A name and a document with a colon between them. -/
def compactMember (member : String × Document) : List Char :=
  jsonString member.1.toList ++ ':' :: member.2.compact

theorem compactItems_eq (items : List Document) :
    compactItems items = joinWith [','] (items.map compact) := by
  induction items with
  | nil => rfl
  | cons d ds ih =>
    cases ds with
    | nil => rfl
    | cons d' ds =>
      rw [compactItems, ih]
      · exact (List.append_assoc d.compact [','] _).symm
      · exact List.cons_ne_nil d' ds

theorem compactMembers_eq (members : List (String × Document)) :
    compactMembers members = joinWith [','] (members.map compactMember) := by
  induction members with
  | nil => rfl
  | cons m ms ih =>
    cases ms with
    | nil => rfl
    | cons m' ms =>
      rw [compactMembers, ih]
      · exact (List.append_assoc (compactMember m) [','] _).symm
      · exact List.cons_ne_nil m' ms

/-- A record is legible member by member if the documents in it are. -/
theorem legible_compactMember {member : String × Document} (h : Legible compact member.2) :
    Legible compactMember member := by
  obtain ⟨name, d⟩ := member
  rintro ⟨name', d'⟩ rest rest' hrest hrest' hsame
  unfold compactMember at hsame
  rw [List.append_assoc, List.append_assoc] at hsame
  obtain ⟨hname, hbehind⟩ := jsonString_append_inj hsame
  injection hbehind with _ hbehind
  obtain ⟨hd, htail⟩ := h hrest hrest' hbehind
  exact ⟨Prod.ext (String.toList_inj.mp hname) hd, htail⟩

/-- Documents are built from documents: induction with a case for each form. -/
@[elab_as_elim]
theorem formInduction {motive : Document → Prop} (text : ∀ s, motive (text s))
    (integer : ∀ n, motive (integer n)) (flag : ∀ b, motive (flag b))
    (list : ∀ items, (∀ d ∈ items, motive d) → motive (list items))
    (record : ∀ members, (∀ m ∈ members, motive m.2) → motive (record members))
    (d : Document) : motive d :=
  Document.rec (motive_2 := fun items => ∀ d ∈ items, motive d)
    (motive_3 := fun members => ∀ m ∈ members, motive m.2) (motive_4 := fun m => motive m.2)
    text integer flag list record (fun _ hd => absurd hd List.not_mem_nil)
    (fun _ _ hd hds => List.forall_mem_cons.mpr ⟨hd, hds⟩) (fun _ hm => absurd hm List.not_mem_nil)
    (fun _ _ hm hms => List.forall_mem_cons.mpr ⟨hm, hms⟩) (fun _ _ hd => hd) d

/-- A document is told from any text that begins with it. -/
theorem legible_compact (d : Document) : Legible compact d := by
  induction d using formInduction with
  | text s =>
    intro d' rest rest' _ _ h
    have hform := form_eq_of_compact_append h
    cases d' with
    | text s' =>
      rw [compact, compact] at h
      obtain ⟨hs, hrest⟩ := jsonString_append_inj h
      exact ⟨by rw [String.toList_inj.mp hs], hrest⟩
    | _ => cases hform
  | integer n =>
    intro d' rest rest' hrest hrest' h
    have hform := form_eq_of_compact_append h
    cases d' with
    | integer n' =>
      rw [compact, compact] at h
      obtain ⟨rfl, htail⟩ := signedDigits_append_inj hrest hrest' h
      exact ⟨rfl, htail⟩
    | _ => cases hform
  | flag b =>
    intro d' rest rest' _ _ h
    have hform := form_eq_of_compact_append h
    cases d' with
    | flag b' =>
      rw [compact, compact] at h
      cases b <;> cases b' <;> simp_all [flagChars]
    | _ => cases hform
  | list items ih =>
    intro d' rest rest' _ _ h
    have hform := form_eq_of_compact_append h
    cases d' with
    | list items' =>
      rw [compact, compact, compactItems_eq, compactItems_eq, List.cons_append, List.cons_append,
        List.append_assoc, List.append_assoc] at h
      injection h with _ h
      have hhead : ∀ d : Document, ∃ x xs, d.compact = x :: xs ∧ x ≠ ']' := by
        intro d
        obtain ⟨x, xs, hx, -, hne, -⟩ := d.compact_head
        exact ⟨x, xs, hx, hne⟩
      obtain ⟨rfl, hrest⟩ := joinWith_append_inj rfl (by decide) hhead ih h
      exact ⟨rfl, hrest⟩
    | _ => cases hform
  | record members ih =>
    intro d' rest rest' _ _ h
    have hform := form_eq_of_compact_append h
    cases d' with
    | record members' =>
      rw [compact, compact, compactMembers_eq, compactMembers_eq, List.cons_append,
        List.cons_append, List.append_assoc, List.append_assoc] at h
      injection h with _ h
      have hhead : ∀ m : String × Document, ∃ x xs, compactMember m = x :: xs ∧ x ≠ '\x7d' :=
        fun m => ⟨'\x22', _, rfl, by decide⟩
      obtain ⟨rfl, hrest⟩ := joinWith_append_inj rfl (by decide) hhead
        (fun m hm => legible_compactMember (ih m hm)) h
      exact ⟨rfl, hrest⟩
    | _ => cases hform

/-- **JSON is unambiguous.** Documents with the same compact text are the same. -/
theorem compact_injective : Function.Injective compact := by
  intro d d' h
  have hsame : d.compact ++ [] = d'.compact ++ [] := by rw [h]
  exact (legible_compact d endsNumeral_nil endsNumeral_nil hsame).1

end ClusterFilter.Document
