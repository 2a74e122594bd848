import ClusterFilter.Proofs.Toml.StringForm
import ClusterFilter.Toml.Reader

/-!
# ClusterFilter — TOML members read back

A member whose key is bare and whose value is a text, on a line of its own, is read as this member
whatever the text is. Lines are read one after another, each without regard to the next.

Main results:

* `readValue?_writeString` — a written text is read as a value.
* `readEntries?_member` — a line with a member, in front of other lines.
-/

namespace ClusterFilter.Toml

-- ---------------------------------------------------------------------------
-- Characters
-- ---------------------------------------------------------------------------

/-- A text without control characters has the line ends of a document. -/
theorem normalLines_of_shows {cs : List Char} (h : ∀ c ∈ cs, isControl c = false) :
    normalLines cs = some cs := by
  induction cs with
  | nil => rfl
  | cons c cs ih =>
    obtain ⟨hc, hcs⟩ := List.forall_mem_cons.mp h
    rw [normalLines.eq_def]
    split
    · next heq => cases heq
    · next heq =>
      injection heq with hr _
      rw [hr] at hc
      cases hc
    · next heq =>
      injection heq with hr htail
      subst hr htail
      rw [if_neg (Bool.eq_false_iff.mp hc), ih hcs]
      rfl

theorem skipSpaces_of_head {cs : List Char} (h : ∀ c ∈ cs.head?, isSpace c = false) :
    skipSpaces cs = cs :=
  (Text.takeWhile_eq_nil_of_head h).2

-- ---------------------------------------------------------------------------
-- Keys
-- ---------------------------------------------------------------------------

/-- The name can stand bare as a key. -/
structure IsBareKey (name : String) : Prop where
  ne_nil : name.toList ≠ []
  all : ∀ c ∈ name.toList, isKeyChar c = true

variable {name : String}

/-- A bare key begins with a character with which nothing else begins. -/
theorem IsBareKey.exists_cons (h : IsBareKey name) : ∃ c cs, name.toList = c :: cs ∧
    ∀ x, isKeyChar x = false → c ≠ x := by
  obtain ⟨c, cs, hcs⟩ := List.exists_cons_of_ne_nil h.ne_nil
  refine ⟨c, cs, hcs, ?_⟩
  rintro x hx rfl
  rw [h.all c (hcs ▸ List.mem_cons_self ..)] at hx
  cases hx

theorem IsBareKey.head_isSpace (h : IsBareKey name) (rest : List Char) :
    ∀ c ∈ (name.toList ++ rest).head?, isSpace c = false := by
  obtain ⟨c, cs, hcs, hne⟩ := h.exists_cons
  rw [hcs]
  refine Text.forall_mem_head?_cons ?_
  unfold isSpace
  rw [beq_eq_false_iff_ne.mpr (hne ' ' (by decide)), beq_eq_false_iff_ne.mpr (hne '\t' (by decide))]
  rfl

theorem IsBareKey.shows (h : IsBareKey name) : ∀ c ∈ name.toList, isControl c = false := by
  intro c hc
  have hascii : ∀ n < 128, isKeyChar (Char.ofNat n) = true → isControl (Char.ofNat n) = false := by
    decide +kernel
  by_contra hcontrol
  have hcontrol : isControl c = true := by simpa using hcontrol
  have hkey := hascii _ (toNat_lt_of_isControl hcontrol)
  rw [Char.ofNat_toNat, hcontrol] at hkey
  cases hkey (h.all c hc)

theorem readKeyPart?_bare (h : IsBareKey name) (rest : List Char) :
    readKeyPart? (name.toList ++ ' ' :: rest) = some (name, ' ' :: rest) := by
  have htake : (name.toList ++ ' ' :: rest).takeWhile isKeyChar = name.toList :=
    (Text.takeWhile_append_of_head h.all (Text.forall_mem_head?_cons (by decide))).1
  have hne : ¬ name.toList.isEmpty = true := fun hempty => h.ne_nil (List.isEmpty_iff.mp hempty)
  unfold readKeyPart?
  rw [htake]
  dsimp only
  rw [if_neg hne, List.drop_left, String.ofList_toList]

theorem readKey?_bare (h : IsBareKey name) (parts : Nat) (rest : List Char) :
    readKey? (parts + 1) (name.toList ++ ' ' :: '=' :: rest) = some (⟨[], name⟩, '=' :: rest) := by
  rw [readKey?, skipSpaces_of_head (h.head_isSpace _), readKeyPart?_bare h]
  rfl

-- ---------------------------------------------------------------------------
-- Values
-- ---------------------------------------------------------------------------

/-- A string begins with a mark. -/
theorem writeString_eq_cons (cs : List Char) :
    ∃ mark more, writeString cs = mark :: more ∧ (mark = '\x22' ∨ mark = '\x27') := by
  obtain ⟨more, hmore⟩ := (StringForm.best cs).delimiter_eq_cons
  unfold writeString StringForm.write
  rw [hmore]
  refine ⟨(StringForm.best cs).mark, _, rfl, ?_⟩
  unfold StringForm.mark
  split
  · exact .inl rfl
  · exact .inr rfl

theorem readScalar?_writeString (cs rest : List Char) :
    readScalar? (writeString cs ++ '\n' :: rest) =
      some (.text (String.ofList cs), '\n' :: rest) := by
  have hread : readString? (writeString cs ++ '\n' :: rest) = some (cs, '\n' :: rest) :=
    readString?_writeString cs (Text.forall_mem_head?_cons (by decide))
  obtain ⟨f, hf, -⟩ := Option.bind_eq_some_iff.mp hread
  unfold readScalar?
  rw [hf, if_pos Option.isSome_some, hread]
  rfl

theorem readValue?_writeString (cs : List Char) (depth fuel : Nat) (rest : List Char) :
    readValue? depth (fuel + 1) (writeString cs ++ '\n' :: rest) =
      some (.scalar (.text (String.ofList cs)), '\n' :: rest) := by
  have hscalar := readScalar?_writeString cs rest
  obtain ⟨mark, more, hcons, hmark⟩ := writeString_eq_cons cs
  have hne : mark ≠ '[' ∧ mark ≠ '\x7b' := by
    rcases hmark with rfl | rfl <;> decide
  rw [hcons, List.cons_append] at hscalar ⊢
  rw [readValue?, hscalar]
  · rfl
  · nofun
  · exact fun _ _ _ h => hne.1 (List.cons.inj h).1
  · exact fun _ _ _ h => hne.2 (List.cons.inj h).1

-- ---------------------------------------------------------------------------
-- Lines
-- ---------------------------------------------------------------------------

/-- A member on a line of its own, in front of other lines. -/
def memberText (name : String) (cs rest : List Char) : List Char :=
  name.toList ++ ' ' :: '=' :: ' ' :: (writeString cs ++ '\n' :: rest)

theorem readMember?_line (h : IsBareKey name) (cs rest : List Char) :
    readMember? (memberText name cs rest) =
      some (.member ⟨[], name⟩ (.scalar (.text (String.ofList cs))), '\n' :: rest) := by
  obtain ⟨mark, more, hcons, hmark⟩ := writeString_eq_cons cs
  have hspaces : skipSpaces (' ' :: (writeString cs ++ '\n' :: rest)) =
      writeString cs ++ '\n' :: rest := by
    rw [hcons]
    rcases hmark with rfl | rfl <;> rfl
  have hvalue : readValue? maxDepth (writeString cs ++ '\n' :: rest).length
      (writeString cs ++ '\n' :: rest) =
        some (.scalar (.text (String.ofList cs)), '\n' :: rest) := by
    rw [show (writeString cs ++ '\n' :: rest).length = (more ++ '\n' :: rest).length + 1 by
      rw [hcons]; rfl]
    exact readValue?_writeString cs _ _ rest
  have hkey : readKey? maxDepth (memberText name cs rest) =
      some (⟨[], name⟩, '=' :: ' ' :: (writeString cs ++ '\n' :: rest)) :=
    readKey?_bare h (maxDepth - 1) _
  unfold readMember?
  rw [hkey]
  show (readValue? maxDepth (skipSpaces (' ' :: (writeString cs ++ '\n' :: rest))).length
    (skipSpaces (' ' :: (writeString cs ++ '\n' :: rest)))).bind _ = _
  rw [hspaces, hvalue]
  rfl

theorem readEntries?_member (h : IsBareKey name) (cs rest : List Char) (fuel : Nat) :
    readEntries? (fuel + 1) (memberText name cs rest) =
      (readEntries? fuel rest).map
        (.member ⟨[], name⟩ (.scalar (.text (String.ofList cs))) :: ·) := by
  obtain ⟨c, more, hname, hne⟩ := h.exists_cons
  have hgap : skipGap false (memberText name cs rest) = memberText name cs rest := by
    have hspace := h.head_isSpace [] c (by rw [hname]; rfl)
    unfold memberText
    rw [hname, List.cons_append, skipGap, if_neg (hne _ (by decide)), if_neg Bool.false_ne_true,
      hspace, if_neg Bool.false_ne_true, if_neg (hne _ (by decide))]
  have hhead : ¬ (memberText name cs rest).head? = some '[' := by
    rw [memberText, hname]
    exact fun h => hne '[' (by decide) (Option.some.inj h)
  rw [readEntries?, hgap]
  split
  · next hnil =>
    rw [memberText, hname] at hnil
    cases hnil
  · have hend : skipLineRest? ('\n' :: rest) = some rest := rfl
    rw [if_neg hhead, readMember?_line h, Option.bind_eq_bind, Option.bind_some]
    dsimp only
    rw [hend, Option.bind_eq_bind, Option.bind_some]
    cases readEntries? fuel rest with
    | none => rfl
    | some entries => rfl

-- ---------------------------------------------------------------------------
-- Documents of texts
-- ---------------------------------------------------------------------------

/-- A document with the texts as its members, a line for each. -/
def textLines : List (String × String) → List Char
  | [] => []
  | (name, value) :: rest => memberText name value.toList (textLines rest)

/-- A text as a node. -/
def textNode (value : String) : Node :=
  .scalar (.text value)

variable {members : List (String × String)}

theorem length_textLines (members : List (String × String)) :
    members.length ≤ (textLines members).length := by
  induction members with
  | nil => exact Nat.le_refl 0
  | cons m members ih =>
    rw [textLines, memberText]
    simp only [List.length_append, List.length_cons]
    omega

theorem shows_textLines (h : ∀ m ∈ members, IsBareKey m.1) :
    ∀ c ∈ textLines members, isControl c = false := by
  induction members with
  | nil => exact nofun
  | cons m members ih =>
    obtain ⟨hm, hmembers⟩ := List.forall_mem_cons.mp h
    have hkey : ∀ c ∈ m.1.toList, isControl c = false := fun c hc => hm.shows c hc
    rw [textLines, memberText]
    simp only [List.forall_mem_append, List.forall_mem_cons]
    exact ⟨hkey, by decide, by decide, by decide, shows_writeString _, by decide, ih hmembers⟩

theorem head_textLines (h : ∀ m ∈ members, IsBareKey m.1) :
    (textLines members).head? ≠ some '\ufeff' := by
  cases members with
  | nil => exact nofun
  | cons m members =>
    obtain ⟨c, cs, hname, hne⟩ := (h m (List.mem_cons_self ..)).exists_cons
    rw [textLines, memberText, hname]
    exact fun hc => hne _ (by decide) (Option.some.inj hc)

theorem readEntries?_textLines (h : ∀ m ∈ members, IsBareKey m.1) {fuel : Nat}
    (hfuel : members.length < fuel) : readEntries? fuel (textLines members) =
      some (members.map fun m => .member ⟨[], m.1⟩ (textNode m.2)) := by
  induction members generalizing fuel with
  | nil =>
    obtain ⟨fuel, rfl⟩ := Nat.exists_eq_succ_of_ne_zero (Nat.ne_of_gt hfuel)
    rfl
  | cons m members ih =>
    obtain ⟨hm, hmembers⟩ := List.forall_mem_cons.mp h
    obtain ⟨fuel, rfl⟩ := Nat.exists_eq_succ_of_ne_zero (Nat.ne_of_gt (Nat.zero_lt_of_lt hfuel))
    rw [textLines, readEntries?_member hm, ih hmembers (Nat.lt_of_succ_lt_succ hfuel),
      String.ofList_toList]
    rfl

theorem sections_texts (members : List (String × String)) :
    sections (members.map fun m => .member ⟨[], m.1⟩ (textNode m.2)) =
      (members.map fun m => (⟨[], m.1⟩, textNode m.2), []) := by
  induction members with
  | nil => rfl
  | cons m members ih =>
    rw [List.map_cons, sections, ih]
    rfl

/-- Members with other names than those before are added behind them. -/
theorem fill_texts {before : Members} (hnew : ∀ m ∈ members, before.lookup m.1 = none)
    (hdistinct : (members.map Prod.fst).Nodup) :
    Members.fill (members.map fun m => (⟨[], m.1⟩, textNode m.2)) before =
      some (before ++ members.map fun m => (m.1, textNode m.2)) := by
  induction members generalizing before with
  | nil => rw [List.map_nil, List.map_nil, List.append_nil]; rfl
  | cons m members ih =>
    obtain ⟨hm, hmembers⟩ := List.forall_mem_cons.mp hnew
    rw [List.map_cons, List.nodup_cons] at hdistinct
    have hassign : before.assign [] m.1 (textNode m.2) =
        some (before ++ [(m.1, textNode m.2)]) := by
      rw [Members.assign, hm]
    have hstill : ∀ n ∈ members, (before ++ [(m.1, textNode m.2)]).lookup n.1 = none := by
      intro n hn
      have hne : n.1 ≠ m.1 := fun h => hdistinct.1 (h ▸ List.mem_map_of_mem hn)
      rw [List.lookup_append, hmembers n hn, List.lookup_cons, beq_eq_false_iff_ne.mpr hne]
      rfl
    have hrest := ih hstill hdistinct.2
    unfold Members.fill at hrest ⊢
    rw [List.map_cons, List.foldlM_cons]
    show (before.assign [] m.1 (textNode m.2)).bind _ = _
    rw [hassign, Option.bind_some, hrest, List.append_assoc]
    rfl

/-- A document of texts with distinct bare keys is read as these texts. -/
theorem readDocument?_textLines (hbare : ∀ m ∈ members, IsBareKey m.1)
    (hdistinct : (members.map Prod.fst).Nodup) :
    readDocument? (textLines members) = some (members.map fun m => (m.1, textNode m.2)) := by
  have hentries := readEntries?_textLines hbare (Nat.lt_succ_of_le (length_textLines members))
  have hnew : ∀ m ∈ members, ([] : Members).lookup m.1 = none := fun _ _ => rfl
  have hfill := fill_texts hnew hdistinct
  unfold readDocument?
  rw [if_neg (head_textLines hbare), normalLines_of_shows (shows_textLines hbare),
    Option.bind_eq_bind, Option.bind_some, hentries, Option.bind_eq_bind, Option.bind_some]
  dsimp only
  rw [sections_texts, hfill]
  rfl

end ClusterFilter.Toml
