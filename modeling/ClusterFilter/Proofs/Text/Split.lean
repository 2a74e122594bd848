import ClusterFilter.Text.Split

/-!
# ClusterFilter — what splitting gives

A text is cut at its first separator, or at all of them. Either way the parts are known from the
text that they make when the separators are put back: no part holds a separator.

Main results:

* `splitFirst?_eq_some_iff`, `splitFirst?_eq_none_iff` — where the first separator is.
* `splitAll_eq_cons_iff` — the first part, and what the rest is split into.
-/

namespace ClusterFilter.Text

variable {separator : Char} {cs a b : List Char}

theorem splitFirst?_eq_none_iff :
    splitFirst? separator cs = none ↔ ∀ x ∈ cs, x ≠ separator := by
  induction cs with
  | nil => exact ⟨fun _ => nofun, fun _ => rfl⟩
  | cons c cs ih =>
    rw [splitFirst?, List.forall_mem_cons]
    split
    · next h => exact ⟨nofun, fun hne => absurd h hne.1⟩
    · next h => rw [Option.map_eq_none_iff, ih, and_iff_right h]

theorem splitFirst?_eq_some_iff :
    splitFirst? separator cs = some (a, b) ↔
      cs = a ++ separator :: b ∧ ∀ x ∈ a, x ≠ separator := by
  induction cs generalizing a with
  | nil => exact ⟨nofun, fun h => absurd h.1.symm (List.append_ne_nil_of_right_ne_nil _ nofun)⟩
  | cons c cs ih =>
    rw [splitFirst?]
    split
    · next h =>
      subst h
      constructor
      · intro heq
        obtain ⟨rfl, rfl⟩ := Prod.mk.inj (Option.some.inj heq)
        exact ⟨rfl, nofun⟩
      · rintro ⟨heq, hne⟩
        cases a with
        | nil =>
          rw [(List.cons.inj heq).2]
        | cons x a =>
          exact absurd (List.cons.inj heq).1.symm (hne x (List.mem_cons_self ..))
    · next h =>
      constructor
      · intro heq
        obtain ⟨⟨a', b'⟩, hsplit, heq⟩ := Option.map_eq_some_iff.mp heq
        obtain ⟨rfl, rfl⟩ := Prod.mk.inj heq
        obtain ⟨rfl, hne⟩ := ih.mp hsplit
        exact ⟨rfl, List.forall_mem_cons.mpr ⟨h, hne⟩⟩
      · rintro ⟨heq, hne⟩
        cases a with
        | nil => exact absurd (List.cons.inj heq).1 h
        | cons x a =>
          obtain ⟨rfl, hcs⟩ := List.cons.inj heq
          rw [ih.mpr ⟨hcs, (List.forall_mem_cons.mp hne).2⟩]
          rfl

/-- A text is split at its first separator, and then the rest is. -/
theorem splitAll_eq (separator : Char) (cs : List Char) :
    splitAll separator cs =
      match splitFirst? separator cs with
      | none => [cs]
      | some (part, rest) => part :: splitAll separator rest := by
  induction cs with
  | nil => rfl
  | cons c cs ih =>
    rw [splitAll, splitFirst?]
    by_cases h : c = separator
    · rw [if_pos h, if_pos h]
    · rw [if_neg h, if_neg h, ih]
      cases splitFirst? separator cs with
      | none => rfl
      | some split => rfl

theorem splitAll_ne_nil (separator : Char) (cs : List Char) : splitAll separator cs ≠ [] := by
  rw [splitAll_eq]
  split <;> exact List.cons_ne_nil _ _

/-- The only part of a text is the text, if it has no separator. -/
theorem splitAll_eq_singleton_iff :
    splitAll separator cs = [a] ↔ cs = a ∧ ∀ x ∈ a, x ≠ separator := by
  rw [splitAll_eq]
  split
  · next h =>
    rw [List.cons.injEq, and_iff_left rfl]
    exact ⟨fun heq => ⟨heq, heq ▸ splitFirst?_eq_none_iff.mp h⟩, And.left⟩
  · next part rest h =>
    constructor
    · exact fun heq => absurd (List.cons.inj heq).2 (splitAll_ne_nil _ _)
    · rintro ⟨rfl, hne⟩
      rw [splitFirst?_eq_none_iff.mpr hne] at h
      cases h

/-- The first of several parts ends at the first separator. -/
theorem splitAll_eq_cons_iff {c : List Char} {parts : List (List Char)} :
    splitAll separator cs = a :: c :: parts ↔
      ∃ rest, cs = a ++ separator :: rest ∧ (∀ x ∈ a, x ≠ separator) ∧
        splitAll separator rest = c :: parts := by
  rw [splitAll_eq]
  split
  · next h =>
    refine ⟨nofun, fun ⟨rest, hcs, hne, _⟩ => ?_⟩
    rw [splitFirst?_eq_some_iff.mpr ⟨hcs, hne⟩] at h
    cases h
  · next part rest h =>
    rw [List.cons.injEq]
    constructor
    · rintro ⟨rfl, hrest⟩
      obtain ⟨hcs, hne⟩ := splitFirst?_eq_some_iff.mp h
      exact ⟨rest, hcs, hne, hrest⟩
    · rintro ⟨rest', hcs, hne, hrest⟩
      rw [splitFirst?_eq_some_iff.mpr ⟨hcs, hne⟩] at h
      obtain ⟨rfl, rfl⟩ := Prod.mk.inj (Option.some.inj h)
      exact ⟨rfl, hrest⟩

end ClusterFilter.Text
