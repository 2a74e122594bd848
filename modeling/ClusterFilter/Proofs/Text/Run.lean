import Mathlib.Data.List.TakeWhile

/-!
# ClusterFilter — runs of characters

The longest run of characters with a property is what `takeWhile` takes off the front of a text.
It is known from its characters and from the one that follows it.
-/

namespace ClusterFilter.Text

variable {p : Char → Bool}

theorem forall_mem_head?_cons {P : Char → Prop} {x : Char} {cs : List Char} (h : P x) :
    ∀ y ∈ (x :: cs).head?, P y := by
  intro y hy
  rw [List.head?_cons, Option.mem_some_iff] at hy
  exact hy ▸ h

theorem head?_dropWhile_eq_false {cs : List Char} : ∀ x ∈ (cs.dropWhile p).head?, p x = false := by
  intro x hx
  have := List.head?_dropWhile_not p cs
  rw [Option.mem_def.mp hx] at this
  simpa using this

/-- Nothing is taken off a text whose first character does not have the property. -/
theorem takeWhile_eq_nil_of_head {cs : List Char} (h : ∀ x ∈ cs.head?, p x = false) :
    cs.takeWhile p = [] ∧ cs.dropWhile p = cs := by
  cases cs with
  | nil => exact ⟨rfl, rfl⟩
  | cons x cs =>
    have hx : ¬ p x = true := by
      rw [h x rfl]
      exact Bool.false_ne_true
    exact ⟨List.takeWhile_cons_of_neg hx, List.dropWhile_cons_of_neg hx⟩

/-- A run ends where a character without the property follows. -/
theorem takeWhile_append_of_head {run rest : List Char} (hrun : ∀ x ∈ run, p x = true)
    (hrest : ∀ x ∈ rest.head?, p x = false) :
    (run ++ rest).takeWhile p = run ∧ (run ++ rest).dropWhile p = rest := by
  obtain ⟨htake, hdrop⟩ := takeWhile_eq_nil_of_head hrest
  rw [List.takeWhile_append_of_pos hrun, List.dropWhile_append_of_pos hrun, htake, hdrop,
    List.append_nil]
  exact ⟨rfl, rfl⟩

theorem takeWhile_eq_self {run : List Char} (hrun : ∀ x ∈ run, p x = true) :
    run.takeWhile p = run ∧ run.dropWhile p = [] := by
  have h : (run ++ []).takeWhile p = run ∧ (run ++ []).dropWhile p = [] :=
    takeWhile_append_of_head hrun nofun
  rwa [List.append_nil] at h

end ClusterFilter.Text
