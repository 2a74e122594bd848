import ClusterFilter.CommandLine.Printing
import ClusterFilter.Proofs.CommandLine.Action
import ClusterFilter.Proofs.Outcome

/-!
# ClusterFilter — what printing comes to

A filter and a list of fields are printed as a whole or not at all. A filter can fail only while its
disjunctive form is made, and a list of fields only at the name of its format; both come before
anything is printed, also where the rest is printed line by line.

Main results:

* `succeeds_printPredicate`, `leads_printPredicate_error` — when a filter is printed.
* `succeeds_printFields`, `leads_printFields_error` — when a list of fields is printed.
-/

namespace ClusterFilter.CommandLine

variable {σ : Type} (s : σ)

-- ---------------------------------------------------------------------------
-- Filters
-- ---------------------------------------------------------------------------

/-- A filter fails to be printed before any of it is printed. -/
theorem leads_printPredicate_error {p : Predicate} {output : OutputFormat} {err : Error}
    (hout : output ≠ .text) (h : p.disjunctiveForm = .error err) :
    Leads (printPredicate p output) s [] (.error err) s := by
  have hwire : p.wire = .error err := bind_ok_eq_error.mpr h
  cases output with
  | json => exact (leads_known hwire s).fail
  | yaml => exact (leads_known hwire s).fail
  | table => exact (leads_known h s).fail
  | text => exact absurd rfl hout

theorem succeeds_printClauseRows (number : Nat) (clauses : List Clause) :
    Succeeds (printClauseRows number clauses) s s := by
  induction clauses generalizing number with
  | nil => exact ⟨_, leads_pure () s⟩
  | cons clause clauses ih => exact (leads_printEach _ clause s).succeeds (ih (number + 1))

/-- A filter can be printed as an expression always, and in the other formats if it has a
disjunctive form. -/
theorem succeeds_printPredicate {p : Predicate} {output : OutputFormat}
    (h : output ≠ .text → ∃ clauses, p.disjunctiveForm = .ok clauses) :
    Succeeds (printPredicate p output) s s := by
  cases output with
  | json | yaml =>
    obtain ⟨clauses, hclauses⟩ := h nofun
    obtain ⟨document, hwire⟩ : ∃ document, p.wire = .ok document :=
      ⟨_, bind_eq_ok.mpr ⟨clauses, hclauses, rfl⟩⟩
    exact (leads_known hwire s).succeeds (succeeds_print _ s)
  | table =>
    obtain ⟨clauses, hclauses⟩ := h nofun
    exact (leads_known hclauses s).succeeds ((leads_print _ s).succeeds ((leads_print _ s).succeeds
      (succeeds_printClauseRows s 1 clauses)))
  | text => exact succeeds_print _ s

/-- Printing a filter leaves the world, whether it fails or not. -/
theorem reads_printPredicate (p : Predicate) (output : OutputFormat) :
    Reads (printPredicate (m := StateM σ) p output) := by
  intro s
  cases hform : p.disjunctiveForm with
  | ok clauses =>
    obtain ⟨text, h⟩ := succeeds_printPredicate s fun _ => ⟨clauses, hform⟩
    exact ⟨text, .ok (), h⟩
  | error err =>
    by_cases hout : output ≠ .text
    · exact ⟨_, _, leads_printPredicate_error s hout hform⟩
    · obtain ⟨text, h⟩ := succeeds_printPredicate s fun h => absurd h hout
      exact ⟨text, .ok (), h⟩

-- ---------------------------------------------------------------------------
-- Fields
-- ---------------------------------------------------------------------------

/-- The names of the formats in which fields are listed. -/
def listFormats : List String :=
  ["json", "yaml", "yml", "table", "text"]

theorem mem_listFormats {format : String} : format ∈ listFormats ↔
    format = "json" ∨ (format = "yaml" ∨ format = "yml") ∨ format = "table" ∨ format = "text" := by
  simp only [listFormats, List.mem_cons, List.not_mem_nil, or_false, or_assoc]

theorem succeeds_printFieldTable (g : Grammar) : Succeeds (printFieldTable g) s s := by
  refine (leads_print _ s).succeeds ((leads_print _ s).succeeds
    ((leads_printEach _ _ s).succeeds ?_))
  split
  · exact (leads_print _ s).succeeds (succeeds_print _ s)
  · exact ⟨_, leads_pure () s⟩

theorem succeeds_printFields (g : Grammar) {format : String} (h : format ∈ listFormats) :
    Succeeds (printFields g format) s s := by
  have hformat := mem_listFormats.mp h
  unfold printFields
  split
  · exact succeeds_print _ s
  · next hjson =>
    split
    · exact succeeds_print _ s
    · next hyaml =>
      rw [if_pos ((hformat.resolve_left hjson).resolve_left hyaml)]
      exact succeeds_printFieldTable s g

/-- Fields in a format that there is not are no more than an error. -/
theorem leads_printFields_error (g : Grammar) {format : String} (h : format ∉ listFormats) :
    Leads (printFields g format) s [] (.error (.settings (.unknownListFormat format))) s := by
  rw [mem_listFormats, not_or, not_or] at h
  obtain ⟨hjson, hyaml, htable⟩ := h
  unfold printFields
  rw [if_neg hjson, if_neg hyaml, if_neg htable]
  exact leads_known rfl s

theorem reads_printFields (g : Grammar) (format : String) :
    Reads (printFields (m := StateM σ) g format) := by
  intro s
  by_cases h : format ∈ listFormats
  · obtain ⟨text, hprints⟩ := succeeds_printFields s g h
    exact ⟨text, .ok (), hprints⟩
  · exact ⟨_, _, leads_printFields_error s g h⟩

end ClusterFilter.CommandLine
