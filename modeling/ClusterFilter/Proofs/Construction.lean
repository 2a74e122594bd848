import ClusterFilter.Proofs.Canonical

/-!
# ClusterFilter — trees that stay flat

Predicates come from compiled texts and from single conditions, and are combined and negated any
number of times. Whatever the order, no tree on the way has a node of fewer than two members or a
member of the node's own kind.

A compiled tree is also bounded in depth. A group leaves no node behind where it merges into what
stands around it; where it does leave one, that is a disjunction below a conjunction, and a pair of
parentheses was open for it. So the depth that counts in a text again (`choiceDepth`) is bounded by
the nesting of the text that was compiled.

Main results:

* `Expr.flattened_lower` — an expression is lowered to a flattened tree.
* `Expr.choiceDepth_lower` — its disjunctions below conjunctions are no deeper than its parentheses.
* `flattened_of_run` — both, over whole runs of operations.
-/

namespace ClusterFilter

-- ---------------------------------------------------------------------------
-- The depth of combinations
-- ---------------------------------------------------------------------------

namespace Predicate

theorem choiceDepthAll_append (isMember : Bool) (ps qs : List Predicate) :
    choiceDepthAll isMember (ps ++ qs) =
      max (choiceDepthAll isMember ps) (choiceDepthAll isMember qs) := by
  induction ps with
  | nil => simp [choiceDepthAll]
  | cons p ps ih => simp [choiceDepthAll, ih, Nat.max_assoc]

theorem choiceDepthAll_disjuncts (p : Predicate) :
    choiceDepthAll false p.disjuncts = p.choiceDepth false := by
  cases p <;> simp [disjuncts, choiceDepthAll, choiceDepth]

/-- Below a conjunction a tree gets one deeper at most, and only if it is a disjunction. -/
theorem choiceDepthAll_conjuncts_le (p : Predicate) :
    choiceDepthAll true p.conjuncts ≤ p.choiceDepth false + 1 := by
  cases p <;> simp [conjuncts, choiceDepthAll, choiceDepth]

theorem choiceDepth_or (p q : Predicate) :
    (p.or q).choiceDepth false = max (p.choiceDepth false) (q.choiceDepth false) := by
  rw [or, choiceDepth, choiceDepthAll_append, choiceDepthAll_disjuncts, choiceDepthAll_disjuncts]
  simp

theorem choiceDepth_and (p q : Predicate) :
    (p.and q).choiceDepth false =
      max (choiceDepthAll true p.conjuncts) (choiceDepthAll true q.conjuncts) := by
  rw [and, choiceDepth, choiceDepthAll_append]

end Predicate

-- ---------------------------------------------------------------------------
-- Lowered expressions
-- ---------------------------------------------------------------------------

section

variable [Build]

mutual

/-- An expression is lowered to a flattened tree. -/
theorem Expr.flattened_lower {r : Resource} {p : Predicate} :
    ∀ {e : Expr}, e.lower r = .ok p → p.Flattened
  | .one t, h => by
    rw [Expr.lower_one] at h
    exact Term.flattened_lower h
  | .more t rest, h => by
    obtain ⟨p₁, h₁, p₂, h₂, rfl⟩ := Expr.lower_more_eq_ok.mp h
    exact (Term.flattened_lower h₁).or (Expr.flattened_lower h₂)

theorem Term.flattened_lower {r : Resource} {p : Predicate} :
    ∀ {t : Term}, t.lower r = .ok p → p.Flattened
  | .one f, h => by
    rw [Term.lower_one] at h
    exact Factor.flattened_lower h
  | .more f rest, h => by
    obtain ⟨p₁, h₁, p₂, h₂, rfl⟩ := Term.lower_more_eq_ok.mp h
    exact (Factor.flattened_lower h₁).and (Term.flattened_lower h₂)

theorem Factor.flattened_lower {r : Resource} {p : Predicate} :
    ∀ {f : Factor}, f.lower r = .ok p → p.Flattened
  | .comparison c, h => by
    obtain ⟨d, rfl, -⟩ := Comparison.lower_states (by rwa [Factor.lower] at h)
    exact .leaf d
  | .group e, h => by
    rw [Factor.lower] at h
    exact Expr.flattened_lower h

end

mutual

/-- The disjunctions below conjunctions are no deeper in the tree than parentheses nest in the
expression. -/
theorem Expr.choiceDepth_lower {r : Resource} {p : Predicate} :
    ∀ {e : Expr}, e.lower r = .ok p → p.choiceDepth false ≤ e.nesting
  | .one t, h => by
    rw [Expr.lower_one] at h
    exact (Term.choiceDepth_lower h).1
  | .more t rest, h => by
    obtain ⟨p₁, h₁, p₂, h₂, rfl⟩ := Expr.lower_more_eq_ok.mp h
    have hterm := (Term.choiceDepth_lower h₁).1
    have hrest := Expr.choiceDepth_lower h₂
    rw [Predicate.choiceDepth_or, Expr.nesting]
    omega

/-- A term may become part of a larger conjunction, so that its conjuncts are measured as well. -/
theorem Term.choiceDepth_lower {r : Resource} {p : Predicate} :
    ∀ {t : Term}, t.lower r = .ok p →
      p.choiceDepth false ≤ t.nesting ∧ Predicate.choiceDepthAll true p.conjuncts ≤ t.nesting
  | .one f, h => by
    rw [Term.lower_one] at h
    exact Factor.choiceDepth_lower h
  | .more f rest, h => by
    obtain ⟨p₁, h₁, p₂, h₂, rfl⟩ := Term.lower_more_eq_ok.mp h
    have hfactor := (Factor.choiceDepth_lower h₁).2
    have hrest := (Term.choiceDepth_lower h₂).2
    have hdepth : (p₁.and p₂).choiceDepth false ≤ (Term.more f rest).nesting := by
      rw [Predicate.choiceDepth_and, Term.nesting]
      omega
    exact ⟨hdepth, hdepth⟩

theorem Factor.choiceDepth_lower {r : Resource} {p : Predicate} :
    ∀ {f : Factor}, f.lower r = .ok p →
      p.choiceDepth false ≤ f.nesting ∧ Predicate.choiceDepthAll true p.conjuncts ≤ f.nesting
  | .comparison c, h => by
    obtain ⟨d, rfl, -⟩ := Comparison.lower_states (by rwa [Factor.lower] at h)
    exact ⟨Nat.zero_le _, Nat.zero_le _⟩
  | .group e, h => by
    rw [Factor.lower] at h
    have hgroup := Expr.choiceDepth_lower h
    have hmember := p.choiceDepthAll_conjuncts_le
    rw [Factor.nesting]
    omega

end

/-- A compiled predicate is flattened, and no deeper than parentheses may nest. -/
theorem Resource.shape_of_compile {r : Resource} {text : String} {p : Predicate}
    (h : r.compile text = .ok p) : p.Flattened ∧ p.choiceDepth false ≤ Grammar.maxNesting := by
  obtain ⟨e, he, hlower⟩ := Resource.compile_eq_ok_iff.mp h
  obtain ⟨g, -, hparse⟩ := bind_eq_ok.mp he
  have hnesting := (Grammar.parse_sound hparse).2
  exact ⟨Expr.flattened_lower hlower, Nat.le_trans (Expr.choiceDepth_lower hlower) hnesting⟩

end

-- ---------------------------------------------------------------------------
-- Runs of operations
-- ---------------------------------------------------------------------------

namespace Predicate

/-- What one operation makes where the predicates of `pool` are at hand: a compiled text of any
resource, a single condition, a combination by method or by operator, or a negation that
succeeds. -/
inductive Made [Build] (pool : List Predicate) : Predicate → Prop where
  | compiled {r : Resource} {text : String} {p : Predicate} : r.compile text = .ok p → Made pool p
  | condition (c : Condition) : Made pool (leaf c)
  | and {p q : Predicate} : p ∈ pool → q ∈ pool → Made pool (p.and q)
  | or {p q : Predicate} : p ∈ pool → q ∈ pool → Made pool (p.or q)
  | andOp {p q : Predicate} : p ∈ pool → q ∈ pool → Made pool (p &&& q)
  | orOp {p q : Predicate} : p ∈ pool → q ∈ pool → Made pool (p ||| q)
  | negation {p q : Predicate} : p ∈ pool → p.negate = .ok q → Made pool q

/-- A run makes one predicate after another from those that it has made; the newest comes
first. -/
inductive Run [Build] : List Predicate → Prop where
  | start : Run []
  | step {pool : List Predicate} {p : Predicate} : Run pool → Made pool p → Run (p :: pool)

/-- One operation on flattened trees makes a flattened tree. -/
theorem Made.flattened [Build] {pool : List Predicate} {p : Predicate} (h : Made pool p)
    (hpool : ∀ q ∈ pool, Flattened q) : Flattened p := by
  cases h with
  | compiled h => exact (Resource.shape_of_compile h).1
  | condition c => exact .leaf c
  | and hp hq => exact (hpool _ hp).and (hpool _ hq)
  | or hp hq => exact (hpool _ hp).or (hpool _ hq)
  | andOp hp hq => exact (hpool _ hp).and (hpool _ hq)
  | orOp hp hq => exact (hpool _ hp).or (hpool _ hq)
  | negation hp h => exact (hpool _ hp).negate h

theorem Run.flattened [Build] {pool : List Predicate} (h : Run pool) : ∀ p ∈ pool, Flattened p := by
  induction h with
  | start => simp
  | step _ hmade ih => exact List.forall_mem_cons.mpr ⟨hmade.flattened ih, ih⟩

/--
**Flat trees over whole runs.** Every predicate that a run makes is flattened, and in a compiled
one no way from the root to a condition meets more disjunctions below conjunctions than parentheses
may be open at once.
-/
theorem flattened_of_run [Build] :
    (∀ pool, Run pool → ∀ p ∈ pool, Flattened p) ∧
      ∀ (r : Resource) (text : String) (p : Predicate), r.compile text = .ok p →
        p.choiceDepth false ≤ Grammar.maxNesting :=
  ⟨fun _ h => h.flattened, fun _ _ _ h => (Resource.shape_of_compile h).2⟩

/-- Completed results of small or large size, as compiled from a text with a group. -/
def doneOfEitherSize : Predicate :=
  .allOf [
    .anyOf [
      .leaf ⟨⟨"size", none⟩, .value .number, .less, .number 1⟩,
      .leaf ⟨⟨"size", none⟩, .value .number, .greater, .number 9⟩],
    .leaf ⟨⟨"status", none⟩, .value .status, .equal, .status ⟨"COMPLETED", 2⟩⟩]

/-- The text is compiled, the predicate negated, and the negation joined with the predicate. -/
theorem flattened_of_run_negated :
    (∃ q, doneOfEitherSize.negate = .ok q ∧ Flattened (q ||| doneOfEitherSize)) ∧
      doneOfEitherSize.choiceDepth false ≤ Grammar.maxNesting := by
  have hcompile : Resource.result.compile "(size < 1 or size > 9) and status = completed" =
      .ok doneOfEitherSize := by
    rfl
  obtain ⟨q, hq⟩ : ∃ q, doneOfEitherSize.negate = .ok q := ⟨_, rfl⟩
  have hone : Run [doneOfEitherSize] := .step .start (.compiled hcompile)
  have htwo : Run [q, doneOfEitherSize] :=
    .step hone (.negation (List.mem_singleton_self _) hq)
  have hthree : Run [q ||| doneOfEitherSize, q, doneOfEitherSize] :=
    .step htwo (.orOp (by simp) (by simp))
  exact ⟨⟨q, hq, flattened_of_run.1 _ hthree _ (by simp)⟩, flattened_of_run.2 _ _ _ hcompile⟩

end Predicate

end ClusterFilter
