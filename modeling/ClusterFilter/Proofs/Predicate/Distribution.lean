import ClusterFilter.Proofs.Predicate.Disjunctive
import Mathlib.Data.List.ProdSigma

/-!
# ClusterFilter — combiners and clauses

The combiners merge nodes, and the expansion folds over the members of a node. That the two fit
together rests on distribution alone: it is associative, with the one empty clause as its unit. So
it makes no difference where a run of members is cut, and the members of two conjunctions that were
merged into one node build the clauses that the two build by themselves.

Nothing is said up to equivalence here: the clauses are the same in the same order. The trees are of
any shape, with nodes without members, with one member, or with members of the node's own kind.

Main results:

* `distribute_assoc`, `getElem?_distribute` — distribution is associative, and which clause it puts
  where.
* `expand_and`, `expand_or` — a conjunction distributes the clauses of its sides, a disjunction
  appends them.
* `combination_homomorphic` — these together with the laws of the trees.
-/

namespace ClusterFilter.Predicate

-- ---------------------------------------------------------------------------
-- Distribution
-- ---------------------------------------------------------------------------

section

variable (a b c : List Clause) (clause : Clause)

theorem distribute_cons :
    distribute (clause :: a) b = b.map (clause ++ ·) ++ distribute a b :=
  rfl

/-- The empty clause alone is a unit on the left. -/
theorem unit_distribute : distribute [[]] a = a := by
  simp [distribute]

/-- Two distributions after each other may be made in either order. -/
theorem distribute_assoc :
    distribute (distribute a b) c = distribute a (distribute b c) := by
  simp only [distribute, List.flatMap_assoc, List.flatMap_map, List.map_flatMap, List.map_map,
    Function.comp_def, List.append_assoc]

/-- Each clause of one list is put together with each of the other, in the order of the pairs. -/
theorem distribute_eq_map_product :
    distribute a b = (a ×ˢ b).map fun pair => pair.1 ++ pair.2 := by
  simp only [distribute, SProd.sprod, List.product, List.map_flatMap, List.map_map,
    Function.comp_def]

variable {a b} in
/-- The clauses at two positions are put together where the pair of the positions stands in the
lexicographic order. -/
theorem getElem?_distribute {i j : Nat} (hi : i < a.length) (hj : j < b.length) :
    (distribute a b)[i * b.length + j]? = some (a[i] ++ b[j]) := by
  induction a generalizing i with
  | nil => cases hi
  | cons clause a ih =>
    rw [distribute_cons]
    cases i with
    | zero =>
      rw [Nat.zero_mul, Nat.zero_add, List.getElem?_append_left (by rwa [List.length_map])]
      rw [List.getElem?_map, List.getElem?_eq_getElem hj]
      rfl
    | succ i =>
      have hbehind : (i + 1) * b.length + j = b.length + (i * b.length + j) := by
        rw [Nat.succ_mul]
        omega
      rw [hbehind, List.getElem?_append_right (by rw [List.length_map]; omega), List.length_map,
        Nat.add_sub_cancel_left]
      exact ih (Nat.lt_of_succ_lt_succ hi)

end

-- ---------------------------------------------------------------------------
-- Members of merged nodes
-- ---------------------------------------------------------------------------

theorem expandProduct_append (sofar : List Clause) (ps qs : List Predicate) :
    expandProduct sofar (ps ++ qs) = expandProduct (expandProduct sofar ps) qs := by
  induction ps generalizing sofar with
  | nil => rfl
  | cons p ps ih => rw [List.cons_append, expandProduct, expandProduct, ih]

/-- What was built before is distributed over the product of the members that follow. -/
theorem expandProduct_eq_distribute (sofar : List Clause) (ps : List Predicate) :
    expandProduct sofar ps = distribute sofar (expandProduct [[]] ps) := by
  induction ps generalizing sofar with
  | nil => simp [expandProduct, distribute]
  | cons p ps ih =>
    rw [expandProduct, ih, expandProduct, unit_distribute, ih p.expand, distribute_assoc]

theorem expandSum_append (ps qs : List Predicate) :
    expandSum (ps ++ qs) = expandSum ps ++ expandSum qs := by
  induction ps with
  | nil => rfl
  | cons p ps ih => rw [List.cons_append, expandSum, expandSum, ih, List.append_assoc]

/-- A predicate read as a conjunction has its own clauses. -/
theorem expandProduct_conjuncts (p : Predicate) : expandProduct [[]] p.conjuncts = p.expand := by
  have hsingle : ∀ p : Predicate, expandProduct [[]] [p] = p.expand := fun p => by
    rw [expandProduct, expandProduct, unit_distribute]
  cases p with
  | leaf c => exact hsingle _
  | allOf ps => rw [conjuncts, expand]
  | anyOf ps => exact hsingle _

/-- A predicate read as a disjunction has its own clauses. -/
theorem expandSum_disjuncts (p : Predicate) : expandSum p.disjuncts = p.expand := by
  have hsingle : ∀ p : Predicate, expandSum [p] = p.expand := fun p => by
    rw [expandSum, expandSum, List.append_nil]
  cases p with
  | leaf c => exact hsingle _
  | allOf ps => exact hsingle _
  | anyOf ps => rw [disjuncts, expand]

-- ---------------------------------------------------------------------------
-- Combinations
-- ---------------------------------------------------------------------------

/-- The clauses of a conjunction are those of the left side distributed over those of the right
side. -/
theorem expand_and (p q : Predicate) : (p.and q).expand = distribute p.expand q.expand := by
  rw [and, expand, expandProduct_append, expandProduct_eq_distribute, expandProduct_conjuncts,
    expandProduct_conjuncts]

/-- The clauses of a disjunction are those of the left side and then those of the right side. -/
theorem expand_or (p q : Predicate) : (p.or q).expand = p.expand ++ q.expand := by
  rw [or, expand, expandSum_append, expandSum_disjuncts, expandSum_disjuncts]

/--
**Laws of the combiners.** On trees of any shape the combiners are associative. Sizes are added, and
truth values are joined by the connectives. The clauses of a disjunction are those of its sides one
after another. The clauses of a conjunction are the pairs of clauses of its sides, ordered by the
position on the left and then by the one on the right. The operators `&&&` and `|||` are the
combiners.
-/
theorem combination_homomorphic (p q r : Predicate) :
    ((p.and q).and r = p.and (q.and r) ∧ (p.or q).or r = p.or (q.or r)) ∧
    ((p.and q).size = p.size + q.size ∧ (p.or q).size = p.size + q.size) ∧
    (∀ v, (p.and q).holds v = (p.holds v && q.holds v) ∧
      (p.or q).holds v = (p.holds v || q.holds v)) ∧
    (p.or q).expand = p.expand ++ q.expand ∧
    ((p.and q).expand = (p.expand ×ˢ q.expand).map (fun pair => pair.1 ++ pair.2) ∧
      (p.and q).expand.length = p.expand.length * q.expand.length ∧
      ∀ (i : Fin p.expand.length) (j : Fin q.expand.length),
        (p.and q).expand[i * q.expand.length + j]? = some (p.expand[i] ++ q.expand[j])) ∧
    (p &&& q) = p.and q ∧ (p ||| q) = p.or q := by
  refine ⟨⟨and_assoc p q r, or_assoc p q r⟩, ⟨size_and p q, size_or p q⟩,
    fun v => ⟨holds_and v p q, holds_or v p q⟩, expand_or p q, ?_, rfl, rfl⟩
  rw [expand_and]
  exact ⟨distribute_eq_map_product .., length_distribute ..,
    fun i j => getElem?_distribute i.isLt j.isLt⟩

/-- The left side varies last. -/
example (a b c d : Condition) :
    (((leaf a).or (leaf b)).and ((leaf c).or (leaf d))).expand = [[a, c], [a, d], [b, c], [b, d]] :=
  rfl

end ClusterFilter.Predicate
