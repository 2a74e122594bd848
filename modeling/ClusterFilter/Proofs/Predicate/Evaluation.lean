import ClusterFilter.Predicate.Basic

/-!
# ClusterFilter — what a predicate says

A predicate holds or fails under an assignment of truth values to conditions: a conjunction holds
when all of its members do, and a disjunction when some member does. So the conjunction without
members always holds, and the disjunction without members never does. The combiners `and` and `or`
merge nodes of one kind; here is shown that this changes neither what a tree says nor which
conditions it holds, in which order.

Main results:

* `holds_and`, `holds_or` — the combiners are the boolean connectives.
* `leaves_and`, `leaves_or` — a combination has the conditions of the left side and then those of
  the right side.
* `size_eq_length_leaves` — the size of a tree counts its conditions.
-/

namespace ClusterFilter.Predicate

-- ---------------------------------------------------------------------------
-- Induction
-- ---------------------------------------------------------------------------

/-- Induction over predicates, where a property of a node may be derived from that of each
member. -/
@[elab_as_elim]
theorem treeInduction {motive : Predicate → Prop}
    (leaf : ∀ c, motive (leaf c))
    (allOf : ∀ ps, (∀ p ∈ ps, motive p) → motive (allOf ps))
    (anyOf : ∀ ps, (∀ p ∈ ps, motive p) → motive (anyOf ps))
    (p : Predicate) : motive p :=
  Predicate.rec (motive_2 := fun ps => ∀ p ∈ ps, motive p) leaf allOf anyOf
    (fun _ hp => absurd hp List.not_mem_nil)
    (fun _ _ hp hps => List.forall_mem_cons.mpr ⟨hp, hps⟩) p

-- ---------------------------------------------------------------------------
-- Truth
-- ---------------------------------------------------------------------------

mutual

/-- Whether the predicate holds where `v` tells which conditions do. -/
def holds (v : Condition → Bool) : Predicate → Bool
  | leaf c => v c
  | allOf children => allHold v children
  | anyOf children => someHolds v children

/-- Whether all members hold. -/
def allHold (v : Condition → Bool) : List Predicate → Bool
  | [] => true
  | p :: ps => p.holds v && allHold v ps

/-- Whether some member holds. -/
def someHolds (v : Condition → Bool) : List Predicate → Bool
  | [] => false
  | p :: ps => p.holds v || someHolds v ps

end

section

variable (v : Condition → Bool)

theorem allHold_append (ps qs : List Predicate) :
    allHold v (ps ++ qs) = (allHold v ps && allHold v qs) := by
  induction ps with
  | nil => rw [List.nil_append, allHold, Bool.true_and]
  | cons p ps ih => rw [List.cons_append, allHold, allHold, ih, Bool.and_assoc]

theorem someHolds_append (ps qs : List Predicate) :
    someHolds v (ps ++ qs) = (someHolds v ps || someHolds v qs) := by
  induction ps with
  | nil => rw [List.nil_append, someHolds, Bool.false_or]
  | cons p ps ih => rw [List.cons_append, someHolds, someHolds, ih, Bool.or_assoc]

theorem allHold_conjuncts (p : Predicate) : allHold v p.conjuncts = p.holds v := by
  cases p <;> simp [conjuncts, allHold, holds]

theorem someHolds_disjuncts (p : Predicate) : someHolds v p.disjuncts = p.holds v := by
  cases p <;> simp [disjuncts, someHolds, holds]

/-- A conjunction holds where both sides do. -/
theorem holds_and (p q : Predicate) : (p.and q).holds v = (p.holds v && q.holds v) := by
  rw [and, holds, allHold_append, allHold_conjuncts, allHold_conjuncts]

/-- A disjunction holds where one of the sides does. -/
theorem holds_or (p q : Predicate) : (p.or q).holds v = (p.holds v || q.holds v) := by
  rw [or, holds, someHolds_append, someHolds_disjuncts, someHolds_disjuncts]

end

-- ---------------------------------------------------------------------------
-- Conditions
-- ---------------------------------------------------------------------------

mutual

/-- The conditions of the tree from left to right. -/
def leaves : Predicate → List Condition
  | leaf c => [c]
  | allOf children => leavesAll children
  | anyOf children => leavesAll children

/-- The conditions of a list of trees from left to right. -/
def leavesAll : List Predicate → List Condition
  | [] => []
  | p :: ps => p.leaves ++ leavesAll ps

end

theorem leavesAll_append (ps qs : List Predicate) :
    leavesAll (ps ++ qs) = leavesAll ps ++ leavesAll qs := by
  induction ps with
  | nil => rfl
  | cons p ps ih => rw [List.cons_append, leavesAll, leavesAll, ih, List.append_assoc]

theorem mem_leavesAll {ps : List Predicate} {p : Predicate} {c : Condition} (hp : p ∈ ps)
    (hc : c ∈ p.leaves) : c ∈ leavesAll ps := by
  induction ps with
  | nil => cases hp
  | cons q ps ih =>
    rw [leavesAll, List.mem_append]
    rcases List.mem_cons.mp hp with rfl | hp
    · exact .inl hc
    · exact .inr (ih hp)

theorem leavesAll_conjuncts (p : Predicate) : leavesAll p.conjuncts = p.leaves := by
  cases p <;> simp [conjuncts, leavesAll, leaves]

theorem leavesAll_disjuncts (p : Predicate) : leavesAll p.disjuncts = p.leaves := by
  cases p <;> simp [disjuncts, leavesAll, leaves]

/-- A conjunction has the conditions of both sides in their order. -/
theorem leaves_and (p q : Predicate) : (p.and q).leaves = p.leaves ++ q.leaves := by
  rw [and, leaves, leavesAll_append, leavesAll_conjuncts, leavesAll_conjuncts]

/-- A disjunction has the conditions of both sides in their order. -/
theorem leaves_or (p q : Predicate) : (p.or q).leaves = p.leaves ++ q.leaves := by
  rw [or, leaves, leavesAll_append, leavesAll_disjuncts, leavesAll_disjuncts]

/-- The size of a tree counts its conditions. -/
theorem size_eq_length_leaves (p : Predicate) : p.size = p.leaves.length := by
  have hAll : ∀ ps : List Predicate, (∀ p ∈ ps, p.size = p.leaves.length) →
      sizeAll ps = (leavesAll ps).length := by
    intro ps
    induction ps with
    | nil => exact fun _ => rfl
    | cons p ps ih =>
      intro h
      rw [sizeAll, leavesAll, List.length_append, h p (List.mem_cons_self ..),
        ih fun q hq => h q (List.mem_cons_of_mem _ hq)]
  induction p using treeInduction with
  | leaf c => rfl
  | allOf ps ih => exact hAll ps ih
  | anyOf ps ih => exact hAll ps ih

end ClusterFilter.Predicate
