import ClusterFilter.Predicate.Negation
import ClusterFilter.Proofs.Outcome
import ClusterFilter.Proofs.Predicate.Evaluation
import Mathlib.Data.List.Forall2

/-!
# ClusterFilter — flattened trees

A tree is flattened if every node has two members at least and none of its own kind. The combiners
make flattened trees of flattened trees, so that any tree can be rebuilt by them from its
conditions upwards (`flat`). A flattened tree is rebuilt as it is.

Main results:

* `combineAll_eq_node` — two or more members are combined to one node with all of their members.
* `flat_of_flattened` — a flattened tree is its own rebuilding.
* `Flattened.and`, `Flattened.or`, `Flattened.negate` — combining and negating keep trees flattened.
-/

namespace ClusterFilter.Predicate

-- ---------------------------------------------------------------------------
-- Shapes
-- ---------------------------------------------------------------------------

/-- No node of the tree is without members. -/
inductive NoEmptyNode : Predicate → Prop where
  | leaf (c : Condition) : NoEmptyNode (leaf c)
  | allOf {ps : List Predicate} : ps ≠ [] → (∀ p ∈ ps, NoEmptyNode p) → NoEmptyNode (allOf ps)
  | anyOf {ps : List Predicate} : ps ≠ [] → (∀ p ∈ ps, NoEmptyNode p) → NoEmptyNode (anyOf ps)

/-- Every node of the tree has two members at least, and none of its own kind. -/
inductive Flattened : Predicate → Prop where
  | leaf (c : Condition) : Flattened (leaf c)
  | allOf {ps : List Predicate} : 2 ≤ ps.length → (∀ p ∈ ps, ∀ qs, p ≠ allOf qs) →
      (∀ p ∈ ps, Flattened p) → Flattened (allOf ps)
  | anyOf {ps : List Predicate} : 2 ≤ ps.length → (∀ p ∈ ps, ∀ qs, p ≠ anyOf qs) →
      (∀ p ∈ ps, Flattened p) → Flattened (anyOf ps)

mutual

/-- The tree rebuilt from its conditions upwards, the members of each node combined from left to
right. -/
def flat : Predicate → Predicate
  | leaf c => leaf c
  | allOf children => combineAll and (flatAll children)
  | anyOf children => combineAll or (flatAll children)

/-- Each member rebuilt. -/
def flatAll : List Predicate → List Predicate
  | [] => []
  | p :: ps => p.flat :: flatAll ps

end

theorem flatAll_ne_nil {ps : List Predicate} (h : ps ≠ []) : flatAll ps ≠ [] := by
  cases ps with
  | nil => exact absurd rfl h
  | cons p ps => exact List.cons_ne_nil _ _

-- ---------------------------------------------------------------------------
-- Combining members
-- ---------------------------------------------------------------------------

/-- Where the combiner is associative, the first member is combined with the rest. -/
theorem combineAll_cons {combine : Predicate → Predicate → Predicate}
    (hassoc : ∀ p q r, combine (combine p q) r = combine p (combine q r)) (p : Predicate)
    {ps : List Predicate} (h : ps ≠ []) :
    combineAll combine (p :: ps) = combine p (combineAll combine ps) := by
  obtain ⟨q, qs, rfl⟩ := List.exists_cons_of_ne_nil h
  have hfold : ∀ (qs : List Predicate) (q : Predicate),
      qs.foldl combine (combine p q) = combine p (qs.foldl combine q) := by
    intro qs
    induction qs with
    | nil => exact fun _ => rfl
    | cons r qs ih =>
      intro q
      rw [List.foldl_cons, hassoc, ih, List.foldl_cons]
  exact hfold qs q

section

variable (node : List Predicate → Predicate) (members : Predicate → List Predicate)
  (hnode : ∀ ps, members (node ps) = ps)

include hnode

/-- Members of two or more predicates are merged into one node. -/
theorem combineAll_eq_node {ps : List Predicate} (h : 2 ≤ ps.length) :
    combineAll (fun p q => node (members p ++ members q)) ps = node (ps.flatMap members) := by
  have hfold : ∀ (qs merged : List Predicate),
      qs.foldl (fun p q => node (members p ++ members q)) (node merged) =
        node (merged ++ qs.flatMap members) := by
    intro qs
    induction qs with
    | nil =>
      intro merged
      rw [List.flatMap_nil, List.append_nil]
      rfl
    | cons q qs ih =>
      intro merged
      rw [List.foldl_cons, hnode, ih, List.flatMap_cons, List.append_assoc]
  match ps, h with
  | p :: q :: qs, _ =>
    rw [combineAll, List.foldl_cons, hfold, List.flatMap_cons, List.flatMap_cons,
      List.append_assoc]

/-- A node whose members are no such nodes is rebuilt from its members. -/
theorem combineAll_members {ps : List Predicate} (h : 2 ≤ ps.length)
    (hmembers : ∀ p ∈ ps, members p = [p]) :
    combineAll (fun p q => node (members p ++ members q)) ps = node ps := by
  have hself : ps.flatMap members = ps := by
    clear h
    induction ps with
    | nil => rfl
    | cons p ps ih =>
      rw [List.flatMap_cons, hmembers p (List.mem_cons_self ..),
        ih fun q hq => hmembers q (List.mem_cons_of_mem _ hq)]
      rfl
  rw [combineAll_eq_node node members hnode h, hself]

end

theorem conjuncts_of_ne {p : Predicate} (h : ∀ qs, p ≠ allOf qs) : p.conjuncts = [p] := by
  cases p with
  | leaf c => rfl
  | allOf qs => exact absurd rfl (h qs)
  | anyOf qs => rfl

theorem disjuncts_of_ne {p : Predicate} (h : ∀ qs, p ≠ anyOf qs) : p.disjuncts = [p] := by
  cases p with
  | leaf c => rfl
  | allOf qs => rfl
  | anyOf qs => exact absurd rfl (h qs)

theorem flatAll_eq_self {ps : List Predicate} (h : ∀ p ∈ ps, p.flat = p) : flatAll ps = ps := by
  induction ps with
  | nil => rfl
  | cons p ps ih =>
    rw [flatAll, h p (List.mem_cons_self ..), ih fun q hq => h q (List.mem_cons_of_mem _ hq)]

/-- A flattened tree is rebuilt as it is. -/
theorem flat_of_flattened {p : Predicate} (h : Flattened p) : p.flat = p := by
  induction h with
  | leaf c => rfl
  | allOf hlength hkind _ ih =>
    rw [flat, flatAll_eq_self ih]
    exact combineAll_members allOf conjuncts (fun _ => rfl) hlength
      fun p hp => conjuncts_of_ne (hkind p hp)
  | anyOf hlength hkind _ ih =>
    rw [flat, flatAll_eq_self ih]
    exact combineAll_members anyOf disjuncts (fun _ => rfl) hlength
      fun p hp => disjuncts_of_ne (hkind p hp)

-- ---------------------------------------------------------------------------
-- Combining and negating flattened trees
-- ---------------------------------------------------------------------------

theorem Flattened.conjuncts {p : Predicate} (h : Flattened p) :
    1 ≤ p.conjuncts.length ∧ ∀ q ∈ p.conjuncts, (∀ qs, q ≠ Predicate.allOf qs) ∧ Flattened q := by
  cases h with
  | leaf c => simp [Predicate.conjuncts, Flattened.leaf]
  | @allOf ps hlength hkind hall =>
    have : 1 ≤ ps.length := by omega
    exact ⟨this, fun q hq => ⟨hkind q hq, hall q hq⟩⟩
  | anyOf hlength hkind hall =>
    simp [Predicate.conjuncts, Flattened.anyOf hlength hkind hall]

theorem Flattened.disjuncts {p : Predicate} (h : Flattened p) :
    1 ≤ p.disjuncts.length ∧ ∀ q ∈ p.disjuncts, (∀ qs, q ≠ Predicate.anyOf qs) ∧ Flattened q := by
  cases h with
  | leaf c => simp [Predicate.disjuncts, Flattened.leaf]
  | allOf hlength hkind hall =>
    simp [Predicate.disjuncts, Flattened.allOf hlength hkind hall]
  | @anyOf ps hlength hkind hall =>
    have : 1 ≤ ps.length := by omega
    exact ⟨this, fun q hq => ⟨hkind q hq, hall q hq⟩⟩

theorem Flattened.and {p q : Predicate} (hp : Flattened p) (hq : Flattened q) :
    Flattened (p.and q) := by
  obtain ⟨hpone, hpmem⟩ := hp.conjuncts
  obtain ⟨hqone, hqmem⟩ := hq.conjuncts
  have hmem := List.forall_mem_append.mpr ⟨hpmem, hqmem⟩
  refine .allOf ?_ (fun x hx => (hmem x hx).1) fun x hx => (hmem x hx).2
  rw [List.length_append]
  omega

theorem Flattened.or {p q : Predicate} (hp : Flattened p) (hq : Flattened q) :
    Flattened (p.or q) := by
  obtain ⟨hpone, hpmem⟩ := hp.disjuncts
  obtain ⟨hqone, hqmem⟩ := hq.disjuncts
  have hmem := List.forall_mem_append.mpr ⟨hpmem, hqmem⟩
  refine .anyOf ?_ (fun x hx => (hmem x hx).1) fun x hx => (hmem x hx).2
  rw [List.length_append]
  omega

theorem flattened_combineAll {combine : Predicate → Predicate → Predicate}
    (hcombine : ∀ {p q}, Flattened p → Flattened q → Flattened (combine p q))
    {ps : List Predicate} (hne : ps ≠ []) (h : ∀ p ∈ ps, Flattened p) :
    Flattened (combineAll combine ps) := by
  obtain ⟨p, qs, rfl⟩ := List.exists_cons_of_ne_nil hne
  obtain ⟨hp, hqs⟩ := List.forall_mem_cons.mp h
  rw [combineAll]
  clear hne h
  induction qs generalizing p with
  | nil => exact hp
  | cons q qs ih =>
    obtain ⟨hq, hqs⟩ := List.forall_mem_cons.mp hqs
    exact ih (combine p q) (hcombine hp hq) hqs

/-- The members are negated one for one. -/
theorem negateAll_eq_ok {ps qs : List Predicate} (h : negateAll ps = .ok qs) :
    List.Forall₂ (fun p q => p.negate = .ok q) ps qs := by
  induction ps generalizing qs with
  | nil =>
    rw [negateAll] at h
    injection h with h
    exact h ▸ .nil
  | cons p ps ih =>
    rw [negateAll, bind_eq_ok] at h
    obtain ⟨q, hq, h⟩ := h
    obtain ⟨rest, hrest, h⟩ := bind_eq_ok.mp h
    injection h with h
    exact h ▸ .cons hq (ih hrest)

theorem flattened_negateAll {ps qs : List Predicate} (h : negateAll ps = .ok qs)
    (hps : ∀ p ∈ ps, ∀ {q}, p.negate = .ok q → Flattened q) : ∀ q ∈ qs, Flattened q := by
  have hall := negateAll_eq_ok h
  clear h
  induction hall with
  | nil => simp
  | cons hq _ ih =>
    obtain ⟨hp, hps⟩ := List.forall_mem_cons.mp hps
    exact List.forall_mem_cons.mpr ⟨hp hq, ih hps⟩

/-- Negation exchanges the connectives, and a node of two members or more stays one: its negated
members are combined, and combining keeps trees flattened. -/
theorem Flattened.negate {p q : Predicate} (hp : Flattened p) (h : p.negate = .ok q) :
    Flattened q := by
  have hne : ∀ {ps qs : List Predicate}, 2 ≤ ps.length → negateAll ps = .ok qs → qs ≠ [] := by
    intro ps qs hlength hqs
    have := (negateAll_eq_ok hqs).length_eq
    rw [← List.length_pos_iff]
    omega
  induction hp generalizing q with
  | leaf c =>
    rw [Predicate.negate] at h
    split at h
    · injection h with h
      exact h ▸ .leaf _
    · cases h
  | allOf hlength _ _ ih =>
    rw [Predicate.negate, bind_eq_ok] at h
    obtain ⟨qs, hqs, h⟩ := h
    injection h with h
    exact h ▸ flattened_combineAll Flattened.or (hne hlength hqs) (flattened_negateAll hqs ih)
  | anyOf hlength _ _ ih =>
    rw [Predicate.negate, bind_eq_ok] at h
    obtain ⟨qs, hqs, h⟩ := h
    injection h with h
    exact h ▸ flattened_combineAll Flattened.and (hne hlength hqs) (flattened_negateAll hqs ih)

end ClusterFilter.Predicate
