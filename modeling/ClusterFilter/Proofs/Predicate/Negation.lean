import ClusterFilter.Proofs.Predicate.Disjunctive
import ClusterFilter.Proofs.Predicate.Flattening

/-!
# ClusterFilter — what negation says

A negated predicate is to hold where the predicate does not. That depends on the assignment: it has
to tell every condition from its complement (`Opposes`). And it depends on the shape of the tree.

Two gaps are bridged:

* **Combining vs exchanging** — negated members are combined two by two, and combining merges nodes
  of one kind. In a flattened tree there is nothing to merge, so that its negation is the same tree
  with the connectives exchanged (`dual`), and negating twice gives the tree itself.
* **Nodes without members** — they are negated to the disjunction without members, whichever they
  are. For a conjunction this is right. A disjunction without members is negated to itself, and so
  negation takes it for one that holds (`filled`).

Main results:

* `negate_eq_dual` — a flattened tree is negated to its dual.
* `negate_holds_opposite` — what the negation of any tree says.
-/

namespace ClusterFilter

-- ---------------------------------------------------------------------------
-- Opposite conditions
-- ---------------------------------------------------------------------------

/-- Every operator but two has a complement. -/
theorem Operator.exists_complement {op : Operator} (h : op ≠ .startsWith ∧ op ≠ .endsWith) :
    ∃ op', op.complement? = some op' := by
  cases op with
  | startsWith => exact absurd rfl h.1
  | endsWith => exact absurd rfl h.2
  | _ => exact ⟨_, rfl⟩

/-- The condition with the complement of its operator; one without a complement is kept. -/
def Condition.opposite (c : Condition) : Condition :=
  { c with op := c.op.complement?.getD c.op }

/-- The operator of the condition has a complement. -/
def Condition.IsNegatable (c : Condition) : Prop :=
  c.op ≠ .startsWith ∧ c.op ≠ .endsWith

namespace Condition

variable {c : Condition}

theorem IsNegatable.complement? (h : c.IsNegatable) : c.complement? = some c.opposite := by
  obtain ⟨op, hop⟩ := Operator.exists_complement h
  rw [Condition.complement?, opposite, hop]
  rfl

/-- A condition is the opposite of its opposite, which can be negated as well. -/
theorem IsNegatable.opposite (h : c.IsNegatable) :
    c.opposite.IsNegatable ∧ c.opposite.opposite = c := by
  obtain ⟨op, hop⟩ := Operator.exists_complement h
  have hback := Operator.complement?_involutive hop
  have hc : c.opposite = { c with op } := by
    rw [Condition.opposite, hop]
    rfl
  rw [hc]
  refine ⟨⟨?_, ?_⟩, ?_⟩
  · rintro rfl
    cases hback
  · rintro rfl
    cases hback
  · unfold Condition.opposite
    dsimp only
    rw [hback]
    rfl

end Condition

namespace Predicate

/-- Under the assignment a condition and its complement never say the same. -/
def Opposes (v : Condition → Bool) : Prop :=
  ∀ c c' : Condition, c.complement? = some c' → v c' = !v c

/-- The assignment that decides by the operator alone, for one operator of each two that are
complements of each other. -/
def byOperator (c : Condition) : Bool :=
  c.op ∈ [.equal, .less, .lessOrEqual, .contains]

theorem opposes_byOperator : Opposes byOperator := by
  intro c c' h
  obtain ⟨op, hop, rfl⟩ := Option.map_eq_some_iff.mp h
  have hpairs : ∀ a b : Operator, a.complement? = some b →
      decide (b ∈ [Operator.equal, .less, .lessOrEqual, .contains]) =
        !decide (a ∈ [Operator.equal, .less, .lessOrEqual, .contains]) := by
    intro a b hab
    cases a <;> cases hab <;> rfl
  exact hpairs c.op op hop

-- ---------------------------------------------------------------------------
-- Combined members
-- ---------------------------------------------------------------------------

section

variable (v : Condition → Bool)

/-- Of combined members some holds, also where there are none. -/
theorem holds_combineAll_or (ps : List Predicate) :
    (combineAll or ps).holds v = someHolds v ps := by
  cases ps with
  | nil => rfl
  | cons p ps =>
    rw [combineAll]
    induction ps generalizing p with
    | nil => rw [List.foldl_nil, someHolds, someHolds, Bool.or_false]
    | cons q ps ih =>
      rw [List.foldl_cons, ih, someHolds, someHolds, someHolds, holds_or, Bool.or_assoc]

/-- Of combined members all hold, but only where there are any. -/
theorem holds_combineAll_and {ps : List Predicate} (h : ps ≠ []) :
    (combineAll and ps).holds v = allHold v ps := by
  obtain ⟨p, ps, rfl⟩ := List.exists_cons_of_ne_nil h
  clear h
  rw [combineAll]
  induction ps generalizing p with
  | nil => rw [List.foldl_nil, allHold, allHold, Bool.and_true]
  | cons q ps ih =>
    rw [List.foldl_cons, ih, allHold, allHold, allHold, holds_and, Bool.and_assoc]

variable {v} {ps qs : List Predicate}
  (h : List.Forall₂ (fun p q => q.holds v = !p.holds v) ps qs)

include h

/-- Some of the opposites holds where not all members do. -/
theorem someHolds_of_opposite : someHolds v qs = !allHold v ps := by
  induction h with
  | nil => rfl
  | cons hq _ ih => rw [someHolds, allHold, hq, ih, Bool.not_and]

/-- All of the opposites hold where no member does. -/
theorem allHold_of_opposite : allHold v qs = !someHolds v ps := by
  induction h with
  | nil => rfl
  | cons hq _ ih => rw [someHolds, allHold, hq, ih, Bool.not_or]

end

-- ---------------------------------------------------------------------------
-- The dual of a flattened tree
-- ---------------------------------------------------------------------------

mutual

/-- The tree with the connectives exchanged and every condition turned into its opposite. -/
def dual : Predicate → Predicate
  | leaf c => leaf c.opposite
  | allOf children => anyOf (dualAll children)
  | anyOf children => allOf (dualAll children)

/-- The dual of each member. -/
def dualAll : List Predicate → List Predicate
  | [] => []
  | p :: ps => p.dual :: dualAll ps

end

theorem dualAll_eq_map (ps : List Predicate) : dualAll ps = ps.map dual := by
  induction ps with
  | nil => rfl
  | cons p ps ih => rw [dualAll, ih, List.map_cons]

/-- Every condition of the tree can be negated. -/
def IsNegatable (p : Predicate) : Prop :=
  ∀ c ∈ p.leaves, c.IsNegatable

/-- The members of a node can be negated if the node can, of either kind. -/
theorem isNegatable_members {ps : List Predicate} (h : ∀ c ∈ leavesAll ps, c.IsNegatable) :
    ∀ p ∈ ps, p.IsNegatable :=
  fun _ hp c hc => h c (mem_leavesAll hp hc)

theorem dualAll_dualAll {ps : List Predicate} (h : ∀ p ∈ ps, p.dual.dual = p) :
    dualAll (dualAll ps) = ps := by
  induction ps with
  | nil => rfl
  | cons p ps ih =>
    obtain ⟨hp, hps⟩ := List.forall_mem_cons.mp h
    rw [dualAll, dualAll, hp, ih hps]

/-- The dual of the dual is the tree itself. -/
theorem IsNegatable.dual_dual {p : Predicate} (h : p.IsNegatable) : p.dual.dual = p := by
  induction p using treeInduction with
  | leaf c => rw [dual, dual, (h c (List.mem_singleton_self c)).opposite.2]
  | allOf ps ih => rw [dual, dual, dualAll_dualAll fun p hp => ih p hp (isNegatable_members h p hp)]
  | anyOf ps ih => rw [dual, dual, dualAll_dualAll fun p hp => ih p hp (isNegatable_members h p hp)]

theorem leavesAll_dualAll {ps : List Predicate}
    (h : ∀ p ∈ ps, p.dual.leaves = p.leaves.map Condition.opposite) :
    leavesAll (dualAll ps) = (leavesAll ps).map Condition.opposite := by
  induction ps with
  | nil => rfl
  | cons p ps ih =>
    obtain ⟨hp, hps⟩ := List.forall_mem_cons.mp h
    rw [dualAll, leavesAll, leavesAll, hp, ih hps, List.map_append]

/-- The conditions of the dual are the opposites in the same order. -/
theorem leaves_dual (p : Predicate) : p.dual.leaves = p.leaves.map Condition.opposite := by
  induction p using treeInduction with
  | leaf c => rfl
  | allOf ps ih => exact leavesAll_dualAll ih
  | anyOf ps ih => exact leavesAll_dualAll ih

theorem IsNegatable.dual {p : Predicate} (h : p.IsNegatable) : p.dual.IsNegatable := by
  intro c hc
  rw [leaves_dual] at hc
  obtain ⟨d, hd, rfl⟩ := List.mem_map.mp hc
  exact (h d hd).opposite.1

theorem negateAll_eq_dualAll {ps : List Predicate} (h : ∀ p ∈ ps, p.negate = .ok p.dual) :
    negateAll ps = .ok (dualAll ps) := by
  induction ps with
  | nil => rfl
  | cons p ps ih =>
    obtain ⟨hp, hps⟩ := List.forall_mem_cons.mp h
    rw [negateAll, hp, ih hps]
    rfl

/-- Where no member is a conjunction, no dual of a member is a disjunction. -/
theorem dual_ne_anyOf {p : Predicate} (h : ∀ qs, p ≠ allOf qs) : ∀ qs, p.dual ≠ anyOf qs := by
  cases p with
  | leaf c => exact fun _ => nofun
  | allOf ps => exact absurd rfl (h ps)
  | anyOf ps => exact fun _ => nofun

theorem dual_ne_allOf {p : Predicate} (h : ∀ qs, p ≠ anyOf qs) : ∀ qs, p.dual ≠ allOf qs := by
  cases p with
  | leaf c => exact fun _ => nofun
  | allOf ps => exact fun _ => nofun
  | anyOf ps => exact absurd rfl (h ps)

/-- The members of a flattened node are negated to members of which none is merged. -/
theorem negate_of_flattened {p : Predicate} (hp : Flattened p) (h : p.IsNegatable) :
    p.negate = .ok p.dual := by
  induction hp with
  | leaf c => rw [negate, (h c (List.mem_singleton_self c)).complement?, dual]
  | @allOf ps hlength hkind _ ih =>
    have hmembers := negateAll_eq_dualAll fun p hp => ih p hp (isNegatable_members h p hp)
    have hnode : combineAll or (dualAll ps) = anyOf (dualAll ps) := by
      rw [dualAll_eq_map]
      refine combineAll_members anyOf disjuncts (fun _ => rfl) (by rwa [List.length_map]) ?_
      exact List.forall_mem_map.mpr fun p hp => disjuncts_of_ne (dual_ne_anyOf (hkind p hp))
    rw [negate, hmembers, dual, ← hnode]
    rfl
  | @anyOf ps hlength hkind _ ih =>
    have hmembers := negateAll_eq_dualAll fun p hp => ih p hp (isNegatable_members h p hp)
    have hnode : combineAll and (dualAll ps) = allOf (dualAll ps) := by
      rw [dualAll_eq_map]
      refine combineAll_members allOf conjuncts (fun _ => rfl) (by rwa [List.length_map]) ?_
      exact List.forall_mem_map.mpr fun p hp => conjuncts_of_ne (dual_ne_allOf (hkind p hp))
    rw [negate, hmembers, dual, ← hnode]
    rfl

-- ---------------------------------------------------------------------------
-- What any negation says
-- ---------------------------------------------------------------------------

mutual

/-- The tree with a conjunction without members, which always holds, in place of each disjunction
without members. -/
def filled : Predicate → Predicate
  | leaf c => leaf c
  | allOf children => allOf (filledAll children)
  | anyOf children => if children.isEmpty then allOf [] else anyOf (filledAll children)

/-- Each member filled. -/
def filledAll : List Predicate → List Predicate
  | [] => []
  | p :: ps => p.filled :: filledAll ps

end

theorem filledAll_eq_self {ps : List Predicate} (h : ∀ p ∈ ps, p.filled = p) :
    filledAll ps = ps := by
  induction ps with
  | nil => rfl
  | cons p ps ih =>
    obtain ⟨hp, hps⟩ := List.forall_mem_cons.mp h
    rw [filledAll, hp, ih hps]

/-- Where no disjunction is without members, nothing is filled. -/
theorem NoEmptyDisjunction.filled_eq {p : Predicate} (h : NoEmptyDisjunction p) :
    p.filled = p := by
  induction h with
  | leaf c => rfl
  | allOf _ ih => rw [filled, filledAll_eq_self ih]
  | anyOf hne _ ih =>
    rw [filled, filledAll_eq_self ih, if_neg fun hempty => hne (List.isEmpty_iff.mp hempty)]

theorem opposite_filledAll {v : Condition → Bool} {ps qs : List Predicate}
    (h : List.Forall₂ (fun p q => p.negate = .ok q) ps qs)
    (hps : ∀ p ∈ ps, ∀ {q}, p.negate = .ok q → q.holds v = !p.filled.holds v) :
    List.Forall₂ (fun p q => q.holds v = !p.holds v) (filledAll ps) qs := by
  induction h with
  | nil => exact .nil
  | cons hq _ ih =>
    obtain ⟨hp, hps⟩ := List.forall_mem_cons.mp hps
    exact .cons (hp hq) (ih hps)

/-- A negation says the opposite of what the tree says where empty disjunctions are taken to
hold. -/
theorem holds_negate {v : Condition → Bool} (hv : Opposes v) {p q : Predicate}
    (h : p.negate = .ok q) : q.holds v = !p.filled.holds v := by
  induction p using treeInduction generalizing q with
  | leaf c =>
    rw [negate] at h
    split at h
    · next c' hc' =>
      injection h with h
      rw [← h]
      exact hv c c' hc'
    · cases h
  | allOf ps ih =>
    rw [negate, bind_eq_ok] at h
    obtain ⟨qs, hqs, h⟩ := h
    injection h with h
    rw [← h, holds_combineAll_or, filled, holds]
    exact someHolds_of_opposite (opposite_filledAll (negateAll_eq_ok hqs) ih)
  | anyOf ps ih =>
    rw [negate, bind_eq_ok] at h
    obtain ⟨qs, hqs, h⟩ := h
    injection h with h
    have hmembers := negateAll_eq_ok hqs
    rw [← h, filled]
    -- combining no members at all forgets the connective, and gives a disjunction
    split
    · next hempty =>
      rw [List.isEmpty_iff.mp hempty, List.forall₂_nil_left_iff] at hmembers
      rw [hmembers]
      rfl
    · next hne =>
      have hqs : qs ≠ [] := by
        rintro rfl
        exact hne (List.isEmpty_iff.mpr (List.forall₂_nil_right_iff.mp hmembers))
      rw [holds_combineAll_and v hqs, holds]
      exact allHold_of_opposite (opposite_filledAll hmembers ih)

theorem Flattened.noEmptyDisjunction {p : Predicate} (h : p.Flattened) :
    p.NoEmptyDisjunction := by
  induction h with
  | leaf c => exact .leaf c
  | allOf _ _ _ ih => exact .allOf ih
  | anyOf hlength _ _ ih =>
    refine .anyOf ?_ ih
    rintro rfl
    cases hlength

/--
**Negation of a flattened tree.** A flattened tree whose conditions can all be negated is negated to
its dual. The dual is flattened, it says the opposite, and it is negated to the tree itself.
-/
theorem negate_eq_dual {p : Predicate} (hp : Flattened p)
    (hleaves : ∀ c ∈ p.leaves, c.op ≠ .startsWith ∧ c.op ≠ .endsWith) :
    p.negate = .ok p.dual ∧ Flattened p.dual ∧
      (∀ v, Opposes v → p.dual.holds v = !p.holds v) ∧ p.dual.negate = .ok p := by
  have h : p.IsNegatable := hleaves
  have hnegate := negate_of_flattened hp h
  have hdual := hp.negate hnegate
  refine ⟨hnegate, hdual, fun v hv => ?_, ?_⟩
  · rw [holds_negate hv hnegate, hp.noEmptyDisjunction.filled_eq]
  · rw [negate_of_flattened hdual h.dual, h.dual_dual]

/-- Large results that are done, or results of one session. -/
def doneAndLargeOrOfSession : Predicate :=
  anyOf [
    allOf [
      leaf ⟨⟨"size", none⟩, .value .number, .greaterOrEqual, .number 9⟩,
      leaf ⟨⟨"status", none⟩, .value .status, .equal, .status ⟨"COMPLETED", 2⟩⟩],
    leaf ⟨⟨"session_id", none⟩, .value .string, .notContains, .string "x"⟩]

/-- The tree is negated level by level, and back. -/
theorem negate_eq_dual_threeConditions :
    doneAndLargeOrOfSession.negate = .ok (allOf [
      anyOf [
        leaf ⟨⟨"size", none⟩, .value .number, .less, .number 9⟩,
        leaf ⟨⟨"status", none⟩, .value .status, .notEqual, .status ⟨"COMPLETED", 2⟩⟩],
      leaf ⟨⟨"session_id", none⟩, .value .string, .contains, .string "x"⟩]) ∧
    doneAndLargeOrOfSession.dual.negate = .ok doneAndLargeOrOfSession := by
  have hinner : Flattened (allOf [
      leaf ⟨⟨"size", none⟩, .value .number, .greaterOrEqual, .number 9⟩,
      leaf ⟨⟨"status", none⟩, .value .status, .equal, .status ⟨"COMPLETED", 2⟩⟩]) :=
    .allOf (Nat.le_refl 2) (by simp) (by simp [Flattened.leaf])
  have hflat : Flattened doneAndLargeOrOfSession :=
    .anyOf (Nat.le_refl 2) (by simp) (by simp [Flattened.leaf, hinner])
  obtain ⟨hnegate, -, -, hback⟩ := negate_eq_dual hflat (by decide)
  exact ⟨hnegate, hback⟩

/--
**What negation says.** The negation of a tree holds exactly where the tree with its empty
disjunctions filled does not. Where no disjunction is without members, whatever else is, it holds
exactly where the tree does not.
-/
theorem negate_holds_opposite {p q : Predicate} (h : p.negate = .ok q) {v : Condition → Bool}
    (hv : Opposes v) :
    q.holds v = (!p.filled.holds v) ∧ (NoEmptyDisjunction p → q.holds v = !p.holds v) := by
  have hopposite := holds_negate hv h
  refine ⟨hopposite, fun hp => ?_⟩
  rwa [hp.filled_eq] at hopposite

/-- An empty conjunction, and a condition as the only member of a node. -/
def anythingOrSmall : Predicate :=
  anyOf [allOf [], allOf [leaf ⟨⟨"size", none⟩, .value .number, .less, .number 1⟩]]

/-- The tree holds by its empty conjunction, and so its negation does not. -/
theorem negate_holds_opposite_anythingOrSmall :
    NoEmptyDisjunction anythingOrSmall ∧ Opposes byOperator ∧
      ∃ q, anythingOrSmall.negate = .ok q ∧ q.holds byOperator = false := by
  have hsmall : NoEmptyDisjunction
      (allOf [leaf ⟨⟨"size", none⟩, .value .number, .less, .number 1⟩]) :=
    .allOf (List.forall_mem_singleton.mpr (.leaf _))
  have hfull : NoEmptyDisjunction anythingOrSmall :=
    .anyOf (List.cons_ne_nil _ _)
      (List.forall_mem_cons.mpr ⟨.allOf nofun, List.forall_mem_singleton.mpr hsmall⟩)
  obtain ⟨q, hq⟩ : ∃ q, anythingOrSmall.negate = .ok q := ⟨_, rfl⟩
  exact ⟨hfull, opposes_byOperator, q, hq, (negate_holds_opposite hq opposes_byOperator).2 hfull⟩

/-- The disjunction without members is negated to itself, and neither of the two holds. -/
theorem negate_emptyDisjunction :
    Opposes byOperator ∧ (anyOf []).negate = .ok (anyOf []) ∧
      (anyOf []).holds byOperator ≠ !(anyOf []).holds byOperator :=
  ⟨opposes_byOperator, rfl, nofun⟩

end Predicate

end ClusterFilter
