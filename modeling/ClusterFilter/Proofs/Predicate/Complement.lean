import ClusterFilter.Proofs.Outcome
import ClusterFilter.Proofs.Predicate.Negation

/-!
# ClusterFilter — conditions of a negation

Negation goes through a tree from left to right and stops at the first condition that has no
complement. What it makes of the connectives depends on the shape of the tree, but the conditions do
not: nodes are merged and connectives exchanged, and the conditions stand in the same order as
before, each as its complement. That holds for trees of any shape, with nodes of no member, of one
member, or of their own kind.

Main results:

* `failure?_negate` — a tree fails to be negated as the leftmost of its conditions does that fails.
* `leaves_negate` — the conditions of a negation are the complements in their order.
* `negate_outcome` — both together, for every tree.
-/

namespace ClusterFilter

-- ---------------------------------------------------------------------------
-- One condition
-- ---------------------------------------------------------------------------

/-- The condition compares the same field with the same value, by the complementary operator. -/
structure Condition.IsComplement (c d : Condition) : Prop where
  op : c.op.complement? = some d.op
  field : d.field = c.field
  kind : d.kind = c.kind
  value : d.value = c.value

theorem Condition.IsComplement.of_complement? {c d : Condition} (h : c.complement? = some d) :
    c.IsComplement d := by
  obtain ⟨op, hop, rfl⟩ := Option.map_eq_some_iff.mp h
  exact ⟨hop, rfl, rfl, rfl⟩

/-- Two operators have no complement. -/
theorem Operator.complement?_eq_none_iff {op : Operator} :
    op.complement? = none ↔ op = .startsWith ∨ op = .endsWith := by
  cases op <;> simp [complement?]

/-- The error shows the condition. -/
theorem Error.message_notNegatable (c : Condition) :
    (notNegatable c).message = "Predicate cannot be negated: " ++ c.text := by
  have hchars : (notNegatable c).chars = "Predicate cannot be negated: ".toList ++ c.chars := rfl
  rw [message, hchars, String.ofList_append, String.ofList_toList, Condition.text]

namespace Predicate

theorem failure?_negate_leaf (c : Condition) {e : Error} :
    failure? (leaf c).negate = some e ↔
      (c.op = .startsWith ∨ c.op = .endsWith) ∧ e = .notNegatable c := by
  rw [negate, Condition.complement?, ← Operator.complement?_eq_none_iff]
  cases c.op.complement? with
  | some op =>
    show none = some e ↔ _
    simp only [reduceCtorEq, false_and]
  | none =>
    show some (Error.notNegatable c) = some e ↔ _
    rw [Option.some.injEq, eq_self, true_and, eq_comm]

theorem failure?_negate_leaf_eq_none (c : Condition) :
    failure? (leaf c).negate = none ↔ c.op ≠ .startsWith ∧ c.op ≠ .endsWith := by
  rw [Option.eq_none_iff_forall_ne_some]
  constructor
  · intro h
    refine ⟨fun hop => h (.notNegatable c) ?_, fun hop => h (.notNegatable c) ?_⟩
    · exact (failure?_negate_leaf c).mpr ⟨.inl hop, rfl⟩
    · exact (failure?_negate_leaf c).mpr ⟨.inr hop, rfl⟩
  · rintro ⟨hstarts, hends⟩ e he
    exact ((failure?_negate_leaf c).mp he).1.elim hstarts hends

-- ---------------------------------------------------------------------------
-- The leftmost failure
-- ---------------------------------------------------------------------------

/-- Members fail to be negated as the leftmost condition does that fails. -/
theorem failure?_negateAll {ps : List Predicate}
    (h : ∀ p ∈ ps, failure? p.negate = p.leaves.findSome? fun c => failure? (leaf c).negate) :
    failure? (negateAll ps) = (leavesAll ps).findSome? fun c => failure? (leaf c).negate := by
  induction ps with
  | nil => rfl
  | cons p ps ih =>
    obtain ⟨hp, hps⟩ := List.forall_mem_cons.mp h
    rw [negateAll, failure?_combine, leavesAll, List.findSome?_append, hp, ih hps]

/-- A tree fails to be negated as the leftmost of its conditions does that fails. -/
theorem failure?_negate (p : Predicate) :
    failure? p.negate = p.leaves.findSome? fun c => failure? (leaf c).negate := by
  induction p using treeInduction with
  | leaf c =>
    rw [leaves, List.findSome?_cons]
    cases failure? (leaf c).negate with
    | some e => rfl
    | none => rfl
  | allOf ps ih => rw [negate, failure?_bind_ok, failure?_negateAll ih, leaves]
  | anyOf ps ih => rw [negate, failure?_bind_ok, failure?_negateAll ih, leaves]

/-- A tree is negated or not as its leftmost condition without a complement says. -/
theorem negate_eq_error_iff {p : Predicate} {e : Error} :
    p.negate = .error e ↔ ∃ before c after, p.leaves = before ++ c :: after ∧
      (∀ d ∈ before, d.op ≠ .startsWith ∧ d.op ≠ .endsWith) ∧
      (c.op = .startsWith ∨ c.op = .endsWith) ∧ e = .notNegatable c := by
  rw [← failure?_eq_some, failure?_negate, List.findSome?_eq_some_iff]
  simp only [failure?_negate_leaf, failure?_negate_leaf_eq_none]
  constructor
  · rintro ⟨before, c, after, hsplit, hc, hbefore⟩
    exact ⟨before, c, after, hsplit, hbefore, hc⟩
  · rintro ⟨before, c, after, hsplit, hbefore, hc⟩
    exact ⟨before, c, after, hsplit, hc, hbefore⟩

theorem exists_negate_eq_error_iff {p : Predicate} :
    (∃ e, p.negate = .error e) ↔ ∃ c ∈ p.leaves, c.op = .startsWith ∨ c.op = .endsWith := by
  constructor
  · rintro ⟨e, h⟩
    obtain ⟨before, c, after, hsplit, -, hc, -⟩ := negate_eq_error_iff.mp h
    exact ⟨c, hsplit ▸ List.mem_append_right _ (List.mem_cons_self ..), hc⟩
  · rintro ⟨c, hc, hop⟩
    have hfails : (p.leaves.findSome? fun c => failure? (leaf c).negate).isSome = true := by
      refine List.findSome?_isSome_iff.mpr
        ⟨c, hc, Option.isSome_iff_exists.mpr ⟨.notNegatable c, ?_⟩⟩
      exact (failure?_negate_leaf c).mpr ⟨hop, rfl⟩
    obtain ⟨e, he⟩ := Option.isSome_iff_exists.mp hfails
    exact ⟨e, failure?_eq_some.mp ((failure?_negate p).trans he)⟩

-- ---------------------------------------------------------------------------
-- The conditions that are left
-- ---------------------------------------------------------------------------

/-- Combined members have their conditions in order, also where there are no members. -/
theorem leaves_combineAll {combine : Predicate → Predicate → Predicate}
    (hcombine : ∀ p q, (combine p q).leaves = p.leaves ++ q.leaves) (ps : List Predicate) :
    (combineAll combine ps).leaves = leavesAll ps := by
  cases ps with
  | nil => rfl
  | cons p ps =>
    rw [combineAll]
    induction ps generalizing p with
    | nil => rw [List.foldl_nil, leavesAll, leavesAll, List.append_nil]
    | cons q ps ih =>
      rw [List.foldl_cons, ih, leavesAll, leavesAll, leavesAll, hcombine, List.append_assoc]

theorem leavesAll_negated {ps qs : List Predicate}
    (h : List.Forall₂ (fun p q => p.negate = .ok q) ps qs)
    (hps : ∀ p ∈ ps, ∀ {q}, p.negate = .ok q →
      List.Forall₂ Condition.IsComplement p.leaves q.leaves) :
    List.Forall₂ Condition.IsComplement (leavesAll ps) (leavesAll qs) := by
  induction h with
  | nil => exact .nil
  | cons hq _ ih =>
    obtain ⟨hp, hps⟩ := List.forall_mem_cons.mp hps
    exact List.rel_append (hp hq) (ih hps)

/-- The conditions of a negation are the complements of the conditions, in the same order. -/
theorem leaves_negate {p q : Predicate} (h : p.negate = .ok q) :
    List.Forall₂ Condition.IsComplement p.leaves q.leaves := by
  induction p using treeInduction generalizing q with
  | leaf c =>
    rw [negate] at h
    split at h
    · next d hd =>
      injection h with h
      exact h ▸ .cons (.of_complement? hd) .nil
    · cases h
  | allOf ps ih =>
    rw [negate, bind_eq_ok] at h
    obtain ⟨qs, hqs, h⟩ := h
    injection h with h
    rw [← h, leaves_combineAll leaves_or, leaves]
    exact leavesAll_negated (negateAll_eq_ok hqs) ih
  | anyOf ps ih =>
    rw [negate, bind_eq_ok] at h
    obtain ⟨qs, hqs, h⟩ := h
    injection h with h
    rw [← h, leaves_combineAll leaves_and, leaves]
    exact leavesAll_negated (negateAll_eq_ok hqs) ih

theorem size_negate {p q : Predicate} (h : p.negate = .ok q) : q.size = p.size := by
  rw [size_eq_length_leaves, size_eq_length_leaves, (leaves_negate h).length_eq]

/--
**The outcome of negation.** A tree of any shape has no negation exactly if a condition of it asks
for the beginning or the end of a text; the error shows the leftmost such condition. Otherwise the
conditions of the negation are those of the tree in their order, each with the complementary
operator and unchanged but for it.
-/
theorem negate_outcome (p : Predicate) :
    ((∃ e, p.negate = .error e) ↔
      ∃ c ∈ p.leaves, c.op = .startsWith ∨ c.op = .endsWith) ∧
    (∀ e, p.negate = .error e → ∃ before c after, p.leaves = before ++ c :: after ∧
      (∀ d ∈ before, d.op ≠ .startsWith ∧ d.op ≠ .endsWith) ∧
      (c.op = .startsWith ∨ c.op = .endsWith) ∧ e = .notNegatable c ∧
      e.message = "Predicate cannot be negated: " ++ c.text) ∧
    ∀ q, p.negate = .ok q →
      List.Forall₂ Condition.IsComplement p.leaves q.leaves ∧ q.size = p.size := by
  refine ⟨exists_negate_eq_error_iff, fun e h => ?_, fun q h => ⟨leaves_negate h, size_negate h⟩⟩
  obtain ⟨before, c, after, hsplit, hbefore, hc, rfl⟩ := negate_eq_error_iff.mp h
  exact ⟨before, c, after, hsplit, hbefore, hc, rfl, Error.message_notNegatable c⟩

/-- Behind nodes of no member and of one, a condition that cannot be negated stands in front of
another one. -/
def endingBeforeBeginning : Predicate :=
  anyOf [allOf [], anyOf [leaf ⟨⟨"size", none⟩, .value .number, .less, .number 1⟩],
    allOf [leaf ⟨⟨"session_id", none⟩, .value .string, .endsWith, .string "x y"⟩,
      leaf ⟨⟨"name", none⟩, .value .string, .startsWith, .string "z"⟩]]

/-- There is an error, since two conditions cannot be negated, and it is about the first of
them. -/
theorem negate_outcome_endingBeforeBeginning :
    ∃ e, endingBeforeBeginning.negate = .error e ∧
      e.message = "Predicate cannot be negated: session_id endswith 'x y'" := by
  obtain ⟨hfails, hleftmost, -⟩ := negate_outcome endingBeforeBeginning
  obtain ⟨e, he⟩ := hfails.mpr
    ⟨⟨⟨"name", none⟩, .value .string, .startsWith, .string "z"⟩, by decide, .inl rfl⟩
  obtain ⟨before, c, after, -, -, -, rfl, hmessage⟩ := hleftmost e he
  have hfirst : endingBeforeBeginning.negate = .error (.notNegatable
      ⟨⟨"session_id", none⟩, .value .string, .endsWith, .string "x y"⟩) := rfl
  rw [hfirst] at he
  injection he with he
  injection he with he
  subst he
  exact ⟨_, hfirst, hmessage⟩

end Predicate

end ClusterFilter
