import ClusterFilter.Proofs.Predicate.Disjunctive

/-!
# ClusterFilter — how much an expansion builds

The limit on the clauses of a predicate is checked on the total of the whole tree. On its way to the
clauses the expansion builds other lists: the clauses of every predicate that stands in the tree,
and at a conjunction the product of each run of first members. Here is shown what the check on the
total says about these lists.

A list is no longer than the whole as long as everything that is multiplied with it has clauses. A
member without clauses makes the total of its conjunction zero, whatever the other members build,
and so hides them from the check: they are within the limit of a 64-bit word only. Such a member
comes from a disjunction without members, and from nothing else.

Main results:

* `CountsIn.clauseTotal_le` — what counts in a predicate has no more clauses than the predicate.
* `expansion_within_limit` — the lists that stay within the limit, and the bound for all others.
-/

namespace ClusterFilter.Predicate

-- ---------------------------------------------------------------------------
-- What is built
-- ---------------------------------------------------------------------------

/-- The predicate `q` stands in the other one, which is expanded by way of the clauses of `q`. -/
inductive OccursIn (q : Predicate) : Predicate → Prop where
  | here : OccursIn q q
  | allOf {p : Predicate} {ps : List Predicate} : p ∈ ps → OccursIn q p → OccursIn q (allOf ps)
  | anyOf {p : Predicate} {ps : List Predicate} : p ∈ ps → OccursIn q p → OccursIn q (anyOf ps)

/-- The predicate `q` stands in the other one, and no conjunction above it has another member
without clauses. -/
inductive CountsIn (q : Predicate) : Predicate → Prop where
  | here : CountsIn q q
  | allOf {p : Predicate} {before after : List Predicate} : (∀ r ∈ before ++ after, r.expand ≠ []) →
      CountsIn q p → CountsIn q (allOf (before ++ p :: after))
  | anyOf {p : Predicate} {ps : List Predicate} : p ∈ ps → CountsIn q p → CountsIn q (anyOf ps)

/-- Neither the clauses of `q` are more than `limit`, nor, if `q` is a conjunction, the clauses that
stand for any run of its first members. -/
structure BuildsWithin (limit : Nat) (q : Predicate) : Prop where
  whole : q.expand.length ≤ limit
  running : ∀ before after, q = allOf (before ++ after) →
    (expandProduct [[]] before).length ≤ limit

-- ---------------------------------------------------------------------------
-- Parts of a product and of a sum
-- ---------------------------------------------------------------------------

theorem productTotal_append (ps qs : List Predicate) :
    productTotal (ps ++ qs) = productTotal ps * productTotal qs := by
  induction ps with
  | nil => exact (Nat.one_mul _).symm
  | cons p ps ih => rw [List.cons_append, productTotal, productTotal, ih, Nat.mul_assoc]

theorem productTotal_eq_zero {ps : List Predicate} {p : Predicate} (hp : p ∈ ps)
    (h : p.expand = []) : productTotal ps = 0 := by
  obtain ⟨before, after, rfl⟩ := List.append_of_mem hp
  rw [productTotal_append, productTotal, ← length_expand p, h, List.length_nil, Nat.zero_mul,
    Nat.mul_zero]

theorem productTotal_pos_of_expand {ps : List Predicate} (h : ∀ p ∈ ps, p.expand ≠ []) :
    0 < productTotal ps :=
  productTotal_pos fun p hp => length_expand p ▸ List.length_pos_iff.mpr (h p hp)

theorem le_sumTotal_of_mem {ps : List Predicate} {p : Predicate} (hp : p ∈ ps) :
    p.clauseTotal ≤ sumTotal ps := by
  induction ps with
  | nil => cases hp
  | cons q ps ih =>
    rw [sumTotal]
    rcases List.mem_cons.mp hp with rfl | hp
    · exact Nat.le_add_right ..
    · exact Nat.le_trans (ih hp) (Nat.le_add_left ..)

-- ---------------------------------------------------------------------------
-- The total bounds what counts
-- ---------------------------------------------------------------------------

/-- What counts in a predicate has no more clauses than the predicate. -/
theorem CountsIn.clauseTotal_le {p q : Predicate} (h : CountsIn q p) :
    q.clauseTotal ≤ p.clauseTotal := by
  induction h with
  | here => exact Nat.le_refl _
  | @allOf p before after hothers _ ih =>
    have hbefore := productTotal_pos_of_expand fun r hr =>
      hothers r (List.mem_append_left _ hr)
    have hafter := productTotal_pos_of_expand fun r hr =>
      hothers r (List.mem_append_right _ hr)
    calc q.clauseTotal ≤ p.clauseTotal := ih
      _ ≤ p.clauseTotal * productTotal after := Nat.le_mul_of_pos_right _ hafter
      _ ≤ productTotal before * (p.clauseTotal * productTotal after) :=
        Nat.le_mul_of_pos_left _ hbefore
      _ = (Predicate.allOf (before ++ p :: after)).clauseTotal := by
        rw [clauseTotal, productTotal_append, productTotal]
  | anyOf hp _ ih => exact Nat.le_trans ih (le_sumTotal_of_mem hp)

/-- The running product stays below the whole product if no member without clauses is still to
come. Behind such a member it is zero. -/
theorem productTotal_le_of_append {before after : List Predicate}
    (h : (∃ r ∈ before, r.expand = []) ∨ ∀ r ∈ after, r.expand ≠ []) :
    productTotal before ≤ productTotal (before ++ after) := by
  rcases h with ⟨r, hr, hempty⟩ | hafter
  · rw [productTotal_eq_zero hr hempty]
    exact Nat.zero_le _
  · rw [productTotal_append]
    exact Nat.le_mul_of_pos_right _ (productTotal_pos_of_expand hafter)

-- ---------------------------------------------------------------------------
-- Without empty disjunctions everything counts
-- ---------------------------------------------------------------------------

theorem NoEmptyDisjunction.expand_ne_nil {p : Predicate} (h : NoEmptyDisjunction p) :
    p.expand ≠ [] :=
  List.length_pos_iff.mp (length_expand p ▸ h.clauseTotal_pos)

theorem NoEmptyDisjunction.of_occursIn {p q : Predicate} (hp : NoEmptyDisjunction p)
    (h : OccursIn q p) : NoEmptyDisjunction q := by
  induction h with
  | here => exact hp
  | allOf hmem _ ih =>
    cases hp with
    | allOf hps => exact ih (hps _ hmem)
  | anyOf hmem _ ih =>
    cases hp with
    | anyOf _ hps => exact ih (hps _ hmem)

theorem NoEmptyDisjunction.countsIn {p q : Predicate} (hp : NoEmptyDisjunction p)
    (h : OccursIn q p) : CountsIn q p := by
  induction h with
  | here => exact .here
  | @allOf p ps hmem _ ih =>
    cases hp with
    | allOf hps =>
      obtain ⟨before, after, rfl⟩ := List.append_of_mem hmem
      refine .allOf (fun r hr => (hps r ?_).expand_ne_nil) (ih (hps p hmem))
      exact List.mem_append.mpr ((List.mem_append.mp hr).imp_right (List.mem_cons_of_mem p))
  | anyOf hmem _ ih =>
    cases hp with
    | anyOf _ hps => exact .anyOf hmem (ih (hps _ hmem))

-- ---------------------------------------------------------------------------
-- What the words bound
-- ---------------------------------------------------------------------------

theorem countWord?_lt {n m : Nat} (h : countWord? n = some m) : m < 1 <<< 64 := by
  unfold countWord? at h
  split at h
  · next hlt => exact Option.some.inj h ▸ hlt
  · cases h

/-- A product that is counted has counted members, and each run of the first members is a word. -/
theorem running_of_productCount? {ps : List Predicate} {sofar n : Nat} (hs : sofar < 1 <<< 64)
    (h : productCount? sofar ps = some n) :
    (∀ p ∈ ps, ∃ m, p.clauseCount? = some m) ∧
      ∀ before after, ps = before ++ after → sofar * productTotal before < 1 <<< 64 := by
  induction ps generalizing sofar with
  | nil =>
    refine ⟨nofun, fun before after happend => ?_⟩
    rw [(List.append_eq_nil_iff.mp happend.symm).1, productTotal, Nat.mul_one]
    exact hs
  | cons p ps ih =>
    rw [productCount?_cons, Option.bind_eq_some_iff] at h
    obtain ⟨k, hk, h⟩ := h
    obtain ⟨m, hm, h⟩ := Option.bind_eq_some_iff.mp h
    obtain ⟨hcounted, hrunning⟩ := ih (countWord?_lt hm) h
    refine ⟨List.forall_mem_cons.mpr ⟨⟨k, hk⟩, hcounted⟩, fun before after happend => ?_⟩
    cases before with
    | nil =>
      rw [productTotal, Nat.mul_one]
      exact hs
    | cons q before =>
      injection happend with hq happend
      subst hq
      have := hrunning before after happend
      rwa [countWord?_eq_some hm, clauseCount?_eq_some hk, Nat.mul_assoc] at this

/-- A sum that is counted has counted members, and is a word. -/
theorem counted_of_sumCount? {ps : List Predicate} {sofar n : Nat} (hs : sofar < 1 <<< 64)
    (h : sumCount? sofar ps = some n) :
    (∀ p ∈ ps, ∃ m, p.clauseCount? = some m) ∧ n < 1 <<< 64 := by
  induction ps generalizing sofar with
  | nil =>
    rw [sumCount?] at h
    refine ⟨List.forall_mem_nil _, ?_⟩
    rwa [← Option.some.inj h]
  | cons p ps ih =>
    rw [sumCount?_cons, Option.bind_eq_some_iff] at h
    obtain ⟨k, hk, h⟩ := h
    obtain ⟨m, hm, h⟩ := Option.bind_eq_some_iff.mp h
    obtain ⟨hcounted, hlt⟩ := ih (countWord?_lt hm) h
    exact ⟨List.forall_mem_cons.mpr ⟨⟨k, hk⟩, hcounted⟩, hlt⟩

/-- What stands in a counted predicate is counted as well. -/
theorem OccursIn.exists_clauseCount? {p q : Predicate} (h : OccursIn q p) {n : Nat}
    (hn : p.clauseCount? = some n) : ∃ m, q.clauseCount? = some m := by
  induction h generalizing n with
  | here => exact ⟨n, hn⟩
  | allOf hmem _ ih =>
    rw [clauseCount?] at hn
    obtain ⟨m, hm⟩ := (running_of_productCount? (by decide) hn).1 _ hmem
    exact ih hm
  | anyOf hmem _ ih =>
    rw [clauseCount?] at hn
    obtain ⟨m, hm⟩ := (counted_of_sumCount? (by decide) hn).1 _ hmem
    exact ih hm

/-- A counted predicate builds lists whose lengths are words. -/
theorem buildsWithin_of_clauseCount? {q : Predicate} {n : Nat} (h : q.clauseCount? = some n) :
    BuildsWithin ((1 <<< 64) - 1) q := by
  have hrunning : ∀ before after, q = allOf (before ++ after) →
      productTotal before < 1 <<< 64 := by
    rintro before after rfl
    rw [clauseCount?] at h
    have := (running_of_productCount? (by decide) h).2 before after rfl
    rwa [Nat.one_mul] at this
  have hwhole : q.clauseTotal < 1 <<< 64 := by
    cases q with
    | leaf c => exact show 1 < 1 <<< 64 by decide
    | allOf ps => exact hrunning ps [] (by rw [List.append_nil])
    | anyOf ps =>
      rw [clauseCount?] at h
      rw [← clauseCount?_eq_some (p := .anyOf ps) (by rwa [clauseCount?])]
      exact (counted_of_sumCount? (by decide) h).2
  refine ⟨?_, fun before after hq => ?_⟩
  · rw [length_expand]
    exact Nat.le_sub_one_of_lt hwhole
  · rw [length_expandProduct]
    exact Nat.le_sub_one_of_lt (hrunning before after hq)

-- ---------------------------------------------------------------------------
-- The limit
-- ---------------------------------------------------------------------------

/--
**What the limit bounds.** Let a predicate be accepted. If no disjunction in it is without members,
then all that its expansion builds is within the limit. In any case what counts in it is within the
limit, and so are the running products of a conjunction that counts, but for those with a member
without clauses still to come and none behind them. For all other lists there is no bound but the
largest word.
-/
theorem expansion_within_limit {p : Predicate} {clauses : List Clause}
    (h : p.disjunctiveForm = .ok clauses) :
    (NoEmptyDisjunction p → ∀ q, OccursIn q p → BuildsWithin maxClauses q) ∧
    (∀ q, CountsIn q p → q.expand.length ≤ maxClauses ∧
      ∀ before after, q = allOf (before ++ after) →
        ((∃ r ∈ before, r.expand = []) ∨ ∀ r ∈ after, r.expand ≠ []) →
          (expandProduct [[]] before).length ≤ maxClauses) ∧
    ∀ q, OccursIn q p → BuildsWithin ((1 <<< 64) - 1) q := by
  obtain ⟨-, hlimit⟩ := disjunctiveForm_eq_ok h
  have hcounts : ∀ q, CountsIn q p → q.expand.length ≤ maxClauses ∧
      ∀ before after, q = allOf (before ++ after) →
        ((∃ r ∈ before, r.expand = []) ∨ ∀ r ∈ after, r.expand ≠ []) →
          (expandProduct [[]] before).length ≤ maxClauses := by
    intro q hq
    have hle : q.clauseTotal ≤ maxClauses := Nat.le_trans hq.clauseTotal_le hlimit
    refine ⟨length_expand q ▸ hle, ?_⟩
    rintro before after rfl hempty
    rw [length_expandProduct]
    exact Nat.le_trans (productTotal_le_of_append hempty) hle
  refine ⟨fun hp q hq => ?_, hcounts, fun q hq => ?_⟩
  · obtain ⟨hwhole, hrunning⟩ := hcounts q (hp.countsIn hq)
    refine ⟨hwhole, ?_⟩
    rintro before after rfl
    refine hrunning before after rfl (.inr fun r hr => ?_)
    cases hp.of_occursIn hq with
    | allOf hps => exact (hps r (List.mem_append_right _ hr)).expand_ne_nil
  · obtain ⟨n, hn⟩ : ∃ n, p.clauseCount? = some n := by
      unfold disjunctiveForm at h
      split at h
      · next n hn => exact ⟨n, hn⟩
      · cases h
    obtain ⟨m, hm⟩ := hq.exists_clauseCount? hn
    exact buildsWithin_of_clauseCount? hm

/-- Nine choices stay within the limit on their way to the 512 clauses. -/
theorem expansion_within_limit_nineChoices :
    (∃ clauses, (allOf (List.replicate 9 twoSizes)).disjunctiveForm = .ok clauses) ∧
    BuildsWithin maxClauses (allOf (List.replicate 9 twoSizes)) := by
  have hp : NoEmptyDisjunction (allOf (List.replicate 9 twoSizes)) :=
    .allOf fun p hp => List.eq_of_mem_replicate hp ▸ twoSizes_noEmptyDisjunction
  have h : (allOf (List.replicate 9 twoSizes)).disjunctiveForm =
      .ok (allOf (List.replicate 9 twoSizes)).expand := rfl
  exact ⟨⟨_, h⟩, (expansion_within_limit h).1 hp _ .here⟩

/-- Eleven choices and a disjunction without members are accepted, with no clauses. The expansion
builds the 2048 clauses of the choices on its way. -/
theorem expansion_beyond_limit :
    ¬ ∀ p clauses, p.disjunctiveForm = .ok clauses →
      ∀ q, OccursIn q p → BuildsWithin maxClauses q := by
  intro hall
  have h : (allOf (List.replicate 11 twoSizes ++ [anyOf []])).disjunctiveForm = .ok [] := by
    have hempty : (allOf (List.replicate 11 twoSizes ++ [anyOf []])).expand = [] := by
      rw [← List.length_eq_zero_iff, length_expand]
      decide
    rw [← hempty]
    rfl
  have hrunning := (hall _ _ h _ .here).running (List.replicate 11 twoSizes) [anyOf []] rfl
  rw [length_expandProduct] at hrunning
  revert hrunning
  decide

end ClusterFilter.Predicate
