import ClusterFilter.Predicate.Disjunctive
import ClusterFilter.Proofs.Predicate.Evaluation

/-!
# ClusterFilter — exactness of the disjunctive form

The clauses of a predicate say the same as the predicate, and the limit on their number is decided
without an error: the count that is kept in words of 64 bits stands against the count over all
natural numbers, `clauseTotal`.

Two gaps are bridged:

* **Counting vs building** — the limit is checked on a number that is computed apart from the
  clauses. `length_expand` and `clauseCount?_eq_some` say that both are the clause total.
* **Words vs numbers** — a count may overflow inside of a tree although the total of the whole tree
  is small, since a disjunction without members makes a product zero. Where no disjunction is empty
  all totals are positive, a product is no smaller than its factors, and an overflow anywhere puts
  the whole total beyond `2 ^ 64` (`le_clauseTotal_of_overflow`).

Main results:

* `holds_expand` — a predicate holds exactly where one of its clauses does.
* `disjunctiveForm_exact` — what is accepted is equivalent and within the limit; without empty
  disjunctions exactly the totals beyond the limit are refused.
-/

namespace ClusterFilter.Predicate

-- ---------------------------------------------------------------------------
-- The clause total
-- ---------------------------------------------------------------------------

mutual

/-- The number of clauses of a predicate: sums at disjunctions and products at conjunctions. -/
def clauseTotal : Predicate → Nat
  | leaf _ => 1
  | allOf children => productTotal children
  | anyOf children => sumTotal children

/-- The product of the totals of the members. -/
def productTotal : List Predicate → Nat
  | [] => 1
  | p :: ps => p.clauseTotal * productTotal ps

/-- The sum of the totals of the members. -/
def sumTotal : List Predicate → Nat
  | [] => 0
  | p :: ps => p.clauseTotal + sumTotal ps

end

/-- No disjunction in the tree is without members. -/
inductive NoEmptyDisjunction : Predicate → Prop where
  | leaf (c : Condition) : NoEmptyDisjunction (leaf c)
  | allOf {ps : List Predicate} :
      (∀ p ∈ ps, NoEmptyDisjunction p) → NoEmptyDisjunction (allOf ps)
  | anyOf {ps : List Predicate} :
      ps ≠ [] → (∀ p ∈ ps, NoEmptyDisjunction p) → NoEmptyDisjunction (anyOf ps)

theorem productTotal_pos {ps : List Predicate} (h : ∀ p ∈ ps, 0 < p.clauseTotal) :
    0 < productTotal ps := by
  induction ps with
  | nil => exact Nat.one_pos
  | cons p ps ih =>
    rw [productTotal]
    exact Nat.mul_pos (h p (List.mem_cons_self ..)) (ih fun q hq => h q (List.mem_cons_of_mem _ hq))

theorem NoEmptyDisjunction.clauseTotal_pos {p : Predicate} (h : NoEmptyDisjunction p) :
    0 < p.clauseTotal := by
  induction h with
  | leaf c => exact Nat.one_pos
  | allOf _ ih => exact productTotal_pos ih
  | @anyOf ps hne _ ih =>
    obtain ⟨p, rest, rfl⟩ := List.exists_cons_of_ne_nil hne
    have hp := ih p (List.mem_cons_self ..)
    rw [clauseTotal, sumTotal]
    omega

-- ---------------------------------------------------------------------------
-- The clauses are as many as the total
-- ---------------------------------------------------------------------------

theorem length_distribute (clauses others : List Clause) :
    (distribute clauses others).length = clauses.length * others.length := by
  simp only [distribute, List.length_flatMap, List.length_map]
  rw [List.map_const', List.sum_replicate_nat]

theorem length_expandProduct_of {ps : List Predicate}
    (h : ∀ p ∈ ps, p.expand.length = p.clauseTotal) (sofar : List Clause) :
    (expandProduct sofar ps).length = sofar.length * productTotal ps := by
  induction ps generalizing sofar with
  | nil => exact (Nat.mul_one _).symm
  | cons p ps ih =>
    rw [expandProduct, ih (fun q hq => h q (List.mem_cons_of_mem _ hq)), length_distribute,
      h p (List.mem_cons_self ..), productTotal, Nat.mul_assoc]

theorem length_expandSum_of {ps : List Predicate}
    (h : ∀ p ∈ ps, p.expand.length = p.clauseTotal) :
    (expandSum ps).length = sumTotal ps := by
  induction ps with
  | nil => rfl
  | cons p ps ih =>
    rw [expandSum, List.length_append, h p (List.mem_cons_self ..),
      ih fun q hq => h q (List.mem_cons_of_mem _ hq), sumTotal]

/-- A predicate expands to as many clauses as its total says. -/
theorem length_expand (p : Predicate) : p.expand.length = p.clauseTotal := by
  induction p using treeInduction with
  | leaf c => rfl
  | allOf ps ih =>
    rw [expand, length_expandProduct_of ih, clauseTotal, List.length_singleton, Nat.one_mul]
  | anyOf ps ih => exact length_expandSum_of ih

/-- The running product has as many clauses as the product of the totals says. -/
theorem length_expandProduct (ps : List Predicate) :
    (expandProduct [[]] ps).length = productTotal ps := by
  rw [length_expandProduct_of fun p _ => length_expand p, List.length_singleton, Nat.one_mul]

-- ---------------------------------------------------------------------------
-- The count in words is the total, or the total is large
-- ---------------------------------------------------------------------------

theorem countWord?_eq_some {n m : Nat} (h : countWord? n = some m) : m = n := by
  unfold countWord? at h
  split at h
  · exact (Option.some.inj h).symm
  · simp at h

theorem countWord?_eq_none {n : Nat} (h : countWord? n = none) : 1 <<< 64 ≤ n := by
  unfold countWord? at h
  split at h
  · simp at h
  · omega

/-- One step of the running product. -/
theorem productCount?_cons (sofar : Nat) (p : Predicate) (ps : List Predicate) :
    productCount? sofar (p :: ps) =
      p.clauseCount?.bind fun n => (countWord? (sofar * n)).bind fun m => productCount? m ps := by
  rw [productCount?]
  rfl

/-- One step of the running sum. -/
theorem sumCount?_cons (sofar : Nat) (p : Predicate) (ps : List Predicate) :
    sumCount? sofar (p :: ps) =
      p.clauseCount?.bind fun n => (countWord? (sofar + n)).bind fun m => sumCount? m ps := by
  rw [sumCount?]
  rfl

theorem productCount?_eq_some {ps : List Predicate}
    (h : ∀ p ∈ ps, ∀ n, p.clauseCount? = some n → n = p.clauseTotal) {sofar n : Nat}
    (hc : productCount? sofar ps = some n) : n = sofar * productTotal ps := by
  induction ps generalizing sofar with
  | nil =>
    rw [productCount?] at hc
    rw [productTotal, Nat.mul_one, Option.some.inj hc]
  | cons p ps ih =>
    rw [productCount?_cons, Option.bind_eq_some_iff] at hc
    obtain ⟨k, hk, hc⟩ := hc
    obtain ⟨m, hm, hc⟩ := Option.bind_eq_some_iff.mp hc
    rw [ih (fun q hq => h q (List.mem_cons_of_mem _ hq)) hc, countWord?_eq_some hm,
      h p (List.mem_cons_self ..) k hk, productTotal, Nat.mul_assoc]

theorem sumCount?_eq_some {ps : List Predicate}
    (h : ∀ p ∈ ps, ∀ n, p.clauseCount? = some n → n = p.clauseTotal) {sofar n : Nat}
    (hc : sumCount? sofar ps = some n) : n = sofar + sumTotal ps := by
  induction ps generalizing sofar with
  | nil =>
    rw [sumCount?] at hc
    rw [sumTotal, Nat.add_zero, Option.some.inj hc]
  | cons p ps ih =>
    rw [sumCount?_cons, Option.bind_eq_some_iff] at hc
    obtain ⟨k, hk, hc⟩ := hc
    obtain ⟨m, hm, hc⟩ := Option.bind_eq_some_iff.mp hc
    rw [ih (fun q hq => h q (List.mem_cons_of_mem _ hq)) hc, countWord?_eq_some hm,
      h p (List.mem_cons_self ..) k hk, sumTotal, Nat.add_assoc]

/-- A count that does not overflow is the total. -/
theorem clauseCount?_eq_some {p : Predicate} {n : Nat} (h : p.clauseCount? = some n) :
    n = p.clauseTotal := by
  induction p using treeInduction generalizing n with
  | leaf c =>
    rw [clauseCount?] at h
    exact (Option.some.inj h).symm
  | allOf ps ih =>
    rw [clauseCount?] at h
    rw [productCount?_eq_some (fun p hp _ => ih p hp) h, clauseTotal, Nat.one_mul]
  | anyOf ps ih =>
    rw [clauseCount?] at h
    rw [sumCount?_eq_some (fun p hp _ => ih p hp) h, clauseTotal, Nat.zero_add]

/-- Where all totals are positive, an overflow on the way to a product is one of the product: what
follows can only make it larger. -/
theorem le_productTotal_of_overflow {ps : List Predicate} (hpos : ∀ p ∈ ps, 0 < p.clauseTotal)
    (h : ∀ p ∈ ps, p.clauseCount? = none → 1 <<< 64 ≤ p.clauseTotal) {sofar : Nat}
    (hs : 0 < sofar) (hc : productCount? sofar ps = none) :
    1 <<< 64 ≤ sofar * productTotal ps := by
  induction ps generalizing sofar with
  | nil => simp [productCount?] at hc
  | cons p ps ih =>
    have hp := hpos p (List.mem_cons_self ..)
    have hrest : ∀ q ∈ ps, 0 < q.clauseTotal := fun q hq => hpos q (List.mem_cons_of_mem _ hq)
    rw [productTotal, ← Nat.mul_assoc]
    rw [productCount?_cons] at hc
    cases hk : p.clauseCount? with
    | none =>
      calc 1 <<< 64 ≤ p.clauseTotal := h p (List.mem_cons_self ..) hk
        _ ≤ sofar * p.clauseTotal := Nat.le_mul_of_pos_left _ hs
        _ ≤ sofar * p.clauseTotal * productTotal ps :=
          Nat.le_mul_of_pos_right _ (productTotal_pos hrest)
    | some k =>
      rw [hk, Option.bind_some, clauseCount?_eq_some hk] at hc
      cases hm : countWord? (sofar * p.clauseTotal) with
      | none =>
        exact Nat.le_trans (countWord?_eq_none hm)
          (Nat.le_mul_of_pos_right _ (productTotal_pos hrest))
      | some m =>
        rw [hm, Option.bind_some, countWord?_eq_some hm] at hc
        exact ih hrest (fun q hq => h q (List.mem_cons_of_mem _ hq)) (Nat.mul_pos hs hp) hc

theorem le_sumTotal_of_overflow {ps : List Predicate}
    (h : ∀ p ∈ ps, p.clauseCount? = none → 1 <<< 64 ≤ p.clauseTotal) {sofar : Nat}
    (hc : sumCount? sofar ps = none) : 1 <<< 64 ≤ sofar + sumTotal ps := by
  induction ps generalizing sofar with
  | nil => simp [sumCount?] at hc
  | cons p ps ih =>
    rw [sumTotal, ← Nat.add_assoc]
    rw [sumCount?_cons] at hc
    cases hk : p.clauseCount? with
    | none =>
      have := h p (List.mem_cons_self ..) hk
      omega
    | some k =>
      rw [hk, Option.bind_some, clauseCount?_eq_some hk] at hc
      cases hm : countWord? (sofar + p.clauseTotal) with
      | none => exact Nat.le_trans (countWord?_eq_none hm) (Nat.le_add_right ..)
      | some m =>
        rw [hm, Option.bind_some, countWord?_eq_some hm] at hc
        exact ih (fun q hq => h q (List.mem_cons_of_mem _ hq)) hc

/-- Without empty disjunctions a count overflows only if the total does. -/
theorem le_clauseTotal_of_overflow {p : Predicate} (hp : NoEmptyDisjunction p)
    (h : p.clauseCount? = none) : 1 <<< 64 ≤ p.clauseTotal := by
  induction hp with
  | leaf c => simp [clauseCount?] at h
  | allOf hps ih =>
    rw [clauseCount?] at h
    rw [clauseTotal, ← Nat.one_mul (productTotal _)]
    exact le_productTotal_of_overflow (fun p hp => (hps p hp).clauseTotal_pos) ih Nat.one_pos h
  | anyOf _ _ ih =>
    rw [clauseCount?] at h
    rw [clauseTotal, ← Nat.zero_add (sumTotal _)]
    exact le_sumTotal_of_overflow ih h

-- ---------------------------------------------------------------------------
-- The clauses say what the predicate says
-- ---------------------------------------------------------------------------

/-- Whether some clause has all of its conditions true. -/
def clausesHold (v : Condition → Bool) (clauses : List Clause) : Bool :=
  clauses.any fun clause => clause.all v

section

variable (v : Condition → Bool)

theorem clausesHold_append (a b : List Clause) :
    clausesHold v (a ++ b) = (clausesHold v a || clausesHold v b) :=
  List.any_append

/-- A clause put in front of each of the others has to hold with them. -/
theorem clausesHold_prepend (clause : Clause) (others : List Clause) :
    clausesHold v (others.map fun other => clause ++ other) =
      (clause.all v && clausesHold v others) := by
  induction others with
  | nil => exact (Bool.and_false _).symm
  | cons other others ih =>
    unfold clausesHold at ih ⊢
    rw [List.map_cons, List.any_cons, List.any_cons, ih, List.all_append, Bool.and_or_distrib_left]

/-- Distribution turns two lists of clauses into their conjunction. -/
theorem clausesHold_distribute (a b : List Clause) :
    clausesHold v (distribute a b) = (clausesHold v a && clausesHold v b) := by
  induction a with
  | nil => rfl
  | cons clause a ih =>
    rw [show distribute (clause :: a) b =
      (b.map fun other => clause ++ other) ++ distribute a b from rfl, clausesHold_append,
      clausesHold_prepend, ih, ← Bool.and_or_distrib_right]
    rfl

/-- A predicate holds exactly where one of its clauses does. -/
theorem holds_expand (p : Predicate) : p.holds v = clausesHold v p.expand := by
  have hProduct : ∀ ps : List Predicate, (∀ p ∈ ps, p.holds v = clausesHold v p.expand) →
      ∀ sofar, clausesHold v (expandProduct sofar ps) =
        (clausesHold v sofar && allHold v ps) := by
    intro ps
    induction ps with
    | nil => exact fun _ sofar => (Bool.and_true _).symm
    | cons p ps ih =>
      intro h sofar
      rw [expandProduct, ih (fun q hq => h q (List.mem_cons_of_mem _ hq)),
        clausesHold_distribute, allHold, h p (List.mem_cons_self ..), Bool.and_assoc]
  have hSum : ∀ ps : List Predicate, (∀ p ∈ ps, p.holds v = clausesHold v p.expand) →
      someHolds v ps = clausesHold v (expandSum ps) := by
    intro ps
    induction ps with
    | nil => exact fun _ => rfl
    | cons p ps ih =>
      intro h
      rw [someHolds, expandSum, clausesHold_append, h p (List.mem_cons_self ..),
        ih fun q hq => h q (List.mem_cons_of_mem _ hq)]
  induction p using treeInduction with
  | leaf c => simp [holds, expand, clausesHold]
  | allOf ps ih =>
    rw [holds, expand, hProduct ps ih]
    simp [clausesHold]
  | anyOf ps ih => exact hSum ps ih

end

-- ---------------------------------------------------------------------------
-- The limit
-- ---------------------------------------------------------------------------

/-- An accepted predicate is expanded, and its total keeps the limit. -/
theorem disjunctiveForm_eq_ok {p : Predicate} {clauses : List Clause}
    (h : p.disjunctiveForm = .ok clauses) :
    clauses = p.expand ∧ p.clauseTotal ≤ maxClauses := by
  unfold disjunctiveForm at h
  split at h
  · next n hn =>
    split at h
    · next hle =>
      injection h with h
      exact ⟨h.symm, clauseCount?_eq_some hn ▸ hle⟩
    · cases h
  · cases h

/-- A refusal tells the limit; either the total is beyond it, or a count overflowed. -/
theorem disjunctiveForm_eq_error {p : Predicate} {e : Error} (h : p.disjunctiveForm = .error e) :
    e = .tooManyClauses maxClauses ∧ (maxClauses < p.clauseTotal ∨ p.clauseCount? = none) := by
  unfold disjunctiveForm at h
  split at h
  · next n hn =>
    split at h
    · cases h
    · next hlt =>
      injection h with h
      exact ⟨h.symm, Or.inl (clauseCount?_eq_some hn ▸ Nat.lt_of_not_le hlt)⟩
  · next hn =>
    injection h with h
    exact ⟨h.symm, Or.inr hn⟩

/-- Where no disjunction is empty, exactly the totals beyond the limit are refused. -/
theorem disjunctiveForm_eq_error_iff {p : Predicate} (hp : NoEmptyDisjunction p) {e : Error} :
    p.disjunctiveForm = .error e ↔ e = .tooManyClauses maxClauses ∧ maxClauses < p.clauseTotal := by
  constructor
  · intro h
    obtain ⟨he, hlt | hn⟩ := disjunctiveForm_eq_error h
    · exact ⟨he, hlt⟩
    · have hbig := le_clauseTotal_of_overflow hp hn
      exact ⟨he, Nat.lt_of_lt_of_le (by decide) hbig⟩
  · rintro ⟨rfl, hlt⟩
    cases h : p.disjunctiveForm with
    | ok clauses => exact absurd (disjunctiveForm_eq_ok h).2 (Nat.not_le.mpr hlt)
    | error e => rw [(disjunctiveForm_eq_error h).1]

/--
**Exactness of the disjunctive form.** An accepted predicate gets as many clauses as its total
says, within the limit, and they say what it says. Where no disjunction is empty, the totals beyond
the limit are refused, however large they are, and no others.
-/
theorem disjunctiveForm_exact (p : Predicate) :
    (∀ clauses, p.disjunctiveForm = .ok clauses →
      clauses.length = p.clauseTotal ∧ p.clauseTotal ≤ maxClauses ∧
        ∀ v, p.holds v = clausesHold v clauses) ∧
    (NoEmptyDisjunction p → ∀ e, p.disjunctiveForm = .error e ↔
      e = .tooManyClauses maxClauses ∧ maxClauses < p.clauseTotal) := by
  refine ⟨?_, ?_⟩
  · intro clauses h
    obtain ⟨rfl, hle⟩ := disjunctiveForm_eq_ok h
    exact ⟨length_expand p, hle, fun v => holds_expand v p⟩
  · exact fun hp e => disjunctiveForm_eq_error_iff hp

/-- A choice between two sizes. -/
def twoSizes : Predicate :=
  anyOf [leaf ⟨⟨"size", none⟩, .value .number, .equal, .number 1⟩,
    leaf ⟨⟨"size", none⟩, .value .number, .equal, .number 2⟩]

theorem twoSizes_noEmptyDisjunction : NoEmptyDisjunction twoSizes :=
  .anyOf (List.cons_ne_nil _ _) (by simp [NoEmptyDisjunction.leaf])

/-- Two choices make four clauses; seventy choices, whose count overflows, are refused. -/
theorem disjunctiveForm_exact_twoSizes :
    (∃ clauses, (allOf [twoSizes, twoSizes]).disjunctiveForm = .ok clauses ∧
      clauses.length = (allOf [twoSizes, twoSizes]).clauseTotal) ∧
    NoEmptyDisjunction (allOf (List.replicate 70 twoSizes)) ∧
    (allOf (List.replicate 70 twoSizes)).disjunctiveForm =
      .error (.tooManyClauses maxClauses) := by
  have hInner : NoEmptyDisjunction (allOf (List.replicate 70 twoSizes)) :=
    .allOf fun p hp => List.eq_of_mem_replicate hp ▸ twoSizes_noEmptyDisjunction
  refine ⟨⟨_, rfl, ?_⟩, hInner, ?_⟩
  · exact ((disjunctiveForm_exact (allOf [twoSizes, twoSizes])).1 _ rfl).1
  · exact ((disjunctiveForm_exact _).2 hInner _).mpr ⟨rfl, by decide⟩

end ClusterFilter.Predicate
