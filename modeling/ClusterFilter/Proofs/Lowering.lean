import ClusterFilter.Compile
import ClusterFilter.Proofs.Outcome
import ClusterFilter.Proofs.Predicate.Evaluation
import Mathlib.Data.List.Forall2

/-!
# ClusterFilter — what lowering keeps

An expression is lowered to a predicate by two nested folds, whose combiners merge nodes of one
kind across the borders of groups. This module shows that nothing of the expression gets lost on
the way.

The two sides are kept apart. What a comparison says is read off the comparison and the schema
alone (`Comparison.States`), without the accessors that lowering goes through; what a tree says is
read off its shape (`Expr.Holds`), without predicates.

Main results:

* `ValueKind.admits_eq_allows` — accessors and grammars have the same operators for a kind.
* `Expr.lower_eq_foldlM`, `Term.lower_eq_foldlM` — lowering is a fold from left to right.
* `Comparison.lower_eq_ok_iff` — lowering a comparison gives the condition that it states, also
  where it goes through a complement.
* `Expr.lower_states` — the conditions of the predicate are those that the comparisons state, one
  for one and in order.
* `Expr.holds_lower` — the predicate holds exactly where the expression does.
* `compile_faithful` — both, for every text that compiles.
-/

namespace ClusterFilter

-- ---------------------------------------------------------------------------
-- Accessors
-- ---------------------------------------------------------------------------

theorem Schema.name_of_field? {schema : Schema} {name : String} {f : Field}
    (h : schema.field? name = some f) : f.name = name := by
  unfold field? at h
  have := List.find?_some h
  exact eq_of_beq this

/-- An accessor is bound to a field of the schema that has the name, a filterable kind and a key
exactly if one is given. -/
theorem Accessor.ofResource?_eq_some {r : Resource} {name : String} {key : Option String}
    {a : Accessor} (h : ofResource? r name key = some a) :
    ∃ f, r.schema.field? name = some f ∧ f.kind.filterable? = some a.kind ∧
      f.keyed = key.isSome ∧ a.field = ⟨name, key⟩ := by
  obtain ⟨f, hf, h⟩ := Option.bind_eq_some_iff.mp h
  unfold bind? at h
  split at h
  · next hkeyed =>
    obtain ⟨kind, hkind, rfl⟩ := Option.map_eq_some_iff.mp h
    exact ⟨f, hf, hkind, hkeyed, by rw [Schema.name_of_field? hf]⟩
  · cases h

theorem FieldKind.eq_value_of_filterable? {k : FieldKind} {kind : ValueKind}
    (h : k.filterable? = some kind) : k = .value kind := by
  cases k with
  | value kind' => exact congrArg _ (Option.some.inj h)
  | array => cases h
  | notApplicable => cases h
  | unknown => cases h

/-- Accessors compare by the operators that grammars have for their kind. -/
theorem ValueKind.admits_eq_allows (kind : ValueKind) (op : Operator) :
    kind.admits op = kind.comparators.allows op := by
  cases kind <;> cases op <;> rfl

theorem Accessor.compare_eq_ok_iff {a : Accessor} {op : Operator} {value : a.kind.Carrier}
    {p : Predicate} : a.compare op value = .ok p ↔ a.kind.admits op ∧
      p = .leaf ⟨a.field, .value a.kind, op, .ofCarrier a.kind value⟩ := by
  rw [compare]
  split
  · next hop =>
    constructor
    · intro hp
      injection hp with hp
      exact ⟨hop, hp.symm⟩
    · rintro ⟨-, rfl⟩
      rfl
  · next hop => exact ⟨nofun, fun ⟨h, _⟩ => absurd h hop⟩

/-- On strings the negation of what a field contains is what it does not contain. -/
theorem Accessor.negate_contains {a : Accessor} (hkind : a.kind = .string)
    (value : a.kind.Carrier) :
    (a.compare .contains value >>= fun p => p.negate) = a.compare .notContains value := by
  have hin : a.kind.admits .contains = true := by
    rw [hkind]
    rfl
  have hout : a.kind.admits .notContains = true := by
    rw [hkind]
    rfl
  rw [compare, compare, if_pos hin, if_pos hout]
  rfl

-- ---------------------------------------------------------------------------
-- Comparisons
-- ---------------------------------------------------------------------------

section

variable [Build]

/-- The condition is the one that the comparison states on the resource: the field, key and
operator as they are written, the kind of the field in the schema, and the value that the text of
the literal has as one of that kind. -/
structure Comparison.States (r : Resource) (c : Comparison) (d : Condition) : Prop where
  name_eq : d.field.name = c.field
  key_eq : d.field.key = c.key
  op_eq : d.op = c.op
  kind_eq : (r.schema.field? c.field).map Field.kind = some d.kind
  value_eq : ∃ (kind : ValueKind) (value : kind.Carrier), d.kind = .value kind ∧
    LiteralText.read r.schema kind c.literal.text = .ok value ∧ d.value = .ofCarrier kind value

/-- A comparison states one condition at most. -/
theorem Comparison.States.unique {r : Resource} {c : Comparison} {d d' : Condition}
    (h : c.States r d) (h' : c.States r d') : d = d' := by
  obtain ⟨⟨name, key⟩, kind, op, value⟩ := d
  obtain ⟨⟨name', key'⟩, kind', op', value'⟩ := d'
  obtain ⟨hn, hk, ho, hkind, k, v, hdk, hv, hval⟩ := h
  obtain ⟨hn', hk', ho', hkind', k', v', hdk', hv', hval'⟩ := h'
  dsimp only at *
  subst hn hk ho hn' hk' ho' hdk hdk' hval hval'
  rw [hkind] at hkind'
  injection hkind' with hkind'
  injection hkind' with hkind'
  subst hkind'
  rw [hv] at hv'
  injection hv' with hv'
  rw [hv']

/-- A comparison is lowered exactly when its field has an accessor, its literal a value of the
field's kind, and the kind the operator. -/
theorem Comparison.lower_eq_ok_iff {r : Resource} {c : Comparison} {p : Predicate} :
    c.lower r = .ok p ↔ ∃ a value, Accessor.ofResource? r c.field c.key = some a ∧
      LiteralText.read r.schema a.kind c.literal.text = .ok value ∧ a.kind.admits c.op ∧
      p = .leaf ⟨a.field, .value a.kind, c.op, .ofCarrier a.kind value⟩ := by
  unfold lower
  cases ha : Accessor.ofResource? r c.field c.key with
  | none => exact ⟨nofun, fun ⟨_, _, h, _⟩ => nomatch h⟩
  | some a =>
    have hcompare : ∀ value : a.kind.Carrier,
        (if a.kind = .string ∧ c.op = .notContains then do
          let p ← a.compare .contains value
          p.negate
        else a.compare c.op value) = .ok p ↔ a.kind.admits c.op ∧
          p = .leaf ⟨a.field, .value a.kind, c.op, .ofCarrier a.kind value⟩ := by
      intro value
      split
      · next h =>
        rw [Accessor.negate_contains h.1, h.2]
        exact Accessor.compare_eq_ok_iff
      · exact Accessor.compare_eq_ok_iff
    dsimp only
    rw [bind_eq_ok]
    constructor
    · rintro ⟨value, hvalue, h⟩
      rw [mapError_eq_ok] at hvalue
      obtain ⟨hop, hp⟩ := (hcompare value).mp h
      exact ⟨a, value, rfl, hvalue, hop, hp⟩
    · rintro ⟨a', value, h, hvalue, hop, hp⟩
      injection h with h
      subst h
      exact ⟨value, mapError_eq_ok.mpr hvalue, (hcompare value).mpr ⟨hop, hp⟩⟩

/-- A comparison is lowered to the condition that it states. -/
theorem Comparison.lower_states {r : Resource} {c : Comparison} {p : Predicate}
    (h : c.lower r = .ok p) : ∃ d, p = .leaf d ∧ c.States r d := by
  obtain ⟨a, value, ha, hvalue, -, rfl⟩ := lower_eq_ok_iff.mp h
  obtain ⟨f, hf, hkind, -, hfield⟩ := Accessor.ofResource?_eq_some ha
  refine ⟨_, rfl, by rw [hfield], by rw [hfield], rfl, ?_, a.kind, value, rfl, hvalue, rfl⟩
  rw [hf, Option.map_some, FieldKind.eq_value_of_filterable? hkind]

end

-- ---------------------------------------------------------------------------
-- The reading of a tree
-- ---------------------------------------------------------------------------

mutual

/-- Whether some term of the expression holds, where `truth` tells which comparisons do. -/
def Expr.Holds (truth : Comparison → Prop) : Expr → Prop
  | .one t => t.Holds truth
  | .more t rest => t.Holds truth ∨ rest.Holds truth

/-- Whether all factors of the term hold. -/
def Term.Holds (truth : Comparison → Prop) : Term → Prop
  | .one f => f.Holds truth
  | .more f rest => f.Holds truth ∧ rest.Holds truth

/-- Whether the comparison or the expression in parentheses holds. -/
def Factor.Holds (truth : Comparison → Prop) : Factor → Prop
  | .comparison c => truth c
  | .group e => e.Holds truth

end

section

variable [Build]

/-- A comparison is true under an assignment to conditions if the condition that it states is. -/
def Comparison.IsTrue (r : Resource) (v : Condition → Bool) (c : Comparison) : Prop :=
  ∃ d, c.States r d ∧ v d = true

-- ---------------------------------------------------------------------------
-- Lowering a tree
-- ---------------------------------------------------------------------------

section

variable {r : Resource} {p : Predicate}

theorem Expr.lower_one (t : Term) : (Expr.one t).lower r = t.lower r := by
  rw [Expr.lower]

theorem Term.lower_one (f : Factor) : (Term.one f).lower r = f.lower r := by
  rw [Term.lower]

theorem Expr.lower_more_eq_ok {t : Term} {rest : Expr} :
    (Expr.more t rest).lower r = .ok p ↔
      ∃ p₁, t.lower r = .ok p₁ ∧ ∃ p₂, rest.lower r = .ok p₂ ∧ p = p₁.or p₂ := by
  rw [Expr.lower, bind_eq_ok]
  refine exists_congr fun p₁ => and_congr_right fun _ => ?_
  rw [bind_eq_ok]
  refine exists_congr fun p₂ => and_congr_right fun _ => ?_
  exact ⟨fun h => by injection h with h; exact h.symm, fun h => by rw [h]⟩

theorem Term.lower_more_eq_ok {f : Factor} {rest : Term} :
    (Term.more f rest).lower r = .ok p ↔
      ∃ p₁, f.lower r = .ok p₁ ∧ ∃ p₂, rest.lower r = .ok p₂ ∧ p = p₁.and p₂ := by
  rw [Term.lower, bind_eq_ok]
  refine exists_congr fun p₁ => and_congr_right fun _ => ?_
  rw [bind_eq_ok]
  refine exists_congr fun p₂ => and_congr_right fun _ => ?_
  exact ⟨fun h => by injection h with h; exact h.symm, fun h => by rw [h]⟩

end

section

variable (r : Resource)

/-- A step of the fold over the terms of an expression. -/
def Expr.addTerm (p : Predicate) (t : Term) : Except Error Predicate := do
  let q ← t.lower r
  .ok (p.or q)

/-- A step of the fold over the factors of a term. -/
def Term.addFactor (p : Predicate) (f : Factor) : Except Error Predicate := do
  let q ← f.lower r
  .ok (p.and q)

/-- Where a predicate stands in front, it makes no difference whether the terms are added to it one
after another or all at once. -/
theorem Expr.lower_or (p : Predicate) (e : Expr) :
    (e.lower r >>= fun q => .ok (p.or q)) = e.terms.foldlM (Expr.addTerm r) p := by
  cases e with
  | one t =>
    rw [Expr.lower_one, Expr.terms, List.foldlM_cons]
    exact (bind_pure _).symm
  | more t e =>
    rw [Expr.lower, Expr.terms, List.foldlM_cons, Expr.addTerm]
    simp only [bind_assoc, ok_bind]
    refine bind_congr fun q => ?_
    rw [← Expr.lower_or (p.or q) e]
    simp only [Predicate.or_assoc]

theorem Term.lower_and (p : Predicate) (t : Term) :
    (t.lower r >>= fun q => .ok (p.and q)) = t.factors.foldlM (Term.addFactor r) p := by
  cases t with
  | one f =>
    rw [Term.lower_one, Term.factors, List.foldlM_cons]
    exact (bind_pure _).symm
  | more f t =>
    rw [Term.lower, Term.factors, List.foldlM_cons, Term.addFactor]
    simp only [bind_assoc, ok_bind]
    refine bind_congr fun q => ?_
    rw [← Term.lower_and (p.and q) t]
    simp only [Predicate.and_assoc]

/-- The terms of an expression are lowered and added from left to right. -/
theorem Expr.lower_eq_foldlM {t : Term} {ts : List Term} : ∀ {e : Expr}, e.terms = t :: ts →
    e.lower r = (t.lower r >>= ts.foldlM (Expr.addTerm r))
  | .one _, rfl => by
    rw [Expr.lower_one]
    exact (bind_pure _).symm
  | .more _ e, rfl => by
    rw [Expr.lower]
    exact bind_congr fun p => Expr.lower_or r p e

/-- The factors of a term are lowered and added from left to right. -/
theorem Term.lower_eq_foldlM {f : Factor} {fs : List Factor} : ∀ {t : Term}, t.factors = f :: fs →
    t.lower r = (f.lower r >>= fs.foldlM (Term.addFactor r))
  | .one _, rfl => by
    rw [Term.lower_one]
    exact (bind_pure _).symm
  | .more _ t, rfl => by
    rw [Term.lower]
    exact bind_congr fun p => Term.lower_and r p t

end

mutual

/-- The conditions of the predicate of an expression are those that its comparisons state. -/
theorem Expr.lower_states {r : Resource} {p : Predicate} : ∀ {e : Expr}, e.lower r = .ok p →
    List.Forall₂ (Comparison.States r) e.comparisons p.leaves
  | .one t, h => by
    rw [Expr.lower_one] at h
    exact Term.lower_states h
  | .more t rest, h => by
    obtain ⟨p₁, h₁, p₂, h₂, rfl⟩ := Expr.lower_more_eq_ok.mp h
    rw [Predicate.leaves_or]
    exact List.rel_append (Term.lower_states h₁) (Expr.lower_states h₂)

theorem Term.lower_states {r : Resource} {p : Predicate} : ∀ {t : Term}, t.lower r = .ok p →
    List.Forall₂ (Comparison.States r) t.comparisons p.leaves
  | .one f, h => by
    rw [Term.lower_one] at h
    exact Factor.lower_states h
  | .more f rest, h => by
    obtain ⟨p₁, h₁, p₂, h₂, rfl⟩ := Term.lower_more_eq_ok.mp h
    rw [Predicate.leaves_and]
    exact List.rel_append (Factor.lower_states h₁) (Term.lower_states h₂)

theorem Factor.lower_states {r : Resource} {p : Predicate} : ∀ {f : Factor}, f.lower r = .ok p →
    List.Forall₂ (Comparison.States r) f.comparisons p.leaves
  | .comparison c, h => by
    obtain ⟨d, rfl, hd⟩ := Comparison.lower_states (by rwa [Factor.lower] at h)
    exact .cons hd .nil
  | .group e, h => by
    rw [Factor.lower] at h
    exact Expr.lower_states h

end

mutual

/-- The predicate of an expression holds exactly where the expression does. -/
theorem Expr.holds_lower {r : Resource} (v : Condition → Bool) {p : Predicate} :
    ∀ {e : Expr}, e.lower r = .ok p → (p.holds v = true ↔ e.Holds (Comparison.IsTrue r v))
  | .one t, h => by
    rw [Expr.lower_one] at h
    exact Term.holds_lower v h
  | .more t rest, h => by
    obtain ⟨p₁, h₁, p₂, h₂, rfl⟩ := Expr.lower_more_eq_ok.mp h
    rw [Predicate.holds_or, Bool.or_eq_true, Term.holds_lower v h₁, Expr.holds_lower v h₂]
    rfl

theorem Term.holds_lower {r : Resource} (v : Condition → Bool) {p : Predicate} :
    ∀ {t : Term}, t.lower r = .ok p → (p.holds v = true ↔ t.Holds (Comparison.IsTrue r v))
  | .one f, h => by
    rw [Term.lower_one] at h
    exact Factor.holds_lower v h
  | .more f rest, h => by
    obtain ⟨p₁, h₁, p₂, h₂, rfl⟩ := Term.lower_more_eq_ok.mp h
    rw [Predicate.holds_and, Bool.and_eq_true, Factor.holds_lower v h₁, Term.holds_lower v h₂]
    rfl

theorem Factor.holds_lower {r : Resource} (v : Condition → Bool) {p : Predicate} :
    ∀ {f : Factor}, f.lower r = .ok p → (p.holds v = true ↔ f.Holds (Comparison.IsTrue r v))
  | .comparison c, h => by
    obtain ⟨d, rfl, hd⟩ := Comparison.lower_states (by rwa [Factor.lower] at h)
    exact ⟨fun hv => ⟨d, hd, hv⟩, fun ⟨d', hd', hv⟩ => hd.unique hd' ▸ hv⟩
  | .group e, h => by
    rw [Factor.lower] at h
    exact Expr.holds_lower v h

end

-- ---------------------------------------------------------------------------
-- Texts that compile
-- ---------------------------------------------------------------------------

theorem Resource.compile_eq_ok_iff {r : Resource} {text : String} {p : Predicate} :
    r.compile text = .ok p ↔ ∃ e, r.parse text = .ok e ∧ e.lower r = .ok p :=
  bind_eq_ok

/--
**Faithful compilation.** A text that compiles has a tree, and its predicate says under every
assignment to conditions what the tree says. The conditions of the predicate from left to right are
the ones that the comparisons of the tree state, one for each, and so there are as many.
-/
theorem compile_faithful {r : Resource} {text : String} {p : Predicate}
    (h : r.compile text = .ok p) :
    ∃ e, r.parse text = .ok e ∧
      (∀ v, p.holds v = true ↔ e.Holds (Comparison.IsTrue r v)) ∧
      List.Forall₂ (Comparison.States r) e.comparisons p.leaves ∧
      p.size = e.comparisons.length := by
  obtain ⟨e, he, hp⟩ := Resource.compile_eq_ok_iff.mp h
  have hstates := Expr.lower_states hp
  refine ⟨e, he, fun v => Expr.holds_lower v hp, hstates, ?_⟩
  rw [Predicate.size_eq_length_leaves, hstates.length_eq]

end

/-- A text with a group and a complement compiles, to a predicate with its three comparisons. -/
theorem compile_faithful_complement :
    ∃ p, Resource.session.compile
        "session_id = a and (options.k notcontains b or status != paused)" = .ok p ∧
      ∃ e, Resource.session.parse
          "session_id = a and (options.k notcontains b or status != paused)" = .ok e ∧
        (∀ v, p.holds v = true ↔ e.Holds (Comparison.IsTrue .session v)) ∧
        p.size = e.comparisons.length := by
  have h : Resource.session.compile
      "session_id = a and (options.k notcontains b or status != paused)" =
      .ok (.allOf [.leaf ⟨⟨"session_id", none⟩, .value .string, .equal, .string "a"⟩,
        .anyOf [.leaf ⟨⟨"options", some "k"⟩, .value .string, .notContains, .string "b"⟩,
          .leaf ⟨⟨"status", none⟩, .value .status, .notEqual, .status ⟨"PAUSED", 3⟩⟩]]) := by
    rfl
  obtain ⟨e, he, hholds, -, hsize⟩ := compile_faithful h
  exact ⟨_, h, e, he, hholds, hsize⟩

end ClusterFilter
