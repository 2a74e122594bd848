import ClusterFilter.Proofs.Expression.Reading
import ClusterFilter.Proofs.Literal
import ClusterFilter.Proofs.Lowering
import ClusterFilter.Proofs.Predicate.Flattening

/-!
# ClusterFilter — predicates compiled back

The text of a predicate is an expression, and the expression compiles to the flattened predicate.
No reader takes part in the argument: the text of every node is derived in the grammar of the
resource, as a term or as an expression that is lowered to the node (`WritesTerm`, `WritesExpr`),
and what is derived is parsed.

A derivation is made for a text with anything behind it that ends a bare text. This carries the
induction through the tree: behind a member stands a keyword after a space, a closing parenthesis
or the end of the text.

Main results:

* `writesTerm_condition` — a condition that an accessor builds is written as a comparison.
* `writes` — a predicate is written as an expression, with parentheses around each disjunction that
  is a member of a conjunction.
* `compile_text` — the text of a predicate with regular dates compiles to the predicate, flattened.
-/

namespace ClusterFilter

open Grammar Token

-- ---------------------------------------------------------------------------
-- Field references and operators
-- ---------------------------------------------------------------------------

/-- A field reference is a field name and the part that the production asks for behind it. -/
theorem keyPart_chars {p : Production} {f : FieldRef} (hname : f.name.toList ≠ [])
    (hword : ∀ x ∈ f.name.toList, Text.isWordChar x = true)
    (hhead : ∀ x ∈ f.name.toList.head?, x.isAlpha = true ∨ x = '_')
    (hkeyed : p.keyed = f.key.isSome) (rest : List Char) :
    ∃ afterName, Identifier f.name.toList (f.chars ++ ' ' :: rest) afterName ∧
      KeyPart p f.key afterName (' ' :: rest) := by
  obtain ⟨name, key⟩ := f
  have hidentifier : ∀ {x : Char} (xs : List Char), Text.isWordChar x = false →
      Identifier name.toList (name.toList ++ x :: xs) (x :: xs) := by
    intro x xs hx
    exact ⟨⟨rfl, hname, hword, Text.forall_mem_head?_cons hx⟩, hhead⟩
  cases key with
  | none => exact ⟨_, hidentifier rest (by decide), .absent hkeyed⟩
  | some key =>
    unfold FieldRef.chars
    dsimp only
    split
    · next hbare =>
      rw [Text.isBareKey, Bool.and_eq_true, Bool.not_eq_true', List.isEmpty_eq_false_iff,
        List.all_eq_true] at hbare
      rw [List.append_assoc, List.cons_append]
      refine ⟨_, hidentifier _ (by decide), .present hkeyed (.dotted (.refl _) (.refl _) ?_)⟩
      exact ⟨rfl, hbare.1, hbare.2, Text.forall_mem_head?_cons (by decide)⟩
    · rw [List.append_assoc, List.append_assoc, List.cons_append]
      exact ⟨_, hidentifier _ (by decide), .present hkeyed
        (.bracketed (.refl _) (.refl _) (quoted_quote key.toList _) (.refl _))⟩

/-- An operator with a space behind it is a comparator: no longer sign fits, because no sign
has a space in it. -/
theorem comparator_symbol (op : Operator) (rest : List Char) :
    Comparator op (op.symbol.toList ++ ' ' :: rest) (' ' :: rest) := by
  by_cases hop : op ∈ Operator.signs
  · refine .sign hop rfl fun op' _ hfits => ?_
    have hspace : ∀ op : Operator, ' ' ∉ op.symbol.toList := by
      intro op
      cases op <;> decide
    apply Nat.le_of_not_lt
    intro hlonger
    have hprefix : op.symbol.toList ++ [' '] <+: op.symbol.toList ++ ' ' :: rest :=
      ⟨rest, by rw [List.append_assoc]; rfl⟩
    have hinside : op.symbol.toList ++ [' '] <+: op'.symbol.toList := by
      apply List.prefix_of_prefix_length_le hprefix hfits
      rw [List.length_append, List.length_singleton]
      exact hlonger
    exact hspace op' (hinside.subset (List.mem_append_right _ (List.mem_singleton_self ' ')))
  · exact .word hop ⟨op.symbol.toList, rfl, beq_self_eq_true (Text.lower op.symbol.toList), rfl⟩

-- ---------------------------------------------------------------------------
-- Conditions
-- ---------------------------------------------------------------------------

/-- An accessor of the resource builds the condition from a value of its kind. -/
def Resource.Builds (r : Resource) (c : Condition) : Prop :=
  ∃ (name : String) (key : Option String) (a : Accessor) (op : Operator) (value : a.kind.Carrier),
    Accessor.ofResource? r name key = some a ∧ a.compare op value = .ok (.leaf c)

/-- The fields of the resources have names that stand as field names in expressions. -/
theorem fieldName_isIdentifier {r : Resource} {f : Field} (h : f ∈ r.schema.fields) :
    f.name.toList ≠ [] ∧ (∀ x ∈ f.name.toList, Text.isWordChar x = true) ∧
      ∀ x ∈ f.name.toList.head?, x.isAlpha = true ∨ x = '_' := by
  have hall : ∀ r : Resource, ∀ f ∈ r.schema.fields, f.name.toList ≠ [] ∧
      f.name.toList.all Text.isWordChar = true ∧
        f.name.toList.head?.all (fun x => x.isAlpha || x == '_') = true := by
    intro r
    cases r <;> decide +kernel
  obtain ⟨hne, hword, hhead⟩ := hall r f h
  refine ⟨hne, List.all_eq_true.mp hword, fun x hx => ?_⟩
  rw [Option.mem_def.mp hx, Option.all_some, Bool.or_eq_true, beq_iff_eq] at hhead
  exact hhead

section

variable [Build]

/-- Whatever stands behind the text and ends a bare text, the text in front of it is a term that is
lowered to the predicate and opens no more than `depth` parentheses at once. -/
def WritesTerm (r : Resource) (g : Grammar) (cs : List Char) (p : Predicate) (depth : Nat) : Prop :=
  ∀ rest : List Char, Value.EndsBare rest →
    ∃ t : Term, DerivesTerm g t (cs ++ rest) rest ∧ t.lower r = .ok p ∧ t.nesting ≤ depth

/-- The same for an expression. -/
def WritesExpr (r : Resource) (g : Grammar) (cs : List Char) (p : Predicate) (depth : Nat) : Prop :=
  ∀ rest : List Char, Value.EndsBare rest →
    ∃ e : Expr, DerivesExpr g e (cs ++ rest) rest ∧ e.lower r = .ok p ∧ e.nesting ≤ depth

/-- A condition that an accessor builds is written as a comparison that states it. -/
theorem writesTerm_condition {r : Resource} {g : Grammar} (hg : r.grammar = .ok g)
    {c : Condition} (hbuilds : r.Builds c) (hrange : c.value.InRange r.schema)
    (hregular : c.value.Regular) (depth : Nat) : WritesTerm r g c.chars (.leaf c) depth := by
  obtain ⟨name, key, a, op, value, ha, hcompare⟩ := hbuilds
  obtain ⟨f, hf, hkind, hkeyed, hfield⟩ := Accessor.ofResource?_eq_some ha
  have hmem : f ∈ r.schema.fields := List.mem_of_find?_eq_some hf
  have hfname := Schema.name_of_field? hf
  obtain ⟨hadmits, hleaf⟩ := Accessor.compare_eq_ok_iff.mp hcompare
  obtain rfl := Predicate.leaf.inj hleaf
  have hallowed := (a.kind.admits_eq_allows op).symm.trans hadmits
  have hproduction : (⟨f.name, a.kind, f.keyed, a.kind.comparators, a.kind⟩ : Production) ∈
      g.productions := by
    rw [productions_of_generate hg]
    exact List.mem_filterMap.mpr ⟨f, hmem, by rw [Field.production?, hkind]; rfl⟩
  intro rest hrest
  obtain ⟨l, hl, hread⟩ := Value.literal_chars value hrange hregular hrest
  obtain ⟨hname, hword, hhead⟩ := fieldName_isIdentifier hmem
  subst hfname
  obtain ⟨afterName, hidentifier, hkey⟩ :=
    keyPart_chars (p := ⟨f.name, a.kind, f.keyed, a.kind.comparators, a.kind⟩)
      (f := ⟨f.name, key⟩) hname hword hhead hkeyed
      (op.symbol.toList ++ ' ' :: ((Value.ofCarrier a.kind value).chars ++ rest))
  refine ⟨.one (.comparison ⟨f.name, key, op, l, ⟨0, 0⟩⟩), ?_, ?_, Nat.zero_le _⟩
  · have hchars : Condition.chars ⟨a.field, .value a.kind, op, .ofCarrier a.kind value⟩ ++ rest =
        FieldRef.chars ⟨f.name, key⟩ ++
          ' ' :: (op.symbol.toList ++ ' ' :: ((Value.ofCarrier a.kind value).chars ++ rest)) := by
      rw [Condition.chars, hfield, List.append_assoc, List.append_assoc]
      rfl
    rw [hchars]
    exact .one (.comparison (.refl _) ⟨_, hproduction, rfl, hallowed, afterName, _, _, _, _,
      hidentifier, hkey, blanks_space _, comparator_symbol op _,
      blanks_space _, hl⟩)
  · rw [Term.lower_one, Factor.lower]
    exact Comparison.lower_eq_ok_iff.mpr ⟨a, value, ha, hread, hadmits, rfl⟩

end

-- ---------------------------------------------------------------------------
-- Joining terms and expressions
-- ---------------------------------------------------------------------------

/-- The factors of both terms. -/
def Term.append : Term → Term → Term
  | .one f, u => .more f u
  | .more f t, u => .more f (t.append u)

/-- The terms of both expressions. -/
def Expr.append : Expr → Expr → Expr
  | .one t, u => .more t u
  | .more t e, u => .more t (e.append u)

section

variable {r : Resource} {g : Grammar}

/-- White space may stand in front of a term. -/
theorem derivesTerm_of_blanks {t : Term} {cs cs' rest : List Char} (hb : Blanks cs' cs)
    (h : DerivesTerm g t cs rest) : DerivesTerm g t cs' rest := by
  have hfactor : ∀ {f : Factor} {rest : List Char}, DerivesFactor g f cs rest →
      DerivesFactor g f cs' rest := by
    intro f rest h
    cases h with
    | comparison hb' h => exact .comparison (hb.trans hb') h
    | group hopen he hclose => exact .group (hb.trans hopen) he hclose
  cases h with
  | one h => exact .one (hfactor h)
  | more h hb' hword ht => exact .more (hfactor h) hb' hword ht

theorem derivesExpr_of_blanks {e : Expr} {cs cs' rest : List Char} (hb : Blanks cs' cs)
    (h : DerivesExpr g e cs rest) : DerivesExpr g e cs' rest := by
  cases h with
  | one h => exact .one (derivesTerm_of_blanks hb h)
  | more h hb' hword he => exact .more (derivesTerm_of_blanks hb h) hb' hword he

theorem derivesTerm_append {u : Term} {a b c rest : List Char} (hb : Blanks a b)
    (hword : Keyword "and" b c) (hu : DerivesTerm g u c rest) : ∀ {t : Term} {cs : List Char},
    DerivesTerm g t cs a → DerivesTerm g (t.append u) cs rest
  | .one _, _, .one h => .more h hb hword hu
  | .more _ _, _, .more h hb' hword' ht => .more h hb' hword' (derivesTerm_append hb hword hu ht)

theorem derivesExpr_append {u : Expr} {a b c rest : List Char} (hb : Blanks a b)
    (hword : Keyword "or" b c) (hu : DerivesExpr g u c rest) : ∀ {e : Expr} {cs : List Char},
    DerivesExpr g e cs a → DerivesExpr g (e.append u) cs rest
  | .one _, _, .one h => .more h hb hword hu
  | .more _ _, _, .more h hb' hword' he => .more h hb' hword' (derivesExpr_append hb hword hu he)

theorem nesting_termAppend {u : Term} {depth : Nat} (hu : u.nesting ≤ depth) :
    ∀ {t : Term}, t.nesting ≤ depth → (t.append u).nesting ≤ depth
  | .one _, ht => Nat.max_le.mpr ⟨ht, hu⟩
  | .more _ _, ht => Nat.max_le.mpr
    ⟨(Nat.max_le.mp ht).1, nesting_termAppend hu (Nat.max_le.mp ht).2⟩

theorem nesting_exprAppend {u : Expr} {depth : Nat} (hu : u.nesting ≤ depth) :
    ∀ {e : Expr}, e.nesting ≤ depth → (e.append u).nesting ≤ depth
  | .one _, he => Nat.max_le.mpr ⟨he, hu⟩
  | .more _ _, he => Nat.max_le.mpr
    ⟨(Nat.max_le.mp he).1, nesting_exprAppend hu (Nat.max_le.mp he).2⟩

theorem endsBare_space (cs : List Char) : Value.EndsBare (' ' :: cs) :=
  Text.forall_mem_head?_cons (by decide)

theorem endsBare_close (cs : List Char) : Value.EndsBare (')' :: cs) :=
  Text.forall_mem_head?_cons (by decide)

variable [Build]

/-- Joined terms are lowered to the conjunction, because the conjunction is associative. -/
theorem lower_termAppend {u : Term} {q : Predicate} (hu : u.lower r = .ok q) :
    ∀ {t : Term} {p : Predicate}, t.lower r = .ok p → (t.append u).lower r = .ok (p.and q)
  | .one f, p, ht => by
    rw [Term.lower_one] at ht
    exact Term.lower_more_eq_ok.mpr ⟨p, ht, q, hu, rfl⟩
  | .more f t, p, ht => by
    obtain ⟨p₁, hf, p₂, hrest, rfl⟩ := Term.lower_more_eq_ok.mp ht
    exact Term.lower_more_eq_ok.mpr
      ⟨p₁, hf, p₂.and q, lower_termAppend hu hrest, Predicate.and_assoc p₁ p₂ q⟩

/-- Joined expressions are lowered to the disjunction. -/
theorem lower_exprAppend {u : Expr} {q : Predicate} (hu : u.lower r = .ok q) :
    ∀ {e : Expr} {p : Predicate}, e.lower r = .ok p → (e.append u).lower r = .ok (p.or q)
  | .one t, p, he => by
    rw [Expr.lower_one] at he
    exact Expr.lower_more_eq_ok.mpr ⟨p, he, q, hu, rfl⟩
  | .more t e, p, he => by
    obtain ⟨p₁, ht, p₂, hrest, rfl⟩ := Expr.lower_more_eq_ok.mp he
    exact Expr.lower_more_eq_ok.mpr
      ⟨p₁, ht, p₂.or q, lower_exprAppend hu hrest, Predicate.or_assoc p₁ p₂ q⟩

-- ---------------------------------------------------------------------------
-- Writing the nodes
-- ---------------------------------------------------------------------------

variable {cs cs' : List Char} {p q : Predicate} {depth : Nat}

theorem writesTerm_and (hp : WritesTerm r g cs p depth) (hq : WritesTerm r g cs' q depth) :
    WritesTerm r g (cs ++ " and ".toList ++ cs') (p.and q) depth := by
  intro rest hrest
  obtain ⟨u, hu, hlower', hdepth'⟩ := hq rest hrest
  obtain ⟨t, ht, hlower, hdepth⟩ := hp _ (endsBare_space ("and ".toList ++ (cs' ++ rest)))
  have hword : Keyword "and" ("and ".toList ++ (cs' ++ rest)) (' ' :: (cs' ++ rest)) :=
    ⟨"and".toList, rfl, by decide, rfl⟩
  refine ⟨t.append u, ?_, lower_termAppend hlower' hlower, nesting_termAppend hdepth' hdepth⟩
  rw [List.append_assoc, List.append_assoc]
  exact derivesTerm_append (blanks_space _) hword (derivesTerm_of_blanks (blanks_space _) hu) ht

theorem writesExpr_or (hp : WritesExpr r g cs p depth) (hq : WritesExpr r g cs' q depth) :
    WritesExpr r g (cs ++ " or ".toList ++ cs') (p.or q) depth := by
  intro rest hrest
  obtain ⟨u, hu, hlower', hdepth'⟩ := hq rest hrest
  obtain ⟨e, he, hlower, hdepth⟩ := hp _ (endsBare_space ("or ".toList ++ (cs' ++ rest)))
  have hword : Keyword "or" ("or ".toList ++ (cs' ++ rest)) (' ' :: (cs' ++ rest)) :=
    ⟨"or".toList, rfl, by decide, rfl⟩
  refine ⟨e.append u, ?_, lower_exprAppend hlower' hlower, nesting_exprAppend hdepth' hdepth⟩
  rw [List.append_assoc, List.append_assoc]
  exact derivesExpr_append (blanks_space _) hword (derivesExpr_of_blanks (blanks_space _) hu) he

/-- A term is an expression. -/
theorem WritesTerm.expr (hp : WritesTerm r g cs p depth) : WritesExpr r g cs p depth := by
  intro rest hrest
  obtain ⟨t, ht, hlower, hdepth⟩ := hp rest hrest
  exact ⟨.one t, .one ht, (Expr.lower_one t).trans hlower, hdepth⟩

/-- An expression in parentheses is a term. -/
theorem WritesExpr.group (hp : WritesExpr r g cs p depth) :
    WritesTerm r g ('(' :: cs ++ [')']) p (depth + 1) := by
  intro rest _
  obtain ⟨e, he, hlower, hdepth⟩ := hp _ (endsBare_close rest)
  refine ⟨.one (.group e), ?_, ?_, Nat.succ_le_succ hdepth⟩
  · rw [List.append_assoc, List.cons_append]
    exact .one (.group (.refl _) he (.refl _))
  · rw [Term.lower_one, Factor.lower]
    exact hlower

theorem WritesTerm.mono {depth' : Nat} (hp : WritesTerm r g cs p depth) (h : depth ≤ depth') :
    WritesTerm r g cs p depth' := by
  intro rest hrest
  obtain ⟨t, ht, hlower, hdepth⟩ := hp rest hrest
  exact ⟨t, ht, hlower, Nat.le_trans hdepth h⟩

theorem WritesExpr.mono {depth' : Nat} (hp : WritesExpr r g cs p depth) (h : depth ≤ depth') :
    WritesExpr r g cs p depth' := by
  intro rest hrest
  obtain ⟨e, he, hlower, hdepth⟩ := hp rest hrest
  exact ⟨e, he, hlower, Nat.le_trans hdepth h⟩

end

-- ---------------------------------------------------------------------------
-- Writing a tree
-- ---------------------------------------------------------------------------

namespace Predicate

mutual

/-- The most disjunctions on a way from the root to a condition that are members of a conjunction.
Whether the root is such a member is given. -/
def choiceDepth (isMember : Bool) : Predicate → Nat
  | leaf _ => 0
  | allOf children => choiceDepthAll true children
  | anyOf children => choiceDepthAll false children + if isMember then 1 else 0

/-- The largest depth among the members. -/
def choiceDepthAll (isMember : Bool) : List Predicate → Nat
  | [] => 0
  | p :: ps => max (p.choiceDepth isMember) (choiceDepthAll isMember ps)

end

variable [Build] {r : Resource} {g : Grammar}

/-- The members of a conjunction are written with `and` between them. -/
theorem writes_conjunction {ps : List Predicate} (hne : ps ≠ [])
    (h : ∀ p ∈ ps, WritesTerm r g p.memberChars p.flat (p.choiceDepth true)) :
    WritesTerm r g (conjunctionChars ps) (combineAll and (flatAll ps))
      (choiceDepthAll true ps) := by
  induction ps with
  | nil => exact absurd rfl hne
  | cons p ps ih =>
    have hp := h p (List.mem_cons_self ..)
    cases ps with
    | nil => exact hp.mono (Nat.le_max_left ..)
    | cons q qs =>
      have hrest := ih (List.cons_ne_nil q qs) fun q hq => h q (List.mem_cons_of_mem _ hq)
      rw [flatAll, combineAll_cons and_assoc _ (flatAll_ne_nil (List.cons_ne_nil q qs))]
      exact writesTerm_and (hp.mono (Nat.le_max_left ..)) (hrest.mono (Nat.le_max_right ..))

/-- The members of a disjunction are written with `or` between them. -/
theorem writes_disjunction {ps : List Predicate} (hne : ps ≠ [])
    (h : ∀ p ∈ ps, WritesExpr r g p.chars p.flat (p.choiceDepth false)) :
    WritesExpr r g (disjunctionChars ps) (combineAll or (flatAll ps))
      (choiceDepthAll false ps) := by
  induction ps with
  | nil => exact absurd rfl hne
  | cons p ps ih =>
    have hp := h p (List.mem_cons_self ..)
    cases ps with
    | nil => exact hp.mono (Nat.le_max_left ..)
    | cons q qs =>
      have hrest := ih (List.cons_ne_nil q qs) fun q hq => h q (List.mem_cons_of_mem _ hq)
      rw [flatAll, combineAll_cons or_assoc _ (flatAll_ne_nil (List.cons_ne_nil q qs))]
      exact writesExpr_or (hp.mono (Nat.le_max_left ..)) (hrest.mono (Nat.le_max_right ..))

/-- A predicate is written as a term where it is a member of a conjunction, and as an expression
everywhere else. -/
theorem writes (hg : r.grammar = .ok g) {p : Predicate} (hnode : p.NoEmptyNode)
    (hleaves : ∀ c ∈ p.leaves, r.Builds c ∧ c.value.InRange r.schema ∧ c.value.Regular) :
    WritesTerm r g p.memberChars p.flat (p.choiceDepth true) ∧
      WritesExpr r g p.chars p.flat (p.choiceDepth false) := by
  induction hnode with
  | leaf c =>
    obtain ⟨hbuilds, hrange, hregular⟩ := hleaves c (List.mem_singleton_self c)
    have hterm := writesTerm_condition hg hbuilds hrange hregular 0
    exact ⟨hterm, hterm.expr⟩
  | @allOf ps hne _ ih =>
    have hterm := writes_conjunction hne fun p hp =>
      (ih p hp fun c hc => hleaves c (mem_leavesAll hp hc)).1
    exact ⟨hterm, hterm.expr⟩
  | @anyOf ps hne _ ih =>
    have hexpr := writes_disjunction hne fun p hp =>
      (ih p hp fun c hc => hleaves c (mem_leavesAll hp hc)).2
    exact ⟨hexpr.group, hexpr⟩

end Predicate

-- ---------------------------------------------------------------------------
-- Compiling the text
-- ---------------------------------------------------------------------------

theorem Resource.nodup_fieldNames (r : Resource) : (r.schema.fields.map Field.name).Nodup := by
  cases r <;> decide +kernel

/-- Every resource has a grammar, and the names of its fields are distinct. -/
theorem Resource.exists_grammar (r : Resource) : ∃ g, r.grammar = .ok g ∧ g.Unambiguous := by
  obtain ⟨g, hg⟩ : ∃ g, r.grammar = .ok g := by
    cases r <;> exact ⟨_, rfl⟩
  exact ⟨g, hg, unambiguous_of_generate hg r.nodup_fieldNames⟩

theorem Resource.parse_eq {r : Resource} {g : Grammar} (hg : r.grammar = .ok g) (text : String) :
    r.parse text = g.parse text := by
  rw [Resource.parse, hg]
  rfl

section

variable [Build]

mutual

/-- Where a comparison stands has no part in what it is lowered to. -/
theorem Expr.lower_withoutSpans {r : Resource} : ∀ e : Expr, e.withoutSpans.lower r = e.lower r
  | .one t => by
    rw [Expr.withoutSpans, Expr.lower, Expr.lower, Term.lower_withoutSpans t]
  | .more t e => by
    rw [Expr.withoutSpans, Expr.lower, Expr.lower, Term.lower_withoutSpans t,
      Expr.lower_withoutSpans e]

theorem Term.lower_withoutSpans {r : Resource} : ∀ t : Term, t.withoutSpans.lower r = t.lower r
  | .one f => by
    rw [Term.withoutSpans, Term.lower, Term.lower, Factor.lower_withoutSpans f]
  | .more f t => by
    rw [Term.withoutSpans, Term.lower, Term.lower, Factor.lower_withoutSpans f,
      Term.lower_withoutSpans t]

theorem Factor.lower_withoutSpans {r : Resource} :
    ∀ f : Factor, f.withoutSpans.lower r = f.lower r
  | .comparison c => by
    rw [Factor.withoutSpans, Factor.lower, Factor.lower]
    rfl
  | .group e => by
    rw [Factor.withoutSpans, Factor.lower, Factor.lower, Expr.lower_withoutSpans e]

end

/-- What a text reads as in the grammar of a resource, and is lowered to, it compiles to. -/
theorem Resource.compile_of_derives {r : Resource} {g : Grammar} (hg : r.grammar = .ok g)
    (hunambiguous : g.Unambiguous) {text : String} {e : Expr} {p : Predicate}
    (he : g.Derives text e) (hp : e.lower r = .ok p) : r.compile text = .ok p := by
  obtain ⟨e', hparse, hsame⟩ := parse_complete hunambiguous he
  refine Resource.compile_eq_ok_iff.mpr ⟨e', bind_eq_ok.mpr ⟨g, hg, hparse⟩, ?_⟩
  rw [← Expr.lower_withoutSpans, hsame, Expr.lower_withoutSpans]
  exact hp

end

/-- Half a second into the leap second at the end of 2016. -/
def Instant.endOf2016 : Instant :=
  ⟨⟨2016, 12, 31, by decide, by decide⟩, 86399, 1500000000, by decide, by decide⟩

/-- Sessions of a name with a space in it, or made before the leap second, that have an entry under
the empty key; the last node has one member. -/
def Predicate.beforeLeapSecond : Predicate :=
  .allOf [
    .anyOf [
      .leaf ⟨⟨"session_id", none⟩, .value .string, .equal, .string "a b"⟩,
      .leaf ⟨⟨"created_at", none⟩, .value .date, .less, .date Instant.endOf2016⟩],
    .allOf [.leaf ⟨⟨"options", some ""⟩, .value .string, .contains, .string "x"⟩]]

end ClusterFilter
