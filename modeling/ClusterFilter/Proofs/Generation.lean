import ClusterFilter.Proofs.Expression.FieldName

/-!
# ClusterFilter — grammars from lists of fields

A grammar is made from any list of fields, with names given twice, keyed fields and kinds that no
filter reaches among them. The first field that it cannot have is the error. Otherwise each field
that can be filtered by has its alternative, in the order of the fields.

Two gaps are bridged:

* **The list at once vs one field after another** — the definition looks for the first field that
  cannot be had, and then reads off all alternatives. `generate_eq_pass` says that this comes to one
  pass from left to right that ends at the first error.
* **First vs last** — a look at the alternatives finds the first one of a name. An expression finds
  its alternatives through an index, into which they are entered from left to right, and so the last
  one of a name (`getElem?_index`). Where names are distinct, both are the same.

Main results:

* `generate_eq_error_iff`, `exists_generate_eq_error_iff` — what is refused, and with which error.
* `forall₂_production?`, `statuses_of_generate` — the alternatives and the statuses of a grammar.
* `generate_exact` — these together, with the names that are known where a factor begins.
-/

namespace ClusterFilter

-- ---------------------------------------------------------------------------
-- Fields and alternatives
-- ---------------------------------------------------------------------------

namespace Field

/-- A grammar cannot have the field: it is keyed and of another kind than strings, or it is a status
where there is no vocabulary or an empty one. -/
def IsUnsupported (statuses : Option (List Status)) (f : Field) : Prop :=
  (f.keyed = true ∧ f.kind ≠ .value .string) ∨
    (f.kind = .value .status ∧ (statuses = none ∨ statuses = some []))

theorem isInexpressible_iff {statuses : Option (List Status)} {f : Field} :
    f.isInexpressible (!(statuses.getD []).isEmpty) = true ↔ f.IsUnsupported statuses := by
  have hempty : (statuses.getD []).isEmpty = true ↔ statuses = none ∨ statuses = some [] := by
    cases statuses with
    | none => simp
    | some vocabulary => simp
  simp only [isInexpressible, IsUnsupported, Bool.or_eq_true, Bool.and_eq_true, bne_iff_ne, ne_eq,
    beq_iff_eq, Bool.not_not, hempty]

end Field

/-- The table of kinds: the comparators of the kind, and the terminal that stands for its
literals. -/
def ValueKind.table : List (ValueKind × Comparators × String) :=
  [(.string, .text, "STRING"), (.boolean, .equality, "BOOL"), (.number, .ordered, "SIGNED_INT"),
    (.date, .ordered, "DATETIME"), (.duration, .ordered, "DURATION"),
    (.status, .equality, "STATUS")]

theorem ValueKind.mem_table (kind : ValueKind) :
    (kind, kind.comparators, kind.terminal) ∈ ValueKind.table := by
  cases kind <;> decide

/-- The alternative is that of the field: it has its name, its kind and its keys, and the
comparators and literals that the table gives for the kind. -/
structure Production.IsOf (f : Field) (p : Production) : Prop where
  field : p.field = f.name
  kind : f.kind = .value p.kind
  keyed : p.keyed = f.keyed
  row : (p.kind, p.comparators, p.token.terminal) ∈ ValueKind.table

theorem Field.production?_eq_some {f : Field} {p : Production} (h : f.production? = some p) :
    p.IsOf f := by
  obtain ⟨kind, hkind, rfl⟩ := Option.map_eq_some_iff.mp h
  exact ⟨rfl, FieldKind.eq_value_of_filterable? hkind, rfl, kind.mem_table⟩

theorem Field.token_of_production? {f : Field} {p : Production} (h : f.production? = some p) :
    p.token = p.kind := by
  obtain ⟨kind, -, rfl⟩ := Option.map_eq_some_iff.mp h
  rfl

theorem Field.production?_eq_none_iff {f : Field} :
    f.production? = none ↔ f.kind.isFilterable = false := by
  rw [Field.production?, Option.map_eq_none_iff, FieldKind.isFilterable, Option.isSome_eq_false_iff,
    Option.isNone_iff_eq_none]

/-- The alternatives are those of the fields that can be filtered by, one each, in their order. -/
theorem forall₂_production? (fields : List Field) :
    List.Forall₂ Production.IsOf (fields.filter fun f => f.kind.isFilterable)
      (fields.filterMap Field.production?) := by
  induction fields with
  | nil => exact .nil
  | cons f fields ih =>
    cases hp : f.production? with
    | none =>
      rw [List.filterMap_cons_none hp, List.filter_cons_of_neg]
      · exact ih
      · rw [Field.production?_eq_none_iff.mp hp]
        exact Bool.false_ne_true
    | some p =>
      rw [List.filterMap_cons_some hp, List.filter_cons_of_pos]
      · exact .cons (Field.production?_eq_some hp) ih
      · cases hkind : f.kind.isFilterable with
        | true => rfl
        | false => rw [Field.production?_eq_none_iff.mpr hkind] at hp; cases hp

namespace Grammar

-- ---------------------------------------------------------------------------
-- One field after another
-- ---------------------------------------------------------------------------

/-- The alternatives with that of the next field. A field that no filter reaches adds none, and one
that the grammar cannot have is the error. -/
def addField (resource : String) (hasStatuses : Bool) (sofar : List Production) (f : Field) :
    Except Error (List Production) :=
  if f.keyed && f.kind != .value .string then .error (.unsupportedField resource f.name f.kind)
  else
    match f.kind with
    | .value .status =>
      if hasStatuses then .ok (sofar ++ [⟨f.name, .status, f.keyed, .equality, .status⟩])
      else .error (.unsupportedField resource f.name f.kind)
    | .value kind => .ok (sofar ++ [⟨f.name, kind, f.keyed, kind.comparators, kind⟩])
    | .array | .notApplicable | .unknown => .ok sofar

theorem addField_eq (resource : String) (hasStatuses : Bool) (sofar : List Production) (f : Field) :
    addField resource hasStatuses sofar f =
      if f.isInexpressible hasStatuses then .error (.unsupportedField resource f.name f.kind)
      else .ok (sofar ++ f.production?.toList) := by
  rw [addField, Field.isInexpressible, Field.production?]
  cases f.keyed && f.kind != .value .string with
  | true => rfl
  | false =>
    rw [if_neg Bool.false_ne_true, Bool.false_or]
    split
    · next hkind =>
      rw [hkind]
      cases hasStatuses with
      | true => rfl
      | false => rfl
    · next kind hother hkind =>
      have hstatus : (f.kind == .value .status) = false := by
        rw [hkind, beq_eq_false_iff_ne]
        rintro ⟨⟩
        exact hother rfl
      rw [hstatus, hkind]
      rfl
    -- No filter reaches the other kinds, and nothing is added for them.
    all_goals
      next hkind =>
        rw [hkind]
        exact congrArg Except.ok (List.append_nil sofar).symm

theorem foldlM_addField (resource : String) (hasStatuses : Bool) (fields : List Field)
    (sofar : List Production) :
    fields.foldlM (addField resource hasStatuses) sofar =
      match fields.find? fun f => f.isInexpressible hasStatuses with
      | some f => .error (.unsupportedField resource f.name f.kind)
      | none => .ok (sofar ++ fields.filterMap Field.production?) := by
  induction fields generalizing sofar with
  | nil => simp [pure, Except.pure]
  | cons f fields ih =>
    rw [List.foldlM_cons, addField_eq, List.find?_cons]
    cases hf : f.isInexpressible hasStatuses with
    | true => rfl
    | false =>
      rw [if_neg Bool.false_ne_true]
      show fields.foldlM (addField resource hasStatuses) (sofar ++ f.production?.toList) = _
      rw [ih]
      cases fields.find? fun f => f.isInexpressible hasStatuses with
      | some f => rfl
      | none =>
        dsimp only
        rw [List.append_assoc]
        cases hp : f.production? with
        | none => rw [List.filterMap_cons_none hp]; rfl
        | some p => rw [List.filterMap_cons_some hp]; rfl

/-- A grammar is made in one pass over the fields, from left to right. -/
theorem generate_eq_pass (resource : String) (fields : List Field)
    (statuses : Option (List Status)) :
    generate resource fields statuses =
      (fields.foldlM (addField resource (!(statuses.getD []).isEmpty)) [] >>= fun productions =>
        .ok ⟨resource, productions, if productions.any (·.token == .status) then
          (statuses.getD []).map Status.name else []⟩) := by
  rw [foldlM_addField, generate]
  dsimp only
  cases fields.find? fun f => f.isInexpressible (!(statuses.getD []).isEmpty) with
  | some f => rfl
  | none => rfl

-- ---------------------------------------------------------------------------
-- Lookup by name
-- ---------------------------------------------------------------------------

/-- The places of the alternatives under their field names, entered from left to right. A later
place replaces an earlier one of the same name. -/
def indexOf (productions : List Production) : Std.HashMap String Nat :=
  productions.zipIdx.foldl (fun index (p, place) => index.insert p.field place) ∅

theorem indexOf_concat (productions : List Production) (p : Production) :
    indexOf (productions ++ [p]) = (indexOf productions).insert p.field productions.length := by
  rw [indexOf, List.zipIdx_append, List.foldl_append]
  simp [indexOf]

/-- An index holds places of the list only, and under each name the last one. -/
theorem getElem?_indexOf (productions : List Production) (name : String) :
    (∀ place, (indexOf productions)[name]? = some place → place < productions.length) ∧
      (indexOf productions)[name]?.bind (productions[·]?) =
        productions.reverse.find? fun p => p.field == name := by
  induction productions using List.reverseRecOn with
  | nil => simp [indexOf]
  | append_singleton productions p ih =>
    obtain ⟨hplace, hfind⟩ := ih
    rw [indexOf_concat, Std.HashMap.getElem?_insert, List.reverse_append, List.length_append]
    cases hname : p.field == name with
    | true => simp [hname]
    | false =>
      rw [if_neg Bool.false_ne_true]
      refine ⟨fun place h => Nat.lt_succ_of_lt (hplace place h), ?_⟩
      rw [List.reverse_singleton, List.singleton_append, List.find?_cons_of_neg (by simp [hname]),
        ← hfind]
      cases hentry : (indexOf productions)[name]? with
      | none => rfl
      | some place => exact List.getElem?_append_left (hplace place hentry)

/-- The alternative that a name has in an expression stands at the place that the index holds. -/
theorem getElem?_index (g : Grammar) (name : String) :
    (indexOf g.productions)[name]?.bind (g.productions[·]?) = g.resolve? name :=
  (getElem?_indexOf g.productions name).2

theorem production?_eq_some {g : Grammar} {name : String} {p : Production}
    (h : g.production? name = some p) : p ∈ g.productions ∧ p.field = name := by
  unfold production? at h
  have hfield := List.find?_some h
  exact ⟨List.mem_of_find?_eq_some h, eq_of_beq hfield⟩

/-- Where each alternative is found by its name, the first one of a name is the last one. -/
theorem Unambiguous.resolve?_eq {g : Grammar} (hg : g.Unambiguous) (name : String) :
    g.resolve? name = g.production? name := by
  cases h : g.production? name with
  | some p =>
    obtain ⟨hmem, hfield⟩ := production?_eq_some h
    rw [← hfield, hg p hmem]
  | none =>
    cases hresolve : g.resolve? name with
    | none => rfl
    | some p =>
      obtain ⟨hmem, hfield⟩ := resolve?_eq_some hresolve
      have := List.find?_eq_none.mp h p hmem
      exact absurd (beq_iff_eq.mpr hfield) this

-- ---------------------------------------------------------------------------
-- What is generated
-- ---------------------------------------------------------------------------

section

variable {resource : String} {fields : List Field} {statuses : Option (List Status)} {g : Grammar}

theorem generate_eq_error_iff {e : Error} :
    generate resource fields statuses = .error e ↔
      ∃ before f after, fields = before ++ f :: after ∧ f.IsUnsupported statuses ∧
        (∀ x ∈ before, ¬ x.IsUnsupported statuses) ∧
        e = .unsupportedField resource f.name f.kind := by
  have hfirst : ∀ f : Field,
      (fields.find? fun f => f.isInexpressible (!(statuses.getD []).isEmpty)) = some f ↔
        f.IsUnsupported statuses ∧ ∃ before after, fields = before ++ f :: after ∧
          ∀ x ∈ before, ¬ x.IsUnsupported statuses := by
    intro f
    simp only [List.find?_eq_some_iff_append, Field.isInexpressible_iff, Bool.not_eq_true',
      ← Bool.not_eq_true]
  unfold generate
  dsimp only
  constructor
  · intro h
    split at h
    · next f hf =>
      injection h with h
      obtain ⟨hunsupported, before, after, hsplit, hbefore⟩ := (hfirst f).mp hf
      exact ⟨before, f, after, hsplit, hunsupported, hbefore, h.symm⟩
    · cases h
  · rintro ⟨before, f, after, hsplit, hunsupported, hbefore, rfl⟩
    rw [(hfirst f).mpr ⟨hunsupported, before, after, hsplit, hbefore⟩]

theorem exists_generate_eq_error_iff :
    (∃ e, generate resource fields statuses = .error e) ↔
      ∃ f ∈ fields, f.IsUnsupported statuses := by
  constructor
  · rintro ⟨e, h⟩
    obtain ⟨before, f, after, rfl, hunsupported, -⟩ := generate_eq_error_iff.mp h
    exact ⟨f, List.mem_append_right _ (List.mem_cons_self ..), hunsupported⟩
  · rintro ⟨f, hf, hunsupported⟩
    cases hfind : fields.find? fun f => f.isInexpressible (!(statuses.getD []).isEmpty) with
    | some f =>
      refine ⟨.unsupportedField resource f.name f.kind, ?_⟩
      rw [generate]
      dsimp only
      rw [hfind]
    | none =>
      exact absurd (Field.isInexpressible_iff.mpr hunsupported) (List.find?_eq_none.mp hfind f hf)

/-- A grammar that is generated has no field that it could not have, and its parts are read off the
fields and the vocabulary. -/
theorem generate_eq_ok (hg : generate resource fields statuses = .ok g) :
    (∀ f ∈ fields, ¬ f.IsUnsupported statuses) ∧ g.resource = resource ∧
      g.statuses = if g.productions.any (·.token == .status) then
        (statuses.getD []).map Status.name else [] := by
  unfold generate at hg
  dsimp only at hg
  split at hg
  · cases hg
  · next hfind =>
    injection hg with hg
    refine ⟨fun f hf hunsupported => ?_, hg ▸ rfl, hg ▸ rfl⟩
    exact List.find?_eq_none.mp hfind f hf (Field.isInexpressible_iff.mpr hunsupported)

theorem mem_productions_iff (hg : generate resource fields statuses = .ok g) {p : Production} :
    p ∈ g.productions ↔ ∃ f ∈ fields, f.production? = some p := by
  rw [productions_of_generate hg, List.mem_filterMap]

/-- The names of the vocabulary are kept where a literal can name one, and there is a vocabulary
then. -/
theorem statuses_of_generate (hg : generate resource fields statuses = .ok g) :
    ((∃ p ∈ g.productions, p.kind = .status) →
      ∃ vocabulary, statuses = some vocabulary ∧ g.statuses = vocabulary.map Status.name) ∧
    ((∀ p ∈ g.productions, p.kind ≠ .status) → g.statuses = []) := by
  obtain ⟨hsupported, -, hstatuses⟩ := generate_eq_ok hg
  constructor
  · rintro ⟨p, hp, hkind⟩
    obtain ⟨f, hf, hproduction⟩ := (mem_productions_iff hg).mp hp
    have hfield : f.kind = .value .status := hkind ▸ (Field.production?_eq_some hproduction).kind
    cases statuses with
    | none => exact absurd (.inr ⟨hfield, .inl rfl⟩) (hsupported f hf)
    | some vocabulary =>
      have htoken : p.token = .status := (Field.token_of_production? hproduction).trans hkind
      have hany : g.productions.any (·.token == .status) = true :=
        List.any_eq_true.mpr ⟨p, hp, beq_iff_eq.mpr htoken⟩
      rw [if_pos hany] at hstatuses
      exact ⟨vocabulary, rfl, hstatuses⟩
  · intro hnone
    rw [hstatuses, if_neg]
    intro hany
    obtain ⟨p, hp, htoken⟩ := List.any_eq_true.mp hany
    obtain ⟨f, -, hproduction⟩ := (mem_productions_iff hg).mp hp
    exact hnone p hp ((Field.token_of_production? hproduction).symm.trans (beq_iff_eq.mp htoken))

/-- No alternative has the name exactly if no field that can be filtered by has it. -/
theorem resolve?_eq_none_iff (hg : generate resource fields statuses = .ok g) {name : String} :
    g.resolve? name = none ↔ ∀ f ∈ fields, f.kind.isFilterable = true → f.name ≠ name := by
  constructor
  · intro hnone f hf hkind hname
    cases hp : f.production? with
    | none =>
      rw [Field.production?_eq_none_iff.mp hp] at hkind
      cases hkind
    | some p =>
      have hmem : p ∈ g.productions := (mem_productions_iff hg).mpr ⟨f, hf, hp⟩
      exact resolve?_eq_none hnone p hmem ((Field.production?_eq_some hp).field.trans hname)
  · intro hnone
    cases hresolve : g.resolve? name with
    | none => rfl
    | some p =>
      obtain ⟨hmem, hname⟩ := resolve?_eq_some hresolve
      obtain ⟨f, hf, hp⟩ := (mem_productions_iff hg).mp hmem
      have hof := Field.production?_eq_some hp
      have hkind : f.kind.isFilterable = true := by
        rw [hof.kind]
        rfl
      exact absurd (hof.field.symm.trans hname) (hnone f hf hkind)

end

/--
**Exact generation.** A list of fields has no grammar exactly if one of the fields cannot be had,
and the first one of these is the error. Otherwise the alternatives are those of the fields that can
be filtered by, in their order. The statuses are the names of the vocabulary, in their order, if an
alternative has their kind, and none if not. Where the fields have distinct names, the index leads
to the same alternative as a look at the list, for every name; and a text is rejected for a name
exactly if it has the name where a factor begins, and no field of the name can be filtered by.
-/
theorem generate_exact (resource : String) (fields : List Field) (statuses : Option (List Status)) :
    ((∃ e, generate resource fields statuses = .error e) ↔
      ∃ f ∈ fields, f.IsUnsupported statuses) ∧
    (∀ e, generate resource fields statuses = .error e →
      ∃ before f after, fields = before ++ f :: after ∧ f.IsUnsupported statuses ∧
        (∀ x ∈ before, ¬ x.IsUnsupported statuses) ∧
        e = .unsupportedField resource f.name f.kind) ∧
    ∀ g, generate resource fields statuses = .ok g →
      g.resource = resource ∧
      List.Forall₂ Production.IsOf (fields.filter fun f => f.kind.isFilterable) g.productions ∧
      ((∃ p ∈ g.productions, p.kind = .status) →
        ∃ vocabulary, statuses = some vocabulary ∧ g.statuses = vocabulary.map Status.name) ∧
      ((∀ p ∈ g.productions, p.kind ≠ .status) → g.statuses = []) ∧
      ((fields.map Field.name).Nodup → ∀ name,
        (indexOf g.productions)[name]?.bind (g.productions[·]?) = g.production? name ∧
        g.resolve? name = g.production? name ∧
        ∀ text, g.parse text = .error (.unknownField name) ↔
          g.BeginsFactor text name ∧
            ∀ f ∈ fields, f.kind.isFilterable = true → f.name ≠ name) := by
  refine ⟨exists_generate_eq_error_iff, fun e => generate_eq_error_iff.mp, fun g hg => ?_⟩
  obtain ⟨hsome, hnone⟩ := statuses_of_generate hg
  refine ⟨(generate_eq_ok hg).2.1, ?_, hsome, hnone, fun hnames name => ?_⟩
  · rw [productions_of_generate hg]
    exact forall₂_production? fields
  · have hunambiguous := unambiguous_of_generate hg hnames
    have hresolve := hunambiguous.resolve?_eq name
    refine ⟨(getElem?_index g name).trans hresolve, hresolve, fun text => ?_⟩
    rw [parse_eq_unknownField_iff hunambiguous, resolve?_eq_none_iff hg]

/-- The fields of a node, with a list, a map and a status among them. -/
def nodeFields : List Field :=
  [⟨"size", .value .number, false⟩, ⟨"parents", .array, false⟩, ⟨"tags", .value .string, true⟩,
    ⟨"state", .value .status, false⟩]

/-- Without a vocabulary the status is the error, and not the keyed list behind it. With one, the
list is unknown where a factor begins, and its name is nothing special as a key. Where no field is a
status, the vocabulary is left out. -/
theorem generate_exact_node :
    ((∃ e, generate "node" (nodeFields ++ [⟨"limits", .array, true⟩]) none = .error e) ∧
      ∃ before f after, nodeFields ++ [⟨"limits", .array, true⟩] = before ++ f :: after ∧
        f.IsUnsupported none ∧ (∀ x ∈ before, ¬ x.IsUnsupported none) ∧
        Error.unsupportedField "node" "state" (.value .status) =
          .unsupportedField "node" f.name f.kind) ∧
    (∃ g, generate "node" (nodeFields.take 3) (some [⟨"ON", 1⟩]) = .ok g ∧
      (∀ p ∈ g.productions, p.kind ≠ .status) ∧ g.statuses = []) ∧
    ∃ g, generate "node" nodeFields (some [⟨"ON", 1⟩, ⟨"OFF", 2⟩]) = .ok g ∧
      (nodeFields.map Field.name).Nodup ∧
      (∃ vocabulary, some [⟨"ON", 1⟩, ⟨"OFF", 2⟩] = some vocabulary ∧
        g.statuses = vocabulary.map Status.name) ∧
      g.resolve? "tags" = g.production? "tags" ∧
      g.BeginsFactor "(tags.os = a or parents = 1" "parents" ∧
      ¬ g.BeginsFactor "tags.parents = 1" "parents" := by
  refine ⟨⟨?_, (generate_exact ..).2.1 _ rfl⟩, ?_, ?_⟩
  · exact (generate_exact ..).1.mpr
      ⟨⟨"state", .value .status, false⟩, by decide, .inr ⟨rfl, .inl rfl⟩⟩
  · obtain ⟨g, hg, hother⟩ : ∃ g, generate "node" (nodeFields.take 3) (some [⟨"ON", 1⟩]) = .ok g ∧
        ∀ p ∈ g.productions, p.kind ≠ .status := ⟨_, rfl, by decide⟩
    obtain ⟨-, -, -, hstatuses, -⟩ := (generate_exact "node" _ _).2.2 g hg
    exact ⟨g, hg, hother, hstatuses hother⟩
  obtain ⟨g, hg, hstatus, hlist, e, hkey⟩ : ∃ g,
      generate "node" nodeFields (some [⟨"ON", 1⟩, ⟨"OFF", 2⟩]) = .ok g ∧
      (∃ p ∈ g.productions, p.kind = .status) ∧
      g.parse "(tags.os = a or parents = 1" = .error (.unknownField "parents") ∧
      ∃ e, g.parse "tags.parents = 1" = .ok e :=
    ⟨_, rfl, ⟨⟨"state", .status, false, .equality, .status⟩, by decide, rfl⟩, rfl, _, rfl⟩
  have hnames : (nodeFields.map Field.name).Nodup := by decide
  obtain ⟨-, -, hstatuses, -, hlookup⟩ := (generate_exact "node" nodeFields _).2.2 g hg
  have hunknown := fun text => (hlookup hnames "parents").2.2 text
  obtain ⟨hbegins, hunnamed⟩ := (hunknown _).mp hlist
  refine ⟨g, hg, hnames, hstatuses hstatus, (hlookup hnames "tags").2.1, hbegins, fun hkeyed => ?_⟩
  have hrejected := (hunknown _).mpr ⟨hkeyed, hunnamed⟩
  rw [hkey] at hrejected
  cases hrejected

end Grammar

end ClusterFilter
