import ClusterFilter.Proofs.Canonical

/-!
# ClusterFilter — why texts are refused

A text is refused because it is no expression, because it names a field that is not there, or
because a literal has no value of its field's kind. Two lookups and two sets of rules have to agree
for this to be all: the grammar decides on fields, keys, operators and the shape of literals when a
text is parsed, the schema and the accessors once more when the tree is lowered. What the grammar
lets pass, lowering accepts but for the value of the literal (`Comparison.Fits`).

Lowering is a fold that may fail at each step. It fails where the leftmost of its comparisons does,
however the comparisons stand in groups.

What becomes of a duration whose seconds overflow is left to the build. One build stops there, which
is no error of the library, and another may take the text for a duration that it does not denote.

Main results:

* `Comparison.fits_of_derives` — the comparisons of a parsed text fit the schema.
* `Expr.failure?_lower` — the failure of an expression is that of its leftmost failing comparison.
* `LiteralText.rejected_duration_iff` — which texts of durations are refused.
* `Resource.overflows_of_isStop` — at which texts a build may stop.
* `compile_refused` — which texts do not compile, and with which error.
-/

namespace ClusterFilter

open Grammar Token

-- ---------------------------------------------------------------------------
-- Literals without a value
-- ---------------------------------------------------------------------------

/-- A text of the right shape that is nevertheless no value of the kind: a number beyond 64 bits,
what is no date or no duration, or a word that names no status of the schema in any letter case.
Strings and booleans have no such texts. -/
inductive LiteralText.Rejected [Build] (schema : Schema) : ValueKind → String → Prop where
  | number {text : String} {n : Int} : Text.readInteger? text.toList = some n →
      n < Int64.minValue.toInt ∨ Int64.maxValue.toInt < n → Rejected schema .number text
  | date {text : String} : Instant.read? text.toList = none → Rejected schema .date text
  | duration {text : String} {fault : Duration.Fault} :
      Duration.read text.toList = .error fault → Rejected schema .duration text
  | status {text : String} : (∀ s ∈ schema.statuses.getD [],
      Text.sameIgnoringCase s.name.toList text.toList = false) → Rejected schema .status text

theorem LiteralText.readBoolean_of_shape {cs : List Char} (h : IsShape .boolean cs) :
    ∃ b, readBoolean cs = .ok b := by
  unfold readBoolean
  by_cases htrue : Text.sameIgnoringCase cs "true".toList = true
  · exact ⟨true, if_pos htrue⟩
  · have hfalse := h.resolve_left htrue
    exact ⟨false, by rw [if_neg htrue, if_pos hfalse]⟩

section

variable [Build]

theorem LiteralText.rejected_number_iff {schema : Schema} {text : String}
    (h : IsShape .number text.toList) :
    Rejected schema .number text ↔ ∃ fault, readNumber text.toList = .error fault := by
  obtain ⟨n, hn⟩ : ∃ n, Text.readInteger? text.toList = some n := by
    rw [← isShaped_iff, isShaped, Option.isSome_iff_exists] at h
    exact h
  rw [readNumber, hn]
  dsimp only
  constructor
  · rintro (⟨hn', hrange⟩ | _ | _ | _)
    have hsame : n = _ := Option.some.inj (hn.symm.trans hn')
    subst hsame
    exact ⟨_, if_neg (by omega)⟩
  · intro hfault
    split at hfault
    · simp at hfault
    · next hrange => exact .number hn (by omega)

theorem LiteralText.rejected_status_iff {schema : Schema} {text : String} :
    Rejected schema .status text ↔ ∃ fault, readStatus schema text = .error fault := by
  have hnone : schema.status? text = none ↔ ∀ s ∈ schema.statuses.getD [],
      Text.sameIgnoringCase s.name.toList text.toList = false := by
    simp [Schema.status?, List.find?_eq_none]
  rw [readStatus]
  constructor
  · rintro (_ | _ | _ | h)
    rw [hnone.mpr h]
    exact ⟨_, rfl⟩
  · intro h
    cases hfound : schema.status? text with
    | some s => simp [hfound] at h
    | none => exact .status (hnone.mp hfound)

/-- A text of the right shape is rejected exactly if it is not read as a value. -/
theorem LiteralText.rejected_iff {schema : Schema} {kind : ValueKind} {text : String}
    (h : IsShape kind text.toList) :
    Rejected schema kind text ↔ ∃ fault, read schema kind text = .error fault := by
  cases kind with
  | string =>
    constructor
    · intro hrejected
      cases hrejected
    · rintro ⟨fault, hfault⟩
      cases hfault
  | boolean =>
    obtain ⟨b, hb⟩ := readBoolean_of_shape h
    rw [read, hb]
    constructor
    · intro hrejected
      cases hrejected
    · rintro ⟨fault, hfault⟩
      cases hfault
  | number => exact rejected_number_iff h
  | date =>
    rw [read, readDate]
    constructor
    · rintro (_ | hnone | _ | _)
      rw [hnone]
      exact ⟨_, rfl⟩
    · intro hfault
      cases hread : Instant.read? text.toList with
      | some t => simp [hread] at hfault
      | none => exact .date hread
  | duration =>
    rw [read, readDuration]
    constructor
    · rintro (_ | _ | hfault | _)
      rw [hfault]
      exact ⟨_, rfl⟩
    · intro hfault
      cases hread : Duration.read text.toList with
      | ok d => simp [hread, Except.mapError] at hfault
      | error fault => exact .duration hread
  | status => exact rejected_status_iff

/-- But for seconds that overflow, the texts that are no durations are those that denote none within
the bounds. -/
theorem LiteralText.rejected_duration_iff {schema : Schema} {text : String}
    (h : ¬ Duration.SumOverflows text.toList) : Rejected schema .duration text ↔
      ∀ n, Duration.Denotes text.toList n → (2 ^ 63 - 1) * 1000000 < n.natAbs := by
  have hshape : IsShape .duration text.toList := trivial
  rw [rejected_iff hshape, read, readDuration]
  constructor
  · rintro ⟨fault, hfault⟩ n hdenotes
    obtain ⟨fault', hread, -⟩ := mapError_eq_error.mp hfault
    refine Nat.lt_of_not_le fun hbound => ?_
    have hok : Duration.read text.toList = .ok ⟨n, hbound⟩ := Duration.read_of_denotes hdenotes
    rw [hread] at hok
    cases hok
  · intro hnone
    cases hread : Duration.read text.toList with
    | error fault => exact ⟨_, rfl⟩
    | ok d =>
      have hdenotes := Duration.denotes_of_read_of_not_sumOverflows h hread
      exact absurd d.bounded (Nat.not_le_of_lt (hnone d.nanos hdenotes))

/-- A build stops in a literal only if it checks sums, and only in a duration whose seconds
overflow. -/
theorem LiteralText.overflows_of_read {schema : Schema} {kind : ValueKind} {text : String}
    (h : read schema kind text = .error (.notADuration .overflow)) :
    Build.overflowChecks = true ∧ kind = .duration ∧
      ∃ rest, Duration.Overflows text.toList rest := by
  cases kind with
  | string => cases h
  | boolean =>
    rw [read, readBoolean] at h
    split at h
    · cases h
    · split at h <;> cases h
  | number =>
    rw [read, readNumber] at h
    split at h
    · cases h
    · split at h <;> cases h
  | date =>
    rw [read, readDate] at h
    split at h <;> cases h
  | duration =>
    obtain ⟨fault, hread, hfault⟩ := mapError_eq_error.mp h
    injection hfault with hfault
    obtain ⟨hchecks, hoverflows⟩ := Duration.overflows_of_read (hfault ▸ hread)
    exact ⟨hchecks, rfl, hoverflows⟩
  | status =>
    rw [read, readStatus] at h
    split at h <;> cases h

end

-- ---------------------------------------------------------------------------
-- Comparisons that fit the schema
-- ---------------------------------------------------------------------------

/-- The comparison asks nothing of the schema that it does not provide for, except perhaps for the
value of its literal: the field can be accessed with or without a key as it stands there, and its
kind admits the operator and the shape of the literal. -/
structure Comparison.Fits (r : Resource) (c : Comparison) (kind : ValueKind) : Prop where
  accessor : Accessor.ofResource? r c.field c.key = some ⟨⟨c.field, c.key⟩, kind⟩
  admits : kind.admits c.op = true
  shape : IsShape kind c.literal.text.toList

theorem Comparison.Fits.kind_eq {r : Resource} {c : Comparison} {kind : ValueKind}
    (h : c.Fits r kind) : (r.schema.field? c.field).map Field.kind = some (.value kind) := by
  obtain ⟨f, hfound, hkind, -, -⟩ := Accessor.ofResource?_eq_some h.accessor
  rw [hfound, Option.map_some, FieldKind.eq_value_of_filterable? hkind]

/-- The schema finds the field that an alternative of the grammar was made from, because the names
of fields are distinct. The comparators and literals are those of its kind. -/
theorem Resource.field?_of_production {r : Resource} {g : Grammar} (hg : r.grammar = .ok g)
    {p : Production} (hp : p ∈ g.productions) :
    ∃ f, r.schema.field? p.field = some f ∧ f.name = p.field ∧ f.keyed = p.keyed ∧
      f.kind.filterable? = some p.kind ∧ p.comparators = p.kind.comparators ∧
        p.token = p.kind := by
  rw [productions_of_generate hg] at hp
  obtain ⟨f, hf, hfp⟩ := List.mem_filterMap.mp hp
  obtain ⟨kind, hkind, rfl⟩ := Option.map_eq_some_iff.mp hfp
  refine ⟨f, ?_, rfl, rfl, hkind, rfl, rfl⟩
  cases hfound : r.schema.field? f.name with
  | none =>
    have := List.find?_eq_none.mp hfound f hf
    simp at this
  | some f' =>
    have hsame : f' = f := List.inj_on_of_nodup_map r.nodup_fieldNames
      (List.mem_of_find?_eq_some hfound) hf (Schema.name_of_field? hfound)
    rw [hsame]

theorem Grammar.KeyPart.keyed_eq {p : Production} {key : Option String} {cs rest : List Char}
    (h : KeyPart p key cs rest) : p.keyed = key.isSome := by
  cases h with
  | absent hplain => exact hplain
  | present hkeyed _ => exact hkeyed

theorem Comparison.fits_of_derives {r : Resource} {g : Grammar} (hg : r.grammar = .ok g)
    {c : Comparison} {cs rest : List Char} (h : DerivesComparison g c cs rest) :
    ∃ kind, c.Fits r kind := by
  obtain ⟨p, hp, hname, hallowed, _, _, _, _, _, _, hkey, _, _, _, hliteral⟩ := h
  obtain ⟨f, hfound, hfname, hkeyed, hkind, hcomparators, htoken⟩ := r.field?_of_production hg hp
  have hpresent : f.keyed = c.key.isSome := hkeyed.trans hkey.keyed_eq
  have hshape : IsShape p.token c.literal.text.toList := by
    cases hliteral with
    | bare _ _ _ hshape => exact hshape
    | quoted hstring _ _ _ =>
      rw [hstring]
      trivial
  rw [htoken] at hshape
  rw [hcomparators, ← ValueKind.admits_eq_allows] at hallowed
  refine ⟨p.kind, ?_, hallowed, hshape⟩
  rw [← hname, Accessor.ofResource?, hfound]
  simp [Accessor.bind?, hpresent, hkind, hfname]

mutual

/-- The comparisons of an expression are derived where they stand. -/
theorem derivesComparison_of_derivesExpr {g : Grammar} : ∀ {e : Expr} {cs rest : List Char},
    DerivesExpr g e cs rest → ∀ c ∈ e.comparisons, ∃ a b, DerivesComparison g c a b
  | .one _, _, _, .one h => derivesComparison_of_derivesTerm h
  | .more _ _, _, _, .more h _ _ he =>
    List.forall_mem_append.mpr
      ⟨derivesComparison_of_derivesTerm h, derivesComparison_of_derivesExpr he⟩

theorem derivesComparison_of_derivesTerm {g : Grammar} : ∀ {t : Term} {cs rest : List Char},
    DerivesTerm g t cs rest → ∀ c ∈ t.comparisons, ∃ a b, DerivesComparison g c a b
  | .one _, _, _, .one h => derivesComparison_of_derivesFactor h
  | .more _ _, _, _, .more h _ _ ht =>
    List.forall_mem_append.mpr
      ⟨derivesComparison_of_derivesFactor h, derivesComparison_of_derivesTerm ht⟩

theorem derivesComparison_of_derivesFactor {g : Grammar} : ∀ {f : Factor} {cs rest : List Char},
    DerivesFactor g f cs rest → ∀ c ∈ f.comparisons, ∃ a b, DerivesComparison g c a b
  | .comparison _, _, _, .comparison _ h => List.forall_mem_singleton.mpr ⟨_, _, h⟩
  | .group _, _, _, .group _ he _ => derivesComparison_of_derivesExpr he

end

theorem Resource.fits_of_parse {r : Resource} {text : String} {e : Expr}
    (h : r.parse text = .ok e) : ∀ c ∈ e.comparisons, ∃ kind, c.Fits r kind := by
  obtain ⟨g, hg, hparse⟩ := bind_eq_ok.mp h
  obtain ⟨⟨rest, hderives, -⟩, -⟩ := parse_sound hparse
  intro c hc
  obtain ⟨a, b, hcomparison⟩ := derivesComparison_of_derivesExpr hderives c hc
  exact Comparison.fits_of_derives hg hcomparison

-- ---------------------------------------------------------------------------
-- Lowering
-- ---------------------------------------------------------------------------

namespace Comparison

variable [Build] {r : Resource} {c : Comparison} {kind : ValueKind}

/-- The literal of the comparison is rejected as a value of the field's kind. -/
def Rejected (r : Resource) (c : Comparison) (kind : ValueKind) : Prop :=
  (r.schema.field? c.field).map Field.kind = some (.value kind) ∧
    LiteralText.Rejected r.schema kind c.literal.text

/-- Nothing but the literal makes a comparison fail that fits the schema. -/
theorem Fits.failure?_lower (h : c.Fits r kind) :
    failure? (c.lower r) = (failure? (LiteralText.read r.schema kind c.literal.text)).map
      (Error.invalidLiteral kind c.literal.text) := by
  cases hread : LiteralText.read r.schema kind c.literal.text with
  | ok value =>
    have hlower := Comparison.lower_eq_ok_iff.mpr ⟨_, value, h.accessor, hread, h.admits, rfl⟩
    exact failure?_eq_none.mpr ⟨_, hlower⟩
  | error fault =>
    have hlower : c.lower r = .error (.invalidLiteral kind c.literal.text fault) := by
      rw [lower, h.accessor]
      dsimp only
      rw [hread]
      rfl
    exact failure?_eq_some.mpr hlower

theorem Fits.rejected_iff (h : c.Fits r kind) {kind' : ValueKind} :
    c.Rejected r kind' ↔
      kind' = kind ∧ ∃ fault, LiteralText.read r.schema kind c.literal.text = .error fault := by
  rw [Rejected, h.kind_eq, ← LiteralText.rejected_iff h.shape]
  constructor
  · rintro ⟨hkind, hrejected⟩
    simp at hkind
    exact ⟨hkind.symm, hkind ▸ hrejected⟩
  · rintro ⟨rfl, hrejected⟩
    exact ⟨rfl, hrejected⟩

/-- Where a comparison fails that fits the schema, its literal is rejected, and the error says
so. -/
theorem Fits.failure?_eq_some (h : c.Fits r kind) {err : Error}
    (hfailure : failure? (c.lower r) = some err) :
    c.Rejected r kind ∧ ∃ fault, LiteralText.read r.schema kind c.literal.text = .error fault ∧
      err = .invalidLiteral kind c.literal.text fault := by
  rw [h.failure?_lower, Option.map_eq_some_iff] at hfailure
  obtain ⟨fault, hread, rfl⟩ := hfailure
  rw [ClusterFilter.failure?_eq_some] at hread
  exact ⟨h.rejected_iff.mpr ⟨rfl, fault, hread⟩, fault, hread, rfl⟩

theorem Fits.failure?_eq_none (h : c.Fits r kind) (hnone : failure? (c.lower r) = none)
    (kind' : ValueKind) : ¬ c.Rejected r kind' := by
  rw [h.failure?_lower, Option.map_eq_none_iff] at hnone
  intro hrejected
  obtain ⟨-, fault, hread⟩ := h.rejected_iff.mp hrejected
  rw [hread] at hnone
  cases hnone

end Comparison

section

variable [Build]

mutual

/-- An expression fails to be lowered as the leftmost of its comparisons does that fails. -/
theorem Expr.failure?_lower {r : Resource} : ∀ e : Expr,
    failure? (e.lower r) = e.comparisons.findSome? fun c => failure? (c.lower r)
  | .one t => by
    rw [Expr.lower_one, Term.failure?_lower t]
    rfl
  | .more t e => by
    rw [Expr.lower, failure?_combine, Expr.comparisons, List.findSome?_append,
      Term.failure?_lower t, Expr.failure?_lower e]

theorem Term.failure?_lower {r : Resource} : ∀ t : Term,
    failure? (t.lower r) = t.comparisons.findSome? fun c => failure? (c.lower r)
  | .one f => by
    rw [Term.lower_one, Factor.failure?_lower f]
    rfl
  | .more f t => by
    rw [Term.lower, failure?_combine, Term.comparisons, List.findSome?_append,
      Factor.failure?_lower f, Term.failure?_lower t]

theorem Factor.failure?_lower {r : Resource} : ∀ f : Factor,
    failure? (f.lower r) = f.comparisons.findSome? fun c => failure? (c.lower r)
  | .comparison c => by
    rw [Factor.lower, Factor.comparisons]
    cases hc : failure? (c.lower r) <;> simp [hc]
  | .group e => by
    rw [Factor.lower, Expr.failure?_lower e]
    rfl

end

variable {r : Resource} {e : Expr} (hfits : ∀ c ∈ e.comparisons, ∃ kind, c.Fits r kind)

include hfits

/-- The error of an expression is about the leftmost comparison whose literal is rejected. -/
theorem Expr.leftmost_of_lower_eq_error {err : Error} (h : e.lower r = .error err) :
    ∃ before c after kind fault, e.comparisons = before ++ c :: after ∧
      (∀ b ∈ before, ∀ kind, ¬ b.Rejected r kind) ∧
        c.Rejected r kind ∧ LiteralText.read r.schema kind c.literal.text = .error fault ∧
          err = .invalidLiteral kind c.literal.text fault := by
  rw [← failure?_eq_some, Expr.failure?_lower] at h
  obtain ⟨before, c, after, hsplit, hfailure, hbefore⟩ := List.findSome?_eq_some_iff.mp h
  obtain ⟨kind, hfit⟩ := hfits c (by simp [hsplit])
  obtain ⟨hrejected, fault, hread, herr⟩ := hfit.failure?_eq_some hfailure
  refine ⟨before, c, after, kind, fault, hsplit, fun b hb => ?_, hrejected, hread, herr⟩
  obtain ⟨kind', hfit'⟩ := hfits b (by simp [hsplit, hb])
  exact hfit'.failure?_eq_none (hbefore b hb)

theorem Expr.exists_lower_eq_error_iff : (∃ err, e.lower r = .error err) ↔
    ∃ c ∈ e.comparisons, ∃ kind, c.Rejected r kind := by
  constructor
  · rintro ⟨err, h⟩
    obtain ⟨before, c, after, kind, fault, hsplit, -, hrejected, -, -⟩ :=
      Expr.leftmost_of_lower_eq_error hfits h
    exact ⟨c, by simp [hsplit], kind, hrejected⟩
  · rintro ⟨c, hc, kind, hrejected⟩
    obtain ⟨kind', hfit⟩ := hfits c hc
    have hfailure : (failure? (c.lower r)).isSome = true := by
      cases hfailure : failure? (c.lower r) with
      | some err => rfl
      | none => exact absurd hrejected (hfit.failure?_eq_none hfailure kind)
    have hsome : (e.comparisons.findSome? fun c => failure? (c.lower r)).isSome = true := by
      rw [List.findSome?_isSome_iff]
      exact ⟨c, hc, hfailure⟩
    obtain ⟨err, herr⟩ := Option.isSome_iff_exists.mp hsome
    rw [← Expr.failure?_lower, failure?_eq_some] at herr
    exact ⟨err, herr⟩

end

-- ---------------------------------------------------------------------------
-- Texts that do not compile
-- ---------------------------------------------------------------------------

/-- A text that is not parsed is no expression, or names a field that is not there. -/
theorem Grammar.parse_eq_error {g : Grammar} {text : String} {err : Error}
    (h : g.parse text = .error err) :
    (∃ misfit, err = .malformed misfit) ∨ ∃ name, err = .unknownField name := by
  unfold parse at h
  split at h
  · cases h
  · next failure _ =>
    injection h with h
    subst h
    cases failure with
    | misfit place found expected => exact .inl ⟨_, rfl⟩
    | unknownField name => exact .inr ⟨_, rfl⟩

/-- A text that does not compile is no expression, or names a field that is not there, or has a
literal that is rejected. -/
theorem Resource.compile_eq_error [Build] {r : Resource} {text : String} {err : Error}
    (h : r.compile text = .error err) :
    (∃ misfit, err = .malformed misfit) ∨ (∃ name, err = .unknownField name) ∨
      ∃ kind raw fault, err = .invalidLiteral kind raw fault := by
  obtain ⟨g, hg, -⟩ := r.exists_grammar
  rcases bind_eq_error.mp h with hparse | ⟨e, he, hlower⟩
  · rw [Resource.parse_eq hg] at hparse
    rcases Grammar.parse_eq_error hparse with hmalformed | hunknown
    · exact .inl hmalformed
    · exact .inr (.inl hunknown)
  · obtain ⟨_, c, _, kind, fault, _, _, _, _, herr⟩ :=
      Expr.leftmost_of_lower_eq_error (Resource.fits_of_parse he) hlower
    exact .inr (.inr ⟨kind, _, fault, herr⟩)

/-- Where the error of a literal is no error of the library, a check of the build stopped the
program in a duration. -/
theorem LiteralText.overflows_of_isStop [Build] {schema : Schema} {kind : ValueKind} {text : String}
    {fault : LiteralFault} (h : read schema kind text = .error fault)
    (hstop : (Error.invalidLiteral kind text fault).isStop = true) :
    Build.overflowChecks = true ∧ kind = .duration ∧
      ∃ rest, Duration.Overflows text.toList rest := by
  have hfault : fault = .notADuration .overflow := by
    unfold Error.isStop at hstop
    split at hstop
    · next hsame =>
      injection hsame
    · cases hstop
  exact overflows_of_read (hfault ▸ h)

/-- The text is an expression with a literal of a duration whose seconds overflow. -/
def Resource.Overflows (r : Resource) (text : String) : Prop :=
  ∃ e, r.parse text = .ok e ∧ ∃ c ∈ e.comparisons,
    (r.schema.field? c.field).map Field.kind = some (.value .duration) ∧
      ∃ rest, Duration.Overflows c.literal.text.toList rest

/-- A build stops at no other text. -/
theorem Resource.overflows_of_isStop [Build] {r : Resource} {text : String} {err : Error}
    (h : r.compile text = .error err) (hstop : err.isStop = true) :
    Build.overflowChecks = true ∧ r.Overflows text := by
  rcases bind_eq_error.mp h with hparse | ⟨e, he, hlower⟩
  · obtain ⟨g, hg, -⟩ := r.exists_grammar
    rw [Resource.parse_eq hg] at hparse
    rcases Grammar.parse_eq_error hparse with ⟨misfit, rfl⟩ | ⟨name, rfl⟩
    · cases hstop
    · cases hstop
  · obtain ⟨before, c, after, kind, fault, hsplit, -, hrejected, hread, rfl⟩ :=
      Expr.leftmost_of_lower_eq_error (Resource.fits_of_parse he) hlower
    obtain ⟨hchecks, rfl, hoverflows⟩ := LiteralText.overflows_of_isStop hread hstop
    exact ⟨hchecks, e, he, c, by simp [hsplit], hrejected.1, hoverflows⟩

end ClusterFilter
