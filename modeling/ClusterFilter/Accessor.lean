import ClusterFilter.Error
import ClusterFilter.Predicate.Basic
import ClusterFilter.Schema.Resource

/-!
# ClusterFilter — field accessors

An accessor is a field of a resource that a filter can compare, together with its key if it is a
map. It builds conditions from typed values, with the operators that accessors of its kind have.
These have lists of their own, beside those of the grammars.
-/

namespace ClusterFilter

namespace ValueKind

/-- Whether an accessor of strings compares by the operator. -/
def textAdmits : Operator → Bool
  | .equal | .notEqual | .contains | .notContains | .startsWith | .endsWith => true
  | _ => false

/-- Whether an accessor of values that are only told apart compares by the operator. -/
def equalityAdmits : Operator → Bool
  | .equal | .notEqual => true
  | _ => false

/-- Whether an accessor of values with an order compares by the operator. -/
def orderedAdmits : Operator → Bool
  | .equal | .notEqual | .less | .lessOrEqual | .greater | .greaterOrEqual => true
  | _ => false

/-- Whether an accessor of the kind compares by the operator. -/
def admits : ValueKind → Operator → Bool
  | string => textAdmits
  | boolean => equalityAdmits
  | number => orderedAdmits
  | date => orderedAdmits
  | duration => orderedAdmits
  | status => equalityAdmits

end ValueKind

/-- A field bound to the comparators and values of its kind. -/
structure Accessor where
  field : FieldRef
  kind : ValueKind
  deriving DecidableEq, Repr

namespace Accessor

/-- Binds a field. A key has to be given exactly when the field is keyed; a field that no filter
reaches has no accessor. -/
def bind? (f : Field) (key : Option String) : Option Accessor :=
  if f.keyed = key.isSome then
    f.kind.filterable?.map fun kind => ⟨⟨f.name, key⟩, kind⟩
  else none

/-- The accessor of a resource's field. -/
def ofResource? (r : Resource) (name : String) (key : Option String) : Option Accessor := do
  let f ← r.schema.field? name
  bind? f key

/-- The comparison of the field with a value of its kind. -/
def compare (a : Accessor) (op : Operator) (value : a.kind.Carrier) : Except Error Predicate :=
  if a.kind.admits op then
    .ok (.leaf ⟨a.field, .value a.kind, op, Value.ofCarrier a.kind value⟩)
  else .error (.unsupportedOperator a.field op)

end Accessor

end ClusterFilter
