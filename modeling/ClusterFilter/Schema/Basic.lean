import ClusterFilter.Schema.Kind
import ClusterFilter.Text.Basic

/-!
# ClusterFilter — schemas

A schema lists the fields of a resource in their order of declaration and, for a resource with a
lifecycle, the vocabulary of its statuses.
-/

namespace ClusterFilter

/-- A field of a resource. A keyed field holds a map, and a filter addresses one of its entries. -/
structure Field where
  name : String
  kind : FieldKind
  keyed : Bool
  deriving DecidableEq, Repr

/-- A member of a status vocabulary: its name in capitals and its number on the wire. -/
structure Status where
  name : String
  code : Int32
  deriving DecidableEq, Repr

/-- The name of the status as expressions show it. -/
def Status.chars (s : Status) : List Char :=
  Text.lower s.name.toList

/-- The fields of a resource and its status vocabulary, if it has one. -/
structure Schema where
  fields : List Field
  statuses : Option (List Status)
  deriving DecidableEq, Repr

namespace Schema

/-- The field of the given name. -/
def field? (schema : Schema) (name : String) : Option Field :=
  schema.fields.find? fun f => f.name == name

/-- The status of the given name in any letter case. -/
def status? (schema : Schema) (name : String) : Option Status :=
  (schema.statuses.getD []).find? fun s => Text.sameIgnoringCase s.name.toList name.toList

end Schema

end ClusterFilter
