import ClusterFilter.Error
import ClusterFilter.Schema.Resource

/-!
# ClusterFilter — grammars

The grammar of a resource's filters is a fixed boolean skeleton and one alternative for each
filterable field:

    start  := expr
    expr   := term ("or" term)*
    term   := factor ("and" factor)*
    factor := "(" expr ")" | field comparator literal | ...

A grammar holds the alternatives as data. It is made from a list of fields; a keyed field of
another kind than strings, or a status field without a vocabulary, cannot be expressed.
-/

namespace ClusterFilter

/-- An alternative of a factor: a field with its comparators and its literals. The class of the
literals is named by the kind that they are for. -/
structure Production where
  field : String
  kind : ValueKind
  keyed : Bool
  comparators : Comparators
  token : ValueKind
  deriving DecidableEq, Repr

/-- The alternatives of a grammar in the order of the fields, and the names of the statuses that
its literals can name. -/
structure Grammar where
  resource : String
  productions : List Production
  statuses : List String
  deriving DecidableEq, Repr

namespace Field

/-- Whether a grammar cannot express the field. -/
def isInexpressible (hasStatuses : Bool) (f : Field) : Bool :=
  (f.keyed && f.kind != .value .string) || (f.kind == .value .status && !hasStatuses)

/-- The alternative for the field, with the comparators and literals of its kind; a field that no
filter reaches has none. -/
def production? (f : Field) : Option Production :=
  f.kind.filterable?.map fun kind => ⟨f.name, kind, f.keyed, kind.comparators, kind⟩

end Field

namespace Grammar

/-- The grammar of a list of fields. The first field that cannot be expressed is the error. -/
def generate (resource : String) (fields : List Field) (statuses : Option (List Status)) :
    Except Error Grammar :=
  let vocabulary := statuses.getD []
  match fields.find? fun f => f.isInexpressible (!vocabulary.isEmpty) with
  | some f => .error (.unsupportedField resource f.name f.kind)
  | none =>
    let productions := fields.filterMap Field.production?
    let names := vocabulary.map Status.name
    .ok ⟨resource, productions, if productions.any (·.token == .status) then names else []⟩

/-- The first alternative for a field name. -/
def production? (g : Grammar) (name : String) : Option Production :=
  g.productions.find? fun p => p.field == name

/-- The alternative that a field name has in an expression: where a name is given twice, the last
one. -/
def resolve? (g : Grammar) (name : String) : Option Production :=
  g.productions.reverse.find? fun p => p.field == name

end Grammar

/-- The grammar of a resource. -/
def Resource.grammar (r : Resource) : Except Error Grammar :=
  Grammar.generate r.name r.schema.fields r.schema.statuses

end ClusterFilter
