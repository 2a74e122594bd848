/-!
# ClusterFilter — documents

The data that the library writes in a data format: texts, integers, truth values, lists, and
records whose members keep their order.
-/

namespace ClusterFilter

/-- A piece of structured data. -/
inductive Document where
  | text (s : String)
  | integer (n : Int)
  | flag (b : Bool)
  | list (items : List Document)
  | record (members : List (String × Document))

end ClusterFilter
