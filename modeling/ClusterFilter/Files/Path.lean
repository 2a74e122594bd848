import ClusterFilter.Text.Basic
import ClusterFilter.Text.Split

/-!
# ClusterFilter — paths

A path is a text of names with slashes between them. Two texts are the same path if they have the
same steps: a single point and a doubled slash do not count, except for a point in front. What is
too long leads nowhere, whether it is a name or the whole path as it is written.
-/

namespace ClusterFilter.Path

/-- What stands between slashes. -/
def segments (path : String) : List (List Char) :=
  Text.splitAll '/' path.toList

/-- Whether the path starts at the root. -/
def isAbsolute (path : String) : Bool :=
  path.toList.head? == some '/'

/-- Whether a segment is no step. -/
def isIdle (segment : List Char) : Bool :=
  segment == [] || segment == ['.']

/-- The steps of the path. -/
def steps (path : String) : List (List Char) :=
  let rest := (segments path).filter fun s => !isIdle s
  if (segments path).head? = some ['.'] then ['.'] :: rest else rest

/-- Whether two texts are the same path. -/
def same (a b : String) : Bool :=
  isAbsolute a == isAbsolute b && steps a == steps b

/-- The segments without those at the end that are no steps. -/
def dropIdleEnd (segments : List (List Char)) : List (List Char) :=
  (segments.reverse.dropWhile isIdle).reverse

/-- The directory that holds the entry at the path, written as in the path up to its last step;
empty if the path has nothing in front of that. -/
def directory (path : String) : String :=
  let above := dropIdleEnd (dropIdleEnd (segments path)).dropLast
  if isAbsolute path ∧ above = [] then "/" else String.ofList (Text.joinWith ['/'] above)

/-- The longest name that a file can have, in bytes. -/
def maxNameLength : Nat := 255

/-- The longest path that leads anywhere, in bytes. -/
def maxLength : Nat := 4095

/-- Whether the segment can be the name of a file. -/
def isName (segment : List Char) : Bool :=
  Text.utf8Length segment ≤ maxNameLength

/-- Whether the text can be a path. -/
def isValid (path : String) : Bool :=
  !path.toList.contains '\x00' && Text.utf8Length path.toList ≤ maxLength

end ClusterFilter.Path
