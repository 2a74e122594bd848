/-!
# ClusterFilter — splitting texts

Texts are cut at separators, which belong to no part.
-/

namespace ClusterFilter.Text

/-- What stands before and after the first `separator`, if there is one. -/
def splitFirst? (separator : Char) : List Char → Option (List Char × List Char)
  | [] => none
  | c :: cs =>
    if c = separator then some ([], cs)
    else (splitFirst? separator cs).map fun (a, b) => (c :: a, b)

/-- The parts of the text between separators; a text without one is its only part. -/
def splitAll (separator : Char) : List Char → List (List Char)
  | [] => [[]]
  | c :: cs =>
    if c = separator then [] :: splitAll separator cs
    else
      match splitAll separator cs with
      | part :: parts => (c :: part) :: parts
      | [] => [[c]]

end ClusterFilter.Text
