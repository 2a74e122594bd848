import ClusterFilter.Document.Basic
import ClusterFilter.Document.Scalar

/-!
# ClusterFilter — documents as YAML

The block layout: each item and each member starts a line. A record is two columns deeper than the
member that holds it and a list is not; what an item holds starts right after its dash.
-/

namespace ClusterFilter.Document

/-- The scalar, followed by a line feed unless it ends its line itself. -/
def scalarLine (indent : Nat) (s : String) : List Char :=
  let text := Yaml.scalar indent s.toList
  if text.getLast?.any Yaml.isBreak then text else text ++ ['\n']

mutual

/-- The items of a list in the column `indent`; the caller has moved to that column. -/
def blockItems (indent : Nat) : List Document → List Char
  | [] => []
  | [d] => '-' :: ' ' :: blockItem indent d
  | d :: ds => '-' :: ' ' :: blockItem indent d ++ Yaml.margin indent ++ blockItems indent ds

/-- What follows the dash of an item. -/
def blockItem (indent : Nat) : Document → List Char
  | text s => scalarLine (indent + 2) s
  | integer n => Text.signedDigits n ++ ['\n']
  | flag b => (if b then "true\n" else "false\n").toList
  | list [] => "[]\n".toList
  | list items => blockItems (indent + 2) items
  | record [] => "\x7b\x7d\n".toList
  | record members => blockMembers (indent + 2) members

/-- The members of a record in the column `indent`; the caller has moved to that column. -/
def blockMembers (indent : Nat) : List (String × Document) → List Char
  | [] => []
  | [(name, d)] => Yaml.memberName name.toList ++ ':' :: blockMember indent d
  | (name, d) :: ms =>
    Yaml.memberName name.toList ++ ':' :: blockMember indent d ++ Yaml.margin indent ++
      blockMembers indent ms

/-- What follows the colon of a member. -/
def blockMember (indent : Nat) : Document → List Char
  | text s => ' ' :: scalarLine (indent + 2) s
  | integer n => ' ' :: Text.signedDigits n ++ ['\n']
  | flag b => (if b then " true\n" else " false\n").toList
  | list [] => " []\n".toList
  | list items => '\n' :: Yaml.margin indent ++ blockItems indent items
  | record [] => " \x7b\x7d\n".toList
  | record members => '\n' :: Yaml.margin (indent + 2) ++ blockMembers (indent + 2) members

end

/-- The document as YAML in block layout. -/
def block : Document → List Char
  | text s => scalarLine 0 s
  | integer n => Text.signedDigits n ++ ['\n']
  | flag b => (if b then "true\n" else "false\n").toList
  | list [] => "[]\n".toList
  | list items => blockItems 0 items
  | record [] => "\x7b\x7d\n".toList
  | record members => blockMembers 0 members

end ClusterFilter.Document
