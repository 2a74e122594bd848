import ClusterFilter.Toml.Scalar
import ClusterFilter.Toml.StringForm

/-!
# ClusterFilter — reading TOML documents

A document is a sequence of lines: members, headers of tables and comments. Arrays may go over
several lines and tables between braces may not. Arrays and braces nest less than 80 deep, and a key
has fewer than 80 parts.
-/

namespace ClusterFilter.Toml

-- ---------------------------------------------------------------------------
-- Lines and gaps
-- ---------------------------------------------------------------------------

/-- The text with all lines ended by a line feed alone; none if it has a control character, which
no document has. -/
def normalLines : List Char → Option (List Char)
  | [] => some []
  | '\r' :: '\n' :: cs => (normalLines cs).map ('\n' :: ·)
  | c :: cs => if isControl c then none else (normalLines cs).map (c :: ·)

/-- What follows white space, line feeds and comments; `inComment` says that a comment has
begun. -/
def skipGap (inComment : Bool) : List Char → List Char
  | [] => []
  | c :: cs =>
    if c = '\n' then skipGap false cs
    else if inComment then skipGap true cs
    else if isSpace c then skipGap false cs
    else if c = '#' then skipGap true cs
    else c :: cs

/-- What follows the end of the line; none if there is more on it than a comment. -/
def skipLineRest? (cs : List Char) : Option (List Char) :=
  match skipSpaces cs with
  | [] => some []
  | '\n' :: rest => some rest
  | '#' :: rest => some ((rest.dropWhile (· != '\n')).drop 1)
  | _ => none

-- ---------------------------------------------------------------------------
-- Keys
-- ---------------------------------------------------------------------------

/-- Characters of a bare key. -/
def isKeyChar (c : Char) : Bool :=
  c.isAlphanum || c == '_' || c == '-'

/-- Reads one part of a key: bare, or a string on one line. -/
def readKeyPart? (cs : List Char) : Option (String × List Char) :=
  let bare := cs.takeWhile isKeyChar
  if bare.isEmpty then do
    let c ← cs.head?
    if c = '\x22' ∨ c = '\x27' then
      let (text, rest) ← StringForm.body ⟨c = '\x22', false⟩ (cs.drop 1)
      some (String.ofList text, rest)
    else none
  else some (String.ofList bare, cs.drop bare.length)

/-- A key: the path to a table, and the name in it. -/
structure Key where
  path : List String
  name : String
  deriving DecidableEq, Repr

/-- Reads a key of at most the given number of parts with points between them, and the white space
around it. -/
def readKey? : Nat → List Char → Option (Key × List Char)
  | 0, _ => none
  | parts + 1, cs => do
    let (part, rest) ← readKeyPart? (skipSpaces cs)
    match skipSpaces rest with
    | '.' :: rest =>
      let (key, rest) ← readKey? parts rest
      some (⟨part :: key.path, key.name⟩, rest)
    | rest => some (⟨[], part⟩, rest)

/-- The largest number of parts of a key, and the greatest depth of a value. -/
def maxDepth : Nat := 79

-- ---------------------------------------------------------------------------
-- Values
-- ---------------------------------------------------------------------------

/-- Reads a value without parts. -/
def readScalar? (cs : List Char) : Option (Scalar × List Char) :=
  if (StringForm.opening? cs).isSome then
    (readString? cs).map fun (text, rest) => (.text (String.ofList text), rest)
  else
    let (word, rest) := takeWord cs
    (readWord? word).map (·, rest)

/- Values, items and members are read with `fuel` steps, of which each takes a character off the
text at least; `depth` is how deep they may still nest. -/

mutual

/-- Reads a value. -/
def readValue? (depth : Nat) : Nat → List Char → Option (Node × List Char)
  | 0, _ => none
  | fuel + 1, '[' :: cs =>
    match depth with
    | 0 => none
    | depth + 1 => (readItems? depth fuel cs).map fun (items, rest) => (.array items, rest)
  | fuel + 1, '\x7b' :: cs =>
    match depth with
    | 0 => none
    | depth + 1 =>
      match skipSpaces cs with
      | '\x7d' :: rest => some (.table .inline [], rest)
      | rest =>
        (readMembers? depth fuel [] rest).map fun (members, rest) =>
          (.table .inline members, rest)
  | _, cs => (readScalar? cs).map fun (s, rest) => (.scalar s, rest)

/-- Reads the items of an array up to its closing bracket. -/
def readItems? (depth : Nat) : Nat → List Char → Option (List Node × List Char)
  | 0, _ => none
  | fuel + 1, cs =>
    match skipGap false cs with
    | ']' :: rest => some ([], rest)
    | cs => do
      let (item, rest) ← readValue? depth fuel cs
      match skipGap false rest with
      | ',' :: rest =>
        let (items, rest) ← readItems? depth fuel rest
        some (item :: items, rest)
      | ']' :: rest => some ([item], rest)
      | _ => none

/-- Reads the members of a table up to its closing brace; `members` are those before. -/
def readMembers? (depth : Nat) : Nat → Members → List Char → Option (Members × List Char)
  | 0, _, _ => none
  | fuel + 1, members, cs => do
    let (key, rest) ← readKey? maxDepth cs
    let rest ← after? '=' rest
    let (node, rest) ← readValue? depth fuel (skipSpaces rest)
    let members ← members.assign key.path key.name node
    match skipSpaces rest with
    | ',' :: rest => readMembers? depth fuel members rest
    | '\x7d' :: rest => some (members, rest)
    | _ => none

end

-- ---------------------------------------------------------------------------
-- Documents
-- ---------------------------------------------------------------------------

/-- What stands on the lines of a document. -/
inductive Entry where
  | member (key : Key) (node : Node)
  | header (key : Key)
  | element (key : Key)

/-- Reads a header, without its line's end. -/
def readHeader? : List Char → Option (Entry × List Char)
  | '[' :: '[' :: cs => do
    let (key, rest) ← readKey? maxDepth cs
    let rest ← after? ']' (← after? ']' rest)
    some (.element key, rest)
  | '[' :: cs => do
    let (key, rest) ← readKey? maxDepth cs
    let rest ← after? ']' rest
    some (.header key, rest)
  | _ => none

/-- Reads a member, without its line's end. -/
def readMember? (cs : List Char) : Option (Entry × List Char) := do
  let (key, rest) ← readKey? maxDepth cs
  let rest := skipSpaces (← after? '=' rest)
  let (node, rest) ← readValue? maxDepth rest.length rest
  some (.member key node, rest)

/-- Reads the entries of a document of at most `fuel` lines. -/
def readEntries? : Nat → List Char → Option (List Entry)
  | 0, _ => none
  | fuel + 1, cs =>
    match skipGap false cs with
    | [] => some []
    | cs => do
      let (entry, rest) ← if cs.head? = some '[' then readHeader? cs else readMember? cs
      let rest ← skipLineRest? rest
      let entries ← readEntries? fuel rest
      some (entry :: entries)

/-- A header with the members that follow it. -/
structure Section where
  /-- Whether the header makes one more table of an array. -/
  isElement : Bool
  key : Key
  members : List (Key × Node)

/-- The members before the first header, and the sections. -/
def sections : List Entry → List (Key × Node) × List Section
  | [] => ([], [])
  | .member key node :: entries =>
    let (members, rest) := sections entries
    ((key, node) :: members, rest)
  | .header key :: entries =>
    let (members, rest) := sections entries
    ([], ⟨false, key, members⟩ :: rest)
  | .element key :: entries =>
    let (members, rest) := sections entries
    ([], ⟨true, key, members⟩ :: rest)

/-- Adds members to a table. -/
def Members.fill (added : List (Key × Node)) (members : Members) : Option Members :=
  added.foldlM (fun members (key, node) => members.assign key.path key.name node) members

/-- Adds a section to the document. -/
def Members.addSection (root : Members) (s : Section) : Option Members :=
  let fill := Members.fill s.members
  let change := if s.isElement then Members.openElement fill s.key.name
    else Members.openTable fill s.key.name
  root.descend change s.key.path

/-- Reads a document. A byte order mark at its start is left out. -/
def readDocument? (text : List Char) : Option Members := do
  let cs ← normalLines (if text.head? = some '\ufeff' then text.drop 1 else text)
  let entries ← readEntries? (cs.length + 1) cs
  let (members, rest) := sections entries
  let root ← Members.fill members []
  rest.foldlM Members.addSection root

end ClusterFilter.Toml
