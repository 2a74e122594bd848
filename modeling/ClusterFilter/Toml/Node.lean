/-!
# ClusterFilter — TOML documents as trees

A document is a table of named nodes. A table remembers how it came to be, because that decides
what may still be added to it: a header may complete a table that so far is only implied, and
dotted keys may add to tables that dotted keys made.
-/

namespace ClusterFilter.Toml

/-- Values without parts. Floats and times are kept as they are written. -/
inductive Scalar where
  | text (s : String)
  | integer (n : Int)
  | boolean (b : Bool)
  | float (written : String)
  | time (written : String)
  deriving DecidableEq, Repr

/-- How a table came to be. -/
inductive Origin where
  /-- Between braces. Such a table is complete. -/
  | inline
  /-- By a header of its own. -/
  | header
  /-- As a step on the way to a header's table. -/
  | implied
  /-- As a step of a dotted key. -/
  | dotted
  deriving DecidableEq, Repr

/-- A node of a document. -/
inductive Node where
  | scalar (s : Scalar)
  | array (items : List Node)
  | table (origin : Origin) (members : List (String × Node))
  /-- An array of tables that headers make one after another. -/
  | tables (earlier : List (List (String × Node))) (last : List (String × Node))

/-- The named nodes of a table, in the order in which they came. -/
abbrev Members := List (String × Node)

namespace Members

/-- The members with the first node of the given name exchanged. -/
def exchange (name : String) (node : Node) : Members → Members
  | [] => []
  | (n, old) :: rest =>
    if n = name then (n, node) :: rest else (n, old) :: exchange name node rest

/-- Adds a node at the end of a path of dotted keys. Every step leads into a table, and the last
one into a table that dotted keys made; a name is given once. -/
def assign (members : Members) : List String → String → Node → Option Members
  | [], name, node =>
    match members.lookup name with
    | some _ => none
    | none => some (members ++ [(name, node)])
  | step :: path, name, node =>
    match members.lookup step with
    | none =>
      (assign [] path name node).map fun inner => members ++ [(step, .table .dotted inner)]
    | some (.table .dotted inner) =>
      (assign inner path name node).map fun inner =>
        members.exchange step (.table .dotted inner)
    | some (.table .implied inner) =>
      if path.isEmpty then none
      else (assign inner path name node).map fun inner =>
        members.exchange step (.table .implied inner)
    | some (.tables earlier last) =>
      if path.isEmpty then none
      else (assign last path name node).map fun last =>
        members.exchange step (.tables earlier last)
    | some _ => none

/-- Changes the table at the end of a header's path. Tables that are missing on the way are
implied; in an array of tables the way goes through the last one. -/
def descend (change : Members → Option Members) (members : Members) :
    List String → Option Members
  | [] => change members
  | step :: path =>
    match members.lookup step with
    | none =>
      (descend change [] path).map fun inner => members ++ [(step, .table .implied inner)]
    | some (.table .inline _) => none
    | some (.table origin inner) =>
      (descend change inner path).map fun inner => members.exchange step (.table origin inner)
    | some (.tables earlier last) =>
      (descend change last path).map fun last => members.exchange step (.tables earlier last)
    | some _ => none

/-- The table of a header: a new one, or one that so far is only implied. -/
def openTable (fill : Members → Option Members) (name : String) (members : Members) :
    Option Members :=
  match members.lookup name with
  | none => (fill []).map fun inner => members ++ [(name, .table .header inner)]
  | some (.table .implied inner) =>
    (fill inner).map fun inner => members.exchange name (.table .header inner)
  | some _ => none

/-- One more table of an array of tables. -/
def openElement (fill : Members → Option Members) (name : String) (members : Members) :
    Option Members :=
  match members.lookup name with
  | none => (fill []).map fun inner => members ++ [(name, .tables [] inner)]
  | some (.tables earlier last) =>
    (fill []).map fun inner => members.exchange name (.tables (earlier ++ [last]) inner)
  | some _ => none

end Members

end ClusterFilter.Toml
