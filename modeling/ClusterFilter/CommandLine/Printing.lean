import ClusterFilter.CommandLine.Action
import ClusterFilter.Document.Yaml
import ClusterFilter.Grammar.Basic
import ClusterFilter.Predicate.Wire
import ClusterFilter.Settings.Basic

/-!
# ClusterFilter — printed filters and field lists

What the commands print: a filter as its wire form in JSON or YAML, as a table of its clauses or as
an expression; and the fields of a resource, as a document or as a table. Tables are printed line by
line.
-/

namespace ClusterFilter.CommandLine

variable {m : Type → Type} [Monad m]

/-- Columns with one space between them. Each has a width, except for the last one. -/
def row (columns : List (Nat × List Char)) (last : List Char) : List Char :=
  columns.flatMap (fun (width, text) => Text.padEnd width text ++ [' ']) ++ last ++ ['\n']

/-- The line below the head of a table. -/
def rule : List Char :=
  List.replicate 72 '-' ++ ['\n']

-- ---------------------------------------------------------------------------
-- Filters
-- ---------------------------------------------------------------------------

/-- A row for a condition of the clause with the given number. -/
def conditionRow (number : Nat) (c : Condition) : List Char :=
  row [(7, Text.digits number), (28, c.field.chars), (12, c.op.symbol.toList)] c.value.chars

/-- Prints a row for each condition of clauses that are numbered from `number` on. -/
def printClauseRows (number : Nat) : List Clause → Action m Unit
  | [] => pure ()
  | clause :: clauses => do
    printEach (conditionRow number) clause
    printClauseRows (number + 1) clauses

/-- Prints the clauses as a table with a row for each condition. -/
def printClauses (p : Predicate) : Action m Unit := do
  let clauses ← known p.disjunctiveForm
  print (row [(7, "CLAUSE".toList), (28, "FIELD".toList), (12, "OPERATOR".toList)] "VALUE".toList)
  print rule
  printClauseRows 1 clauses

/-- Prints a predicate in a format. -/
def printPredicate (p : Predicate) : OutputFormat → Action m Unit
  | .json => do
    let document ← known p.wire
    print (document.indented 0 ++ ['\n'])
  | .yaml => do
    let document ← known p.wire
    print document.block
  | .table => printClauses p
  | .text => print (p.chars ++ ['\n'])

-- ---------------------------------------------------------------------------
-- Fields
-- ---------------------------------------------------------------------------

/-- A field as a filter refers to it. -/
def fieldReference (p : Production) : String :=
  if p.keyed then p.field ++ ".<key>" else p.field

/-- The statuses that literals of the field can name. -/
def statusesOf (g : Grammar) (p : Production) : List String :=
  if p.kind = .status then g.statuses.map Text.lowered else []

/-- A field with its kind, its comparators and, if there are any, its values. -/
def fieldDocument (g : Grammar) (p : Production) : Document :=
  let values := statusesOf g p
  .record
    ([("name", .text (fieldReference p)), ("kind", .text p.kind.tag),
      ("operators", .list (p.comparators.operators.map fun op => .text op.symbol))] ++
      if values.isEmpty then [] else [("values", .list (values.map .text))])

/-- The fields of a grammar as a document. -/
def fieldsDocument (g : Grammar) : Document :=
  .list (g.productions.map (fieldDocument g))

/-- A row for a field. -/
def fieldRow (p : Production) : List Char :=
  let operators := p.comparators.operators.map fun op => op.symbol.toList
  row [(28, (fieldReference p).toList), (10, p.kind.label.toList)]
    (Text.joinWith [' '] operators)

/-- Prints the fields of a grammar as a table, and the statuses below it. -/
def printFieldTable (g : Grammar) : Action m Unit := do
  let statuses := g.statuses.map fun s => Text.lower s.toList
  print (row [(28, "FIELD".toList), (10, "KIND".toList)] "OPERATORS".toList)
  print rule
  printEach fieldRow g.productions
  if !statuses.isEmpty then
    print ['\n']
    print ("Status values: ".toList ++ Text.joinWith ", ".toList statuses ++ ['\n'])

/-- Prints the fields of a grammar in a format: `json`, `yaml` or `yml`, `table` or `text`. -/
def printFields (g : Grammar) (format : String) : Action m Unit :=
  if format = "json" then print ((fieldsDocument g).indented 0 ++ ['\n'])
  else if format = "yaml" ∨ format = "yml" then print (fieldsDocument g).block
  else if format = "table" ∨ format = "text" then printFieldTable g
  else known (.error (.settings (.unknownListFormat format)))

end ClusterFilter.CommandLine
