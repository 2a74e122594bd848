import ClusterFilter.Grammar.Basic

/-!
# ClusterFilter — grammar texts

A grammar as text: the skeleton, the alternatives, the comparator rules in use, and the terminals.
Equal grammars have equal texts.
-/

namespace ClusterFilter.Grammar

/-- An alternative of a factor on a line of its own. -/
def productionLine (p : Production) : String :=
  let target := "\"" ++ p.field ++ "\"" ++
    (if p.keyed then " (\".\" KEY | \"[\" QUOTED \"]\")" else "")
  "\n      | " ++ target ++ " " ++ p.comparators.rule ++ " " ++ p.token.terminal ++ " -> " ++
    p.field

/-- The rule of a family of comparators. -/
def comparatorLine (comparators : Comparators) : String :=
  comparators.rule ++ ": " ++
    String.intercalate " | " (comparators.operators.map Operator.terminal) ++ "\n"

/-- The terminal of an operator. A word is matched in any letter case, which an `i` marks. -/
def operatorLine (op : Operator) : String :=
  let isWord := op.symbol.toList.all Char.isAlpha
  op.terminal ++ ": \"" ++ op.symbol ++ "\"" ++ (if isWord then "i" else "") ++ "\n"

/-- The operators in the order of their terminals. -/
def operatorOrder : List Operator :=
  Comparators.text.operators ++ Comparators.ordered.operators.drop 2

/-- The terminal that lists the statuses, if there are any. -/
def statusLine (statuses : List String) : String :=
  if statuses.isEmpty then ""
  else
    let names := statuses.map fun s => "\"" ++ Text.lowered s ++ "\"i"
    "STATUS: " ++ String.intercalate " | " names ++ "\n"

/-- The terminals that every grammar has. -/
def fixedTerminals : String :=
  "QUOTED: /'(\\\\.|[^'\\\\])*'/ | /\"(\\\\.|[^\"\\\\])*\"/\n" ++
  "KEY: /[^\\s()'\"=!<>\\[\\]]+/\n" ++
  "STRING: QUOTED | /[^\\s()'\"]+/\n" ++
  "BOOL: \"true\"i | \"false\"i\n" ++
  "SIGNED_INT: /[+-]?\\d+/\n" ++
  "DATETIME: /[^\\s()'\"]+/  // ISO 8601 (e.g., 2024-12-28T14:00:00Z)\n" ++
  "DURATION: /[^\\s()'\"]+/  // ISO 8601 (e.g., P1Y2M3DT4H5M6S)\n"

/-- The text of a grammar. -/
def text (g : Grammar) : String :=
  let inUse := fun comparators => g.productions.any fun p => p.comparators == comparators
  let families := [Comparators.text, .equality, .ordered].filter inUse
  "?start: expr\n\nexpr: term (\"or\"i term)*\n\nterm: factor (\"and\"i factor)*\n\n" ++
  "factor: \"(\" expr \")\"" ++
  String.join (g.productions.map productionLine) ++ "\n\n" ++
  String.join (families.map comparatorLine) ++ "\n" ++
  String.join (operatorOrder.map operatorLine) ++ "\n" ++
  fixedTerminals ++ statusLine g.statuses ++ "\n%ignore WS\n"

end ClusterFilter.Grammar
