import ClusterFilter.Text.Terminal

/-!
# ClusterFilter — reports

A report is a list of notes on the steps of a run. Each note is written as a record of its own:
its topic in brackets, then its text. Where the text has several lines, all but the first are
indented, so that a line at the margin always starts a record.
-/

namespace ClusterFilter.CommandLine

/-- A note on a step of a run. -/
structure Note where
  /-- The part of the program that took the step. -/
  topic : String
  text : List Char
  deriving DecidableEq, Repr

namespace Note

/-- The text with all lines but the first indented. -/
def indented (text : List Char) : List Char :=
  text.flatMap fun c => if c = '\n' then '\n' :: List.replicate 4 ' ' else [c]

/-- The note as it is written. Terminal controls that got into its text are left out. -/
def record (n : Note) : List Char :=
  Terminal.shown
    ("[DEBUG ".toList ++ n.topic.toList ++ "] ".toList ++ indented n.text ++ ['\n'])

end Note

end ClusterFilter.CommandLine
