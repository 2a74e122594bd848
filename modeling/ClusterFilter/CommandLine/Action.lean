import ClusterFilter.CommandLine.Report
import ClusterFilter.Error
import ClusterFilter.Files.Access

/-!
# ClusterFilter — actions

An action takes its steps one after another until one of them fails. What its steps print and note
on the way is kept, also when a later step fails.
-/

namespace ClusterFilter.CommandLine

/-- What the steps of a run have written so far. -/
structure Transcript where
  /-- What is on standard output. -/
  printed : List Char
  notes : List Note
  deriving DecidableEq, Repr

/-- Actions that may fail and that write as they go. -/
abbrev Action (m : Type → Type) :=
  ExceptT Error (StateT Transcript m)

variable {m : Type → Type} [Monad m]

/-- Prints a text. -/
def print (text : List Char) : Action m Unit :=
  modify fun t => { t with printed := t.printed ++ text }

/-- Prints the text of every member of a list. -/
def printEach {α : Type} (text : α → List Char) : List α → Action m Unit
  | [] => pure ()
  | a :: as => do
    print (text a)
    printEach text as

/-- Adds a note to the report. -/
def report (topic : String) (text : List Char) : Action m Unit :=
  modify fun t => { t with notes := t.notes ++ [⟨topic, text⟩] }

/-- A result that is known without any action. -/
def known {α : Type} (result : Except Error α) : Action m α :=
  ExceptT.mk (pure result)

/-- An action that writes nothing. -/
def silently {α : Type} (action : ExceptT Error m α) : Action m α :=
  ExceptT.mk (StateT.lift action.run)

end ClusterFilter.CommandLine
