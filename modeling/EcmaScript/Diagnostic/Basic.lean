import EcmaScript.Text.Line
import EcmaScript.Diagnostic.Problem
import EcmaScript.Diagnostic.Template

/-!
# Diagnostics

A diagnostic is what a user is told: a message, the category of the problem, and its place
as an offset, a line and a column. Diagnostics are kept in the order in which the problems
were met.
-/

namespace EcmaScript

/-- One message about a source text. -/
structure Diagnostic where
  /-- What is wrong, in words. -/
  message : String
  /-- The line of the place, counted from one. -/
  line : Nat
  /-- The column of the place, counted from one. -/
  column : Nat
  /-- The byte offset of the place. -/
  offset : Nat
  /-- The part of the front end that found the problem. -/
  category : Category
deriving Repr, DecidableEq, Inhabited

namespace Diagnostic

/-- A message about a byte offset of a source text. -/
def atOffset (source : String) (offset : Nat) (category : Category) (message : String) :
    Diagnostic :=
  let place := LineColumn.ofOffset source offset
  ⟨message, place.line, place.column, offset, category⟩

/-- A message about a position of a source text. -/
def atPosition (source : String) (p : Position) (category : Category) (message : String) :
    Diagnostic :=
  atOffset source (Position.offset p) category message

/-- Whether the lexer found the problem. -/
def isLexical (d : Diagnostic) : Bool := d.category == .lexical

/-- The message and its place on one line. -/
def display (d : Diagnostic) : String := s!"{d.message} (line {d.line}, column {d.column})"

end Diagnostic

/-- What a user is told about a fault. -/
def Fault.diagnose (source : String) (fault : Fault) : Diagnostic :=
  .atOffset source fault.offset fault.problem.category fault.problem.message

/-- Diagnostics in the order in which their problems were met. -/
abbrev Diagnostics := List Diagnostic

namespace Diagnostics

/-- The first diagnostic in full, and how many more there are. -/
def summary : Diagnostics → String
  | [] => "no errors"
  | [only] => only.display
  | first :: more => s!"{first.display} (and {more.length} more errors)"

/-- The list with one more message at its end, written from a template. -/
def add (list : Diagnostics) (source : String) (p : Position) (category : Category)
    (template : String) (args : List String) : Diagnostics :=
  list ++ [.atPosition source p category (Template.fill template args)]

/-- Whether a problem of syntax is among the diagnostics. -/
def hasSyntactic (list : Diagnostics) : Bool := list.any (·.category == .syntactic)

end Diagnostics

end EcmaScript
