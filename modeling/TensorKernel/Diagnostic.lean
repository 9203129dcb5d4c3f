import TensorKernel.Fault
import TensorKernel.Span

/-!
# Diagnostics

What the checker tells its user: an error or a warning, with the source span it
is about, the instruction it is attached to if there is one, notes, and perhaps
a help text. `Diagnostic.text` is the form that needs no source text at hand;
the form that shows the source is an excerpt (`Diagnostic.excerpt`).
-/

namespace TensorKernel

inductive Severity where
  | error
  | warning
  deriving DecidableEq

namespace Severity

/-- The word a one-line diagnostic opens with. -/
def label : Severity → String
  | error => "error"
  | warning => "warning"

/-- The word an excerpt opens with. -/
def title : Severity → String
  | error => "Error"
  | warning => "Warning"

end Severity

structure Diagnostic where
  severity : Severity
  message : String
  span : Span
  stmt : Option StmtId := none
  /-- In the order in which they were added. -/
  notes : List String := []
  help : Option String := none
  deriving DecidableEq

namespace Diagnostic

def isError (d : Diagnostic) : Bool := d.severity = .error

/-- Adds a note after the ones that are there. -/
def withNote (d : Diagnostic) (note : String) : Diagnostic := { d with notes := d.notes ++ [note] }

/-- Sets the help text, in place of one that is there. -/
def withHelp (d : Diagnostic) (help : String) : Diagnostic := { d with help := some help }

def withStmt (d : Diagnostic) (id : StmtId) : Diagnostic := { d with stmt := some id }

/-- Severity, instruction, place and message on one line, as in
`error[$12] at 0:3..7: bad index`, and each note and the help text on a line of
its own below. -/
def text (d : Diagnostic) : String :=
  let instruction := match d.stmt with
    | some id => "[" ++ stmtRef id ++ "]"
    | none => ""
  let notes := d.notes.map ("\n  note: " ++ ·)
  let help := d.help.toList.map ("\n  help: " ++ ·)
  d.severity.label ++ instruction ++ " at " ++ d.span.text ++ ": " ++ d.message
    ++ String.join (notes ++ help)

end Diagnostic

end TensorKernel
