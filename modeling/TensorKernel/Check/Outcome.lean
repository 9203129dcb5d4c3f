import TensorKernel.Check.Pass
import TensorKernel.Diagnostic

/-!
# The outcome of a check

`Program.typecheck` checks a program from its parts. The program it answers with
is the checked one, or, of a program that is refused, what the check had made
of it so far. A refusal tells where it came from and in which words
(`Failure`); a program that passes comes with the warnings and the number of
conversions that were inserted (`Report`).
-/

namespace TensorKernel

/-- What is to be said of a program that passed. -/
structure Report where
  warnings : List Warning
  casts : Nat
  deriving DecidableEq

/-- Why a program was refused. -/
structure Failure where
  stmt : StmtId
  span : Span
  error : TypeError
  /-- The refused instruction as it is printed. -/
  stmtText : String
  /-- The warnings given before. -/
  warnings : List Warning
  deriving DecidableEq

/-- The note that shows an instruction. -/
def inStmt (text : String) : String := "in `" ++ text ++ "`"

def Warning.message (w : Warning) : String := w.loss.message

/-- Whether a warning is about a narrowing, and so would be an error if the
settings denied those. -/
def Warning.isNarrowing (w : Warning) : Bool := ElementType.narrows w.loss.target w.loss.value

def Warning.diagnostic (w : Warning) : Diagnostic where
  severity := .warning
  message := w.message
  span := w.span
  stmt := some w.stmt
  notes := [inStmt w.stmtText]

namespace Failure

/-- Instruction, place and message on one line. -/
def text (f : Failure) : String :=
  stmtRef f.stmt ++ " at " ++ f.span.text ++ ": " ++ f.error.message

def diagnostic (f : Failure) : Diagnostic where
  severity := .error
  message := f.error.message
  span := f.span
  stmt := some f.stmt
  notes := [inStmt f.stmtText]
  help := f.error.help?

/-- The earlier warnings and then the failure. -/
def diagnostics (f : Failure) : List Diagnostic :=
  f.warnings.map Warning.diagnostic ++ [f.diagnostic]

end Failure

/-- A checked program and what is to be said of it. -/
structure Outcome where
  program : Program
  result : Except Failure Report

/-- Everything an outcome has to tell, in order. -/
def Outcome.diagnostics (o : Outcome) : List Diagnostic :=
  match o.result with
  | .ok report => report.warnings.map Warning.diagnostic
  | .error failure => failure.diagnostics

/-- The failure that a fatal error in a given state is. -/
def CheckState.failure (s : CheckState) (fatal : Fatal) : Except Fault Failure := do
  let stmt ← s.program.stmt fatal.stmt
  return ⟨fatal.stmt, stmt.span, fatal.error, stmt.text, s.warnings⟩

/-- Checks a program. -/
def Program.typecheck (p : Program) (ctx : CheckContext) : Except Fault Outcome := do
  let (verdict, s) ← (Checker.pass ctx).runOn { program := p }
  match verdict with
  | .ok () => return ⟨s.program, .ok ⟨s.warnings, s.casts⟩⟩
  | .error fatal => return ⟨s.program, .error (← s.failure fatal)⟩

end TensorKernel
