import TensorKernel.Check.TypeError
import TensorKernel.Config
import TensorKernel.ElementType.Promotion
import TensorKernel.Program
import TensorKernel.Signature

/-!
# The state of a check

A check changes a program in place: it sets types and inserts conversions. What
a rule works on is a `CheckState`, the program so far with the warnings and the
number of conversions so far, and a rule is a `Checker`: it goes on, or it stops
the check with a `Fatal` error. Either way the state is kept, for a program that
is refused is still shown as far as it was checked. A reference that leads
nowhere is a `Fault`, of which nothing remains.

The rules are put together from the few steps below, and nothing else touches
the state:

* `typeOf`, `elemOf` and `lookUp` read the program;
* `setType`, `setElem` and `setInstr` change one instruction;
* `insertCast` puts a conversion next to an instruction, typed and counted;
* `warn` adds a warning, and `stopAt` ends the check.

What each of them makes of a state (`runOn`) is said by one equation each in
`TensorKernel.Check.Steps`.
-/

namespace TensorKernel

/-- What a check is given beside the program. -/
structure CheckContext where
  config : Config
  signature : Signature
  storage : Storage
  deriving DecidableEq

/-- A conversion that was made although it may lose precision. -/
structure Warning where
  stmt : StmtId
  span : Span
  loss : PrecisionLoss
  /-- The instruction's text when the warning was given. -/
  stmtText : String
  deriving DecidableEq

/-- The error a check stopped with, and where. -/
structure Fatal where
  stmt : StmtId
  error : TypeError
  deriving DecidableEq

structure CheckState where
  program : Program
  /-- In the order in which they were given. -/
  warnings : List Warning := []
  /-- How many conversions were inserted. -/
  casts : Nat := 0
  deriving DecidableEq

/-- A step of a check. -/
abbrev Checker := ExceptT Fatal (StateT CheckState (Except Fault))

namespace Checker

/-- What a step makes of a state: its answer or the error it stopped with, and the
state it leaves. -/
def runOn {α : Type} (step : Checker α) (s : CheckState) :
    Except Fault (Except Fatal α × CheckState) := step.run.run s

/-- Asks the program something. -/
def lookUp {α : Type} (ask : Program → Except Fault α) : Checker α :=
  ExceptT.mk fun s => do
    let a ← ask s.program
    return (.ok a, s)

/-- Changes the program. -/
def update {α : Type} (change : Program → Except Fault (Program × α)) : Checker α :=
  ExceptT.mk fun s => do
    let (program, a) ← change s.program
    return (.ok a, { s with program })

/-- Changes the program, and answers nothing. -/
def edit (change : Program → Except Fault Program) : Checker Unit :=
  update fun p => do return (← change p, ())

/-- Ends the check with an error at an instruction. -/
def stopAt {α : Type} (id : StmtId) (error : TypeError) : Checker α := throw ⟨id, error⟩

/-! ### Reading and setting types -/

def typeOf (id : StmtId) : Checker VectorType := lookUp (·.typeOf id)

/-- The element type of an instruction's result. -/
def elemOf (id : StmtId) : Checker ElementType := do return (← typeOf id).elem

def setType (id : StmtId) (type : VectorType) : Checker Unit := edit (·.setType id type)

/-- Sets the element type of a result and keeps its width. -/
def setElem (id : StmtId) (elem : ElementType) : Checker Unit := edit (·.setElem id elem)

def setInstr (id : StmtId) (instr : Instr) : Checker Unit := edit (·.setInstr id instr)

/-! ### Conversions and warnings -/

/-- Puts a conversion of `input` to `target` next to `anchor`, in the anchor's block
and with its span. The conversion has its type at once, since the walk through
the block will not come to it. -/
def insertCast (side : Program.Side) (anchor input : StmtId) (target : ElementType) :
    Checker StmtId := do
  let width := (← typeOf input).width
  let span := (← lookUp (·.stmt anchor)).span
  let cast ← update (·.insert side anchor (.unary (.cast target true) input) span)
  setType cast ⟨width, target⟩
  modify fun s => { s with casts := s.casts + 1 }
  return cast

/-- Adds a warning at an instruction. -/
def warn (id : StmtId) (loss : PrecisionLoss) : Checker Unit := do
  let s ← lookUp (·.stmt id)
  modify fun state =>
    { state with warnings := state.warnings ++ [⟨id, s.span, loss, s.text⟩] }

/-- Reports a conversion that may lose precision: as a warning, unless it is a
narrowing and the settings deny those. -/
def reportLoss (config : Config) (id : StmtId) (loss : PrecisionLoss) : Checker Unit :=
  if ElementType.narrows loss.target loss.value ∧ config.narrowing = .deny then
    stopAt id (.precisionLoss loss)
  else warn id loss

end Checker

end TensorKernel
