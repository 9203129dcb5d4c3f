import TensorKernel.Program

/-!
# Building programs

A program is written down as a list of `Step`s. Steps are data: an instruction
to append, a span to give to what follows, a type to preset, or a control
construct with the steps that fill its blocks. Running them keeps a `Draft`,
the program so far together with the current span, and always appends to the
innermost block that is open.

* A conditional or a `while` creates its block, fills it, and only then appends
  the control instruction; of a conditional with two branches the second block
  is created when the first one is full.
* A loop over a range or over a storage node appends its instruction before its
  block is filled, so that the steps inside can refer to the loop.

A run also returns the numbers that the steps gave out, in the order in which
they became known. A loop reports its number twice, when its block is opened
and when it is closed.
-/

namespace TensorKernel

/-- One step of building a program. -/
inductive Step where
  /-- What is appended from now on has this span. -/
  | setSpan (span : Span)
  /-- Presets the type of an instruction's result. -/
  | typed (id : StmtId) (type : VectorType)
  | emit (instr : Instr)
  | ifThen (cond : StmtId) (body : List Step)
  | ifElse (cond : StmtId) (onTrue onFalse : List Step)
  | rangeFor (first last : StmtId) (body : List Step)
  | structFor (node : NodeId) (body : List Step)
  | whileLoop (body : List Step)
  | offloaded (task : Task) (body : List Step)

namespace Step

/-- A conversion of a numeric value. -/
def cast (operand : StmtId) (target : ElementType) : Step :=
  emit (.unary (.cast target true) operand)

/-- A choice between two values, lane by lane. -/
def select (cond onTrue onFalse : StmtId) : Step := emit (.ternary .select cond onTrue onFalse)

/-- A storage operation that passes no value. -/
def storageOp (op : StorageOp) (node : NodeId) (ptr : Option StmtId) : Step :=
  emit (.storageOp op node ptr none)

end Step

/-- A program under construction. -/
structure Draft where
  program : Program := .empty
  /-- The span of what is appended next. -/
  span : Span := .dummy
  deriving DecidableEq

namespace Draft

def push (d : Draft) (block : BlockId) (instr : Instr) : Except Fault (Draft × StmtId) := do
  let (p, id) ← d.program.push block instr d.span
  return ({ d with program := p }, id)

def newBlock (d : Draft) : Draft × BlockId :=
  let (p, id) := d.program.newBlock
  ({ d with program := p }, id)

end Draft

mutual

/-- Runs one step with `block` as the innermost open block. -/
def Step.run (block : BlockId) : Step → Draft → Except Fault (Draft × List StmtId)
  | .setSpan span, d => .ok ({ d with span }, [])
  | .typed id type, d => do
    let p ← d.program.setType id type
    return ({ d with program := p }, [id])
  | .emit instr, d => do
    let (d, id) ← d.push block instr
    return (d, [id])
  | .ifThen cond body, d => do
    let (d, inner) := d.newBlock
    let (d, ids) ← Step.runAll inner body d
    let (d, id) ← d.push block (.branch cond (some inner) none)
    return (d, ids ++ [id])
  | .ifElse cond onTrue onFalse, d => do
    let (d, first) := d.newBlock
    let (d, ids) ← Step.runAll first onTrue d
    let (d, second) := d.newBlock
    let (d, moreIds) ← Step.runAll second onFalse d
    let (d, id) ← d.push block (.branch cond (some first) (some second))
    return (d, ids ++ moreIds ++ [id])
  | .rangeFor first last body, d => do
    let (d, inner) := d.newBlock
    let (d, id) ← d.push block (.rangeFor first last inner)
    let (d, ids) ← Step.runAll inner body d
    return (d, id :: ids ++ [id])
  | .structFor node body, d => do
    let (d, inner) := d.newBlock
    let (d, id) ← d.push block (.structFor node inner)
    let (d, ids) ← Step.runAll inner body d
    return (d, id :: ids ++ [id])
  | .whileLoop body, d => do
    let (d, inner) := d.newBlock
    let (d, ids) ← Step.runAll inner body d
    let (d, id) ← d.push block (.whileLoop inner)
    return (d, ids ++ [id])
  | .offloaded task body, d => do
    let (d, inner) := d.newBlock
    let (d, ids) ← Step.runAll inner body d
    let (d, id) ← d.push block (.offloaded task (some inner))
    return (d, ids ++ [id])

/-- Runs steps in order with `block` as the innermost open block. -/
def Step.runAll (block : BlockId) : List Step → Draft → Except Fault (Draft × List StmtId)
  | [], d => .ok (d, [])
  | step :: rest, d => do
    let (d, ids) ← Step.run block step d
    let (d, moreIds) ← Step.runAll block rest d
    return (d, ids ++ moreIds)

end

/-- The program that the steps build, and the numbers they gave out. -/
def Program.build (steps : List Step) : Except Fault (Program × List StmtId) := do
  let (d, ids) ← Step.runAll Program.root steps {}
  return (d.program, ids)

end TensorKernel
