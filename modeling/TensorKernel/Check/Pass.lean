import TensorKernel.Check.MemoryRules
import TensorKernel.Check.ValueRules
import TensorKernel.Program.Walk

/-!
# The pass over a program

Checking a program is one walk through it in program order. At every
instruction its typing rule is applied (`Checker.rule`), and then the blocks
nested in it are walked. A block is walked as it was when the walk came to it:
conversions that are inserted on the way are typed when they are made, and the
walk does not come to them.

If the settings ask for it, a second look at the finished program makes sure
that every value that is read has a type (`Checker.verifyTotality`).
-/

namespace TensorKernel.Checker

/-- Types a constant that bounds a loop as a loop index; anything else keeps its type. -/
def forceIndexType (id : StmtId) : Checker Unit := do
  if (← lookUp (·.stmt id)).instr.isConst then
    setType id (.scalar .i32)

/-- The typing rule of an instruction. Slots are typed by stores, constants come
typed, and of the control instructions only a loop over a range has a rule. -/
def rule (ctx : CheckContext) (id : StmtId) : Instr → Checker Unit
  | .alloca | .const _ | .branch _ _ _ | .structFor _ _ | .whileLoop _ | .offloaded _ _ => pure ()
  | .rangeFor first last _ => do
    forceIndexType first
    forceIndexType last
  | .localLoad slot => checkLocalLoad id slot
  | .localStore slot value => checkLocalStore ctx.config id slot value
  | .globalLoad ptr => do setType id (← typeOf ptr)
  | .globalStore ptr value => checkGlobalStore ctx.config id ptr value
  | .atomic op dest value => checkAtomic ctx.config id op dest value
  | .globalPtr nodes indices => checkGlobalPtr ctx.storage id nodes indices
  | .storageOp _ _ _ _ | .loopIndex _ _ => setType id (.scalar .i32)
  | .unary op operand => checkUnary id op operand
  | .binary op lhs rhs => checkBinary ctx.config id op lhs rhs
  | .ternary op first second third => checkTernary id op first second third
  | .shuffle lanes => checkShuffle id lanes
  | .assumeInRange input base _ _ => checkRangeAssumption id input base
  | .argLoad arg => checkArgLoad ctx.signature id arg
  | .argStore arg value => checkArgStore ctx.signature id arg value
  | .externalPtr bases _ => checkExternalPtr id bases
  | .childPtr _ _ _ outputNode => checkChildPtr ctx.storage id outputNode

/-- Applies the rule of an instruction and enters the blocks nested in it. -/
def visit (ctx : CheckContext) (enter : BlockId → Checker Unit) (id : StmtId) :
    Checker Unit := do
  let instr := (← lookUp (·.stmt id)).instr
  rule ctx id instr
  instr.blocks.forM enter

/-- Walks a block and what is nested in it, to a given depth. -/
def visitBlock (ctx : CheckContext) : Nat → BlockId → Checker Unit
  | 0, _ => lookUp fun _ => .error .endlessNesting
  | depth + 1, id => do
    let stmts := (← lookUp (·.block id)).stmts
    stmts.forM (visit ctx (visitBlock ctx depth))

/-- Stops at the first reachable instruction that reads a value without a type. -/
def verifyTotality : Checker Unit := do
  let ids ← lookUp (·.reachable)
  ids.forM fun consumer => do
    let instr := (← lookUp (·.stmt consumer)).instr
    instr.typedOperands.forM fun operand => do
      if (← elemOf operand).isUnknown then
        stopAt consumer (.unresolved operand)

/-- The whole check. -/
def pass (ctx : CheckContext) : Checker Unit := do
  let bound ← lookUp fun p => .ok p.nestingBound
  visitBlock ctx bound Program.root
  if ctx.config.verifyTotality then
    verifyTotality

end TensorKernel.Checker
