import TensorKernel.Program

/-!
# Walking a program

`Program.reachable` lists every instruction that can be reached from the root,
in program order: a control instruction stands right before the contents of its
blocks, and these follow one another in execution order. An instruction in a
block that several instructions nest is listed once for each of them; one in a
block that nothing nests is not listed at all.

Blocks that contain themselves have no program order. Nested blocks are
therefore followed only as deep as there are blocks, which is deeper than any
program without such a block goes.
-/

namespace TensorKernel.Program

/-- How deep blocks can be nested in one another. -/
def nestingBound (p : Program) : Nat := p.blocks.size

/-- The instructions of a block and of all blocks nested in it, to a given depth. -/
def contents (p : Program) : Nat → BlockId → Except Fault (List StmtId)
  | 0, _ => .error .endlessNesting
  | depth + 1, id => do
    let b ← p.block id
    let parts ← b.stmts.mapM fun id => do
      let s ← p.stmt id
      let nested ← s.instr.blocks.mapM (p.contents depth)
      return id :: nested.flatten
    return parts.flatten

/-- Every instruction reachable from the root, in program order. -/
def reachable (p : Program) : Except Fault (List StmtId) := p.contents p.nestingBound root

/-- The reachable conversions of numeric values, in program order. -/
def casts (p : Program) : Except Fault (List StmtId) := do
  let ids ← p.reachable
  ids.filterM fun id => do return (← p.stmt id).instr.isValueCast

end TensorKernel.Program
